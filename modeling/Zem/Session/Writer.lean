import Zem.Library.Runs
import Zem.Session.TCPSession

/-!
# The write path as a system: one writer, no stalled queue, exact accounting

`Writer` runs the write path of one session: `SendFrame` tasks, completions of `async_write` with
either result, and `Shutdown` calls, in any order.  `ReadLoop` shares the members, and its one
store to them, of the peer's api version, is an event too.

* `Writer.call` — one such event: the next state and the calls it makes to Asio.
* `sendFrame_step`, `writeDone_step`, `shutdown_step` — what each event can do.
* `WriterInv`, `writerInv_step`, `writerInv_run` — the invariant, one step and every run.
* `single_writer`, `byte_accounting` — what it says about every reachable state.
-/

set_option autoImplicit false

namespace Zem

/-- A session's members, the writes whose completion handler has not run, and what has happened so
    far: the frames pushed, the number of writes started, and the bytes of the completed ones. -/
structure Writer where
  session : TCPSession
  outstanding : List Batch
  accepted : List Frame
  started : Nat
  written : Bytes
  deriving DecidableEq, Repr

def Writer.init : Writer := ⟨.init, [], [], 0, []⟩

inductive WriterAct where
  | sendFrame (a : SendArgs) (raced : Bool)
  | writeDone (b : Batch) (ec : Bool)
  | shutdown
  | setPeerApiVersion (apiVersion : UInt16)
  deriving DecidableEq, Repr

namespace Writer

/-- Asio takes note of a started write. -/
def perform (w : Writer) : AsioCall → Writer
  | .asyncWrite b => { w with outstanding := w.outstanding ++ [b], started := w.started + 1 }
  | .cancelResumeRead => w
  | .postCleanup => w

def performAll (w : Writer) (calls : List AsioCall) : Writer := calls.foldl perform w

/-- One event.  A frame counts as accepted when the queue has grown; a completion needs a write
    that is outstanding. -/
def call (w : Writer) : WriterAct → Option (Writer × List AsioCall)
  | .sendFrame a raced =>
    let r := w.session.sendFrame a raced
    let accepted :=
      if r.1.writeQueue.length = w.session.writeQueue.length then w.accepted
      else w.accepted ++ [a.frame]
    some (performAll { w with session := r.1, accepted := accepted } r.2, r.2)
  | .writeDone b ec =>
    if b ∈ w.outstanding then
      let r := w.session.writeDone b ec
      some (performAll
        { w with
          session := r.1
          outstanding := w.outstanding.erase b
          written := if ec then w.written else w.written ++ b.bufs.flatten } r.2, r.2)
    else none
  | .shutdown =>
    let r := w.session.shutdown
    some (performAll { w with session := r.1 } r.2, r.2)
  | .setPeerApiVersion v => some ({ w with session := { w.session with peerApiVersion := v } }, [])

def step (w : Writer) (act : WriterAct) : Option Writer := (w.call act).map Prod.fst

/-! ## What each event can do -/

@[simp] theorem performAll_shutdownCalls (w : Writer) (raced : Bool) :
    w.performAll (TCPSession.shutdownCalls raced) = w := by
  cases raced <;> rfl

@[simp] theorem performAll_resumeCalls (w : Writer) (b : Batch) (s : TCPSession) :
    w.performAll (s.resumeCalls b) = w := by
  unfold TCPSession.resumeCalls
  split <;> rfl

theorem performAll_append (w : Writer) (c d : List AsioCall) :
    w.performAll (c ++ d) = (w.performAll c).performAll d :=
  List.foldl_append

@[simp] theorem performAll_session (calls : List AsioCall) (w : Writer) :
    (w.performAll calls).session = w.session := by
  induction calls generalizing w with
  | nil => rfl
  | cons c calls ih =>
    rw [show w.performAll (c :: calls) = (w.perform c).performAll calls from rfl, ih]
    cases c <;> rfl

theorem call_sendFrame {w w' : Writer} {a : SendArgs} {raced : Bool} {calls : List AsioCall}
    (h : w.call (.sendFrame a raced) = some (w', calls)) :
    w'.session = (w.session.sendFrame a raced).1 ∧ calls = (w.session.sendFrame a raced).2 := by
  simp only [call, Option.some.injEq, Prod.mk.injEq] at h
  obtain ⟨rfl, rfl⟩ := h
  exact ⟨performAll_session _ _, rfl⟩

theorem call_writeDone {w w' : Writer} {b : Batch} {ec : Bool} {calls : List AsioCall}
    (h : w.call (.writeDone b ec) = some (w', calls)) :
    w'.session = (w.session.writeDone b ec).1 ∧ calls = (w.session.writeDone b ec).2 := by
  simp only [call] at h
  split at h
  · simp only [Option.some.injEq, Prod.mk.injEq] at h
    obtain ⟨rfl, rfl⟩ := h
    exact ⟨performAll_session _ _, rfl⟩
  · cases h

def setWriting (w : Writer) (v : Bool) : Writer :=
  { w with session := { w.session with isWriting := v } }

/-- A write of a batch from the front of the queue is started. -/
def startWrite (w : Writer) : Writer :=
  { w with
    outstanding := w.outstanding ++ [gather w.session.writeQueue .empty]
    started := w.started + 1 }

/-- `SendFrame` has pushed its item. -/
def afterPush (w : Writer) (a : SendArgs) (raced : Bool) : Writer :=
  { w with session := w.session.pushed a raced, accepted := w.accepted ++ [a.frame] }

/-- The completion handler has seen a failed write. -/
def afterError (w : Writer) (b : Batch) : Writer :=
  { w with
    session := { w.session with isWriting := false, isClosed := true }
    outstanding := w.outstanding.erase b }

/-- The completion handler has taken a written batch off the queue. -/
def afterPop (w : Writer) (b : Batch) : Writer :=
  { w with
    session := w.session.popped b
    outstanding := w.outstanding.erase b
    written := w.written ++ b.bufs.flatten }

theorem sendFrame_step {w w' : Writer} {a : SendArgs} {raced : Bool}
    (hs : w.session.pendingBytes ≤ sizeMax) (h : w.step (.sendFrame a raced) = some w') :
    (w.session.isClosed = true ∧ w' = w) ∨
    (w.session.isClosed = false ∧ ∃ p, w.session.pendingBytes ≤ p ∧ p ≤ sizeMax ∧
      (a.bodySize > TCPSessionLimit.maxBodySize → p = w.session.pendingBytes) ∧
      w' = { w with session := { w.session with isClosed := true, pendingBytes := p } }) ∨
    (w.session.isClosed = false ∧ a.bodySize ≤ TCPSessionLimit.maxBodySize ∧
      w.session.pendingBytes + (WriteData.ofArgs a).totalBytes ≤ TCPSessionLimit.hardCap ∧
      (((w.session.isWriting = true ∨ raced = true) ∧ w' = w.afterPush a raced) ∨
        (w.session.isWriting = false ∧ raced = false ∧
          w' = ((w.afterPush a raced).setWriting true).startWrite))) := by
  simp only [step, call, Option.map_some, Option.some.injEq] at h
  rcases TCPSession.sendFrame_cases a raced hs with
    ⟨hc, hr⟩ | ⟨ho, hbig, hr⟩ | ⟨ho, hbody, hsum, _, hr⟩ | ⟨ho, hbody, hcap, hr | hr | hr⟩
  · refine Or.inl ⟨hc, ?_⟩
    rw [← h, hr]
    simp [performAll]
  · refine Or.inr (Or.inl ⟨ho, _, Nat.le_refl _, hs, fun _ => rfl, ?_⟩)
    rw [← h, hr]
    simp
  · refine Or.inr (Or.inl ⟨ho, _, Nat.le_add_right _ _, hsum, fun hb => by omega, ?_⟩)
    rw [← h, hr]
    simp
  · refine Or.inr (Or.inr ⟨ho, hbody, hcap, Or.inl ⟨Or.inl hr.1, ?_⟩⟩)
    rw [← h, hr.2]
    simp [performAll, TCPSession.pushed, afterPush]
  · refine Or.inr (Or.inr ⟨ho, hbody, hcap, Or.inl ⟨Or.inr hr.2.1, ?_⟩⟩)
    rw [← h, hr.2.2]
    simp [performAll, TCPSession.pushed, afterPush]
  · refine Or.inr (Or.inr ⟨ho, hbody, hcap, Or.inr ⟨hr.1, hr.2.1, ?_⟩⟩)
    rw [← h, hr.2.2]
    simp [performAll, perform, TCPSession.pushed, afterPush, setWriting, startWrite]

theorem writeDone_step {w w' : Writer} {b : Batch} {ec : Bool}
    (h : w.step (.writeDone b ec) = some w') :
    b ∈ w.outstanding ∧
      ((ec = true ∧ w' = w.afterError b) ∨
        (ec = false ∧ (w.session.isClosed = true ∨ w.session.writeQueue.drop b.items = []) ∧
          w' = (w.afterPop b).setWriting false) ∨
        (ec = false ∧ w.session.isClosed = false ∧ w.session.writeQueue.drop b.items ≠ [] ∧
          w' = (w.afterPop b).startWrite)) := by
  simp only [step, call] at h
  split at h
  · rename_i hb
    refine ⟨hb, ?_⟩
    simp only [Option.map_some, Option.some.injEq] at h
    rcases TCPSession.writeDone_cases b ec w.session with
      ⟨hec, hr⟩ | ⟨hec, hstop, hr⟩ | ⟨hec, ho, hne, hr⟩
    · refine Or.inl ⟨hec, ?_⟩
      rw [← h, hr, hec, performAll_shutdownCalls]
      rfl
    · refine Or.inr (Or.inl ⟨hec, hstop, ?_⟩)
      rw [← h, hr, hec, performAll_resumeCalls]
      rfl
    · refine Or.inr (Or.inr ⟨hec, ho, hne, ?_⟩)
      rw [← h, hr, hec, performAll_append, performAll_resumeCalls]
      rfl
  · cases h

theorem shutdown_step {w w' : Writer} (h : w.step .shutdown = some w') :
    w' = { w with session := { w.session with isClosed := true } } := by
  simp only [step, call, Option.map_some, Option.some.injEq] at h
  cases hc : w.session.isClosed with
  | false =>
    rw [← h, TCPSession.shutdown_open hc]
    rfl
  | true =>
    rw [← h, TCPSession.shutdown_closed hc, ← hc]
    rfl

theorem setPeerApiVersion_step {w w' : Writer} {v : UInt16}
    (h : w.step (.setPeerApiVersion v) = some w') :
    w' = { w with session := { w.session with peerApiVersion := v } } :=
  (Option.some.inj h).symm

end Writer

/-! ## Accounting -/

/-- What `m_pending_bytes` and `m_backpressure` say about the write queue. -/
structure Accounting (s : TCPSession) : Prop where
  covered : totalOf s.writeQueue ≤ s.pendingBytes
  bounded : s.pendingBytes ≤ sizeMax
  exact : s.isClosed = false →
    s.pendingBytes = totalOf s.writeQueue ∧ s.pendingBytes ≤ TCPSessionLimit.hardCap
  high : s.isClosed = false → s.pendingBytes > TCPSessionLimit.highWater → s.backpressure = true
  low : s.isClosed = false → s.backpressure = true → s.pendingBytes > TCPSessionLimit.lowWater

theorem hardCap_le_sizeMax : TCPSessionLimit.hardCap ≤ sizeMax := by decide

theorem lowWater_lt_highWater : TCPSessionLimit.lowWater < TCPSessionLimit.highWater := by decide

theorem Accounting.setWriting {s : TCPSession} (h : Accounting s) (v : Bool) :
    Accounting { s with isWriting := v } :=
  ⟨h.covered, h.bounded, h.exact, h.high, h.low⟩

/-- Closing may leave bytes counted that were never queued. -/
theorem Accounting.close {s : TCPSession} (h : Accounting s) {p : Nat} (hp : s.pendingBytes ≤ p)
    (hmax : p ≤ sizeMax) : Accounting { s with isClosed := true, pendingBytes := p } := by
  have hcov := h.covered
  refine ⟨?_, hmax, fun ho => ?_, fun ho => ?_, fun ho => ?_⟩
  · simp only
    omega
  all_goals cases ho

theorem Accounting.pushed {s : TCPSession} (h : Accounting s) (ho : s.isClosed = false)
    {a : SendArgs} (raced : Bool)
    (hcap : s.pendingBytes + (WriteData.ofArgs a).totalBytes ≤ TCPSessionLimit.hardCap) :
    Accounting (s.pushed a raced) := by
  have hcov := h.covered
  have hex := h.exact ho
  refine ⟨?_, ?_, fun _ => ⟨?_, hcap⟩, fun _ hhigh => ?_, fun _ hbp => ?_⟩
  · simp only [TCPSession.pushed, totalOf_append, totalOf_cons, totalOf_nil]
    omega
  · exact Nat.le_trans hcap hardCap_le_sizeMax
  · simp only [TCPSession.pushed, totalOf_append, totalOf_cons, totalOf_nil]
    omega
  · simp only [TCPSession.pushed] at hhigh ⊢
    simp [hhigh]
  · simp only [TCPSession.pushed, Bool.or_eq_true, decide_eq_true_eq] at hbp ⊢
    have hlt := lowWater_lt_highWater
    rcases hbp with hbp | hbp
    · have := h.low ho hbp
      omega
    · omega

/-- The subtraction of the completion handler does not wrap. -/
theorem Accounting.popped_pending {s : TCPSession} (h : Accounting s) {b : Batch}
    (hb : b.CutFrom s.writeQueue) :
    b.bytes ≤ s.pendingBytes ∧ (s.popped b).pendingBytes = s.pendingBytes - b.bytes := by
  have hsplit := totalOf_take_add_drop b.items s.writeQueue
  have hcov := h.covered
  have hle : b.bytes ≤ s.pendingBytes := by
    rw [hb.bytes]
    omega
  exact ⟨hle, sizeSub_eq hle h.bounded⟩

theorem Accounting.popped {s : TCPSession} (h : Accounting s) {b : Batch}
    (hb : b.CutFrom s.writeQueue) : Accounting (s.popped b) := by
  obtain ⟨hle, hpend⟩ := h.popped_pending hb
  have hsplit := totalOf_take_add_drop b.items s.writeQueue
  rw [← hb.bytes] at hsplit
  have hcov := h.covered
  have hbound := h.bounded
  have hlt := lowWater_lt_highWater
  have hqueue : (s.popped b).writeQueue = s.writeQueue.drop b.items := rfl
  have hbp : (s.popped b).backpressure = true ↔
      s.backpressure = true ∧ TCPSessionLimit.lowWater < s.pendingBytes - b.bytes := by
    rw [← hpend]
    simp [TCPSession.popped]
  refine ⟨?_, ?_, fun ho => ⟨?_, ?_⟩, fun ho hhigh => ?_, fun ho h' => ?_⟩
  · rw [hpend, hqueue]
    omega
  · rw [hpend]
    omega
  · have := (h.exact ho).1
    rw [hpend, hqueue]
    omega
  · have := (h.exact ho).2
    rw [hpend]
    omega
  · rw [hpend] at hhigh
    exact hbp.mpr ⟨h.high ho (by omega), by omega⟩
  · rw [hpend]
    exact (hbp.mp h').2

/-! ## The invariant -/

/-- No write is outstanding, or one is, of a batch that is still the front of the queue. -/
def InFlight (w : Writer) : Prop :=
  w.outstanding = [] ∨ ∃ b, w.outstanding = [b] ∧ b.CutFrom w.session.writeQueue

structure WriterInv (w : Writer) : Prop where
  accounting : Accounting w.session
  inFlight : InFlight w
  writing : w.session.isWriting = true ↔ w.outstanding ≠ []
  flowing : w.session.isClosed = false → w.session.writeQueue ≠ [] → w.outstanding ≠ []

theorem writerInv_init : WriterInv .init := by
  refine ⟨⟨?_, ?_, ?_, ?_, ?_⟩, Or.inl rfl, ?_, ?_⟩ <;> decide

/-- An outstanding batch is the only one, and the front of the queue. -/
theorem WriterInv.outstanding_eq {w : Writer} (h : WriterInv w) {b : Batch}
    (hb : b ∈ w.outstanding) : w.outstanding = [b] ∧ b.CutFrom w.session.writeQueue := by
  rcases h.inFlight with hnil | ⟨c, hc, hcut⟩
  · rw [hnil] at hb
    cases hb
  · rw [hc, List.mem_singleton] at hb
    subst hb
    exact ⟨hc, hcut⟩

/-- An open session with backpressure has a write in flight. -/
theorem outstanding_of_backpressure {w : Writer} (h : WriterInv w)
    (ho : w.session.isClosed = false) (hb : w.session.backpressure = true) :
    w.outstanding ≠ [] := by
  apply h.flowing ho
  intro hnil
  have hlow := h.accounting.low ho hb
  have hexact := (h.accounting.exact ho).1
  rw [hnil, totalOf_nil] at hexact
  omega

/-- Starting a write from a non-empty queue, when none is outstanding and the flag is set. -/
theorem writerInv_startWrite {w : Writer} (hacc : Accounting w.session)
    (hnone : w.outstanding = []) (hwr : w.session.isWriting = true)
    (hne : w.session.writeQueue ≠ []) : WriterInv w.startWrite := by
  have hout : w.startWrite.outstanding = [gather w.session.writeQueue .empty] := by
    simp [Writer.startWrite, hnone]
  refine ⟨hacc, Or.inr ⟨_, hout, gather_cutFrom hne⟩, ?_, ?_⟩
  · rw [hout]
    exact ⟨fun _ => by simp, fun _ => hwr⟩
  · intro _ _
    rw [hout]
    simp

theorem WriterInv.push {w : Writer} (h : WriterInv w) (ho : w.session.isClosed = false)
    {a : SendArgs} {raced : Bool}
    (hcap : w.session.pendingBytes + (WriteData.ofArgs a).totalBytes ≤ TCPSessionLimit.hardCap)
    (hw : w.session.isWriting = true ∨ raced = true) : WriterInv (w.afterPush a raced) := by
  refine ⟨h.accounting.pushed ho raced hcap, ?_, h.writing, ?_⟩
  · rcases h.inFlight with hnil | ⟨b, hb, hcut⟩
    · exact Or.inl hnil
    · exact Or.inr ⟨b, hb, hcut.append _⟩
  · intro ho' _
    rcases hw with hw | hw
    · exact h.writing.mp hw
    · -- the flag is set in the state after a race, so the session is not open there
      subst hw
      cases ho'

theorem WriterInv.close {w : Writer} (h : WriterInv w) {p : Nat}
    (hp : w.session.pendingBytes ≤ p) (hmax : p ≤ sizeMax) :
    WriterInv { w with session := { w.session with isClosed := true, pendingBytes := p } } :=
  ⟨h.accounting.close hp hmax, h.inFlight, h.writing, fun ho => by cases ho⟩

theorem WriterInv.error {w : Writer} (h : WriterInv w) {b : Batch} (hb : b ∈ w.outstanding) :
    WriterInv (w.afterError b) := by
  have hnone : (w.afterError b).outstanding = [] := by
    simp [Writer.afterError, (h.outstanding_eq hb).1]
  refine ⟨?_, Or.inl hnone, ?_, fun ho => by cases ho⟩
  · exact (h.accounting.close (Nat.le_refl _) h.accounting.bounded).setWriting false
  · rw [hnone]
    simp [Writer.afterError]

/-- **Every event preserves the invariant.** -/
theorem writerInv_step (w : Writer) (act : WriterAct) (w' : Writer) (h : WriterInv w)
    (hstep : w.step act = some w') : WriterInv w' := by
  cases act with
  | sendFrame a raced =>
    rcases Writer.sendFrame_step h.accounting.bounded hstep with
      ⟨_, rfl⟩ | ⟨_, p, hp, hmax, _, rfl⟩ | ⟨ho, _, hcap, ⟨hw, rfl⟩ | ⟨hw, _, rfl⟩⟩
    · exact h
    · exact h.close hp hmax
    · exact h.push ho hcap hw
    · have hnone : w.outstanding = [] := by
        by_contra hne
        rw [h.writing.mpr hne] at hw
        cases hw
      refine writerInv_startWrite ?_ hnone rfl ?_
      · exact (h.accounting.pushed ho raced hcap).setWriting true
      · simp [Writer.setWriting, Writer.afterPush, TCPSession.pushed]
  | writeDone b ec =>
    obtain ⟨hb, hcase⟩ := Writer.writeDone_step hstep
    obtain ⟨hout, hcut⟩ := h.outstanding_eq hb
    have hnone : (w.afterPop b).outstanding = [] := by simp [Writer.afterPop, hout]
    have hacc := h.accounting.popped hcut
    rcases hcase with ⟨_, rfl⟩ | ⟨_, hstop, rfl⟩ | ⟨_, _, hne, rfl⟩
    · exact h.error hb
    · refine ⟨hacc.setWriting false, Or.inl hnone, ?_, ?_⟩
      · have : ((w.afterPop b).setWriting false).outstanding = [] := hnone
        rw [this]
        simp [Writer.setWriting]
      · intro ho hne
        rcases hstop with hc | hnil
        · have : w.session.isClosed = false := ho
          rw [this] at hc
          cases hc
        · exact absurd hnil hne
    · refine writerInv_startWrite hacc hnone ?_ hne
      have : w.session.isWriting = true := h.writing.mpr (by rw [hout]; simp)
      exact this
  | shutdown =>
    rw [Writer.shutdown_step hstep]
    exact h.close (Nat.le_refl _) h.accounting.bounded
  | setPeerApiVersion v =>
    rw [Writer.setPeerApiVersion_step hstep]
    obtain ⟨hcov, hbound, hexact, hhigh, hlow⟩ := h.accounting
    exact ⟨⟨hcov, hbound, hexact, hhigh, hlow⟩, h.inFlight, h.writing, h.flowing⟩

theorem writerInv_run {acts : List WriterAct} {w : Writer}
    (h : Runs.exec Writer.step .init acts = some w) : WriterInv w :=
  Runs.exec_invariant writerInv_step writerInv_init h

/-! ## Results -/

/-- **Single writer and no stalled queue.**  After every run at most one `async_write` is
    outstanding, `m_is_writing` says whether one is, and one is whenever an open session has
    queued frames. -/
theorem single_writer {acts : List WriterAct} {w : Writer}
    (h : Runs.exec Writer.step .init acts = some w) :
    w.outstanding.length ≤ 1 ∧
    (w.session.isWriting = true ↔ w.outstanding.length = 1) ∧
    (w.session.isClosed = false → w.session.writeQueue ≠ [] → w.outstanding.length = 1) := by
  have hinv := writerInv_run h
  have hle : w.outstanding.length ≤ 1 := by
    rcases hinv.inFlight with hnil | ⟨b, hb, _⟩
    · rw [hnil]
      exact Nat.zero_le 1
    · rw [hb]
      exact Nat.le_refl 1
  have hone : w.outstanding ≠ [] ↔ w.outstanding.length = 1 := by
    rw [← List.length_pos_iff]
    omega
  refine ⟨hle, ?_, fun ho hne => hone.mp (hinv.flowing ho hne)⟩
  rw [hinv.writing, hone]

/-- The rule at a run with a queued frame behind the one in flight. -/
theorem single_writer_two_frames :
    ∃ w, Runs.exec Writer.step .init [.sendFrame ⟨.ping, none, 1⟩ false,
        .sendFrame ⟨.pong, none, 1⟩ false] = some w ∧
      w.session.writeQueue.length = 2 ∧ w.outstanding.length = 1 := by
  refine ⟨_, rfl, rfl, ?_⟩
  exact (single_writer (show Runs.exec Writer.step .init [.sendFrame ⟨.ping, none, 1⟩ false,
    .sendFrame ⟨.pong, none, 1⟩ false] = some _ from rfl)).2.2 rfl (by decide)

/-- **Byte accounting.**  While the session is open `m_pending_bytes` is the sum over the queue
    and at most `HardCap`, and it never falls below the sum.  A completion pops elements that are
    there, whose sum is the captured one, and its subtraction does not wrap.  An oversized body
    changes neither the queue nor the count. -/
theorem byte_accounting {acts : List WriterAct} {w : Writer}
    (h : Runs.exec Writer.step .init acts = some w) :
    (w.session.isClosed = false → w.session.pendingBytes = totalOf w.session.writeQueue ∧
      w.session.pendingBytes ≤ TCPSessionLimit.hardCap) ∧
    totalOf w.session.writeQueue ≤ w.session.pendingBytes ∧
    (∀ b ec w', w.step (.writeDone b ec) = some w' →
      b.items ≤ w.session.writeQueue.length ∧
      b.bytes = totalOf (w.session.writeQueue.take b.items) ∧
      b.bytes ≤ w.session.pendingBytes ∧
      (ec = false → w'.session.writeQueue = w.session.writeQueue.drop b.items ∧
        w'.session.pendingBytes = w.session.pendingBytes - b.bytes) ∧
      (ec = true → w'.session.writeQueue = w.session.writeQueue ∧
        w'.session.pendingBytes = w.session.pendingBytes)) ∧
    (∀ a raced w', a.bodySize > TCPSessionLimit.maxBodySize →
      w.step (.sendFrame a raced) = some w' →
      w'.session.writeQueue = w.session.writeQueue ∧
      w'.session.pendingBytes = w.session.pendingBytes) := by
  have hinv := writerInv_run h
  refine ⟨hinv.accounting.exact, hinv.accounting.covered, ?_, ?_⟩
  · intro b ec w' hstep
    obtain ⟨hb, hcase⟩ := Writer.writeDone_step hstep
    obtain ⟨_, hcut⟩ := hinv.outstanding_eq hb
    obtain ⟨hle, hpend⟩ := hinv.accounting.popped_pending hcut
    refine ⟨hcut.le, hcut.bytes, hle, ?_, ?_⟩
    · intro hok
      rcases hcase with ⟨hec, _⟩ | ⟨_, _, rfl⟩ | ⟨_, _, _, rfl⟩
      · rw [hok] at hec
        cases hec
      · exact ⟨rfl, hpend⟩
      · exact ⟨rfl, hpend⟩
    · intro herr
      rcases hcase with ⟨_, rfl⟩ | ⟨hec, _⟩ | ⟨hec, _⟩
      · exact ⟨rfl, rfl⟩
      · rw [herr] at hec
        cases hec
      · rw [herr] at hec
        cases hec
  · intro a raced w' hbig hstep
    rcases Writer.sendFrame_step hinv.accounting.bounded hstep with
      ⟨_, rfl⟩ | ⟨_, p, _, _, hp, rfl⟩ | ⟨_, hbody, _⟩
    · exact ⟨rfl, rfl⟩
    · exact ⟨rfl, hp hbig⟩
    · omega

/-- Three frames, of which the first is on its way when the others come. -/
def threeFrames : List WriterAct :=
  [.sendFrame ⟨.ping, none, 1⟩ false, .sendFrame ⟨.login, some [0, 0, 0, 1], 1⟩ false,
    .sendFrame ⟨.pong, none, 1⟩ false]

/-- The rule before and after the first write completes. -/
theorem byte_accounting_three_frames :
    ∃ w w', Runs.exec Writer.step .init threeFrames = some w ∧
      w.step (.writeDone (gather [.ofArgs ⟨.ping, none, 1⟩] .empty) false) = some w' ∧
      w.session.pendingBytes = 34 ∧ w.session.pendingBytes = totalOf w.session.writeQueue ∧
      w'.session.writeQueue = w.session.writeQueue.drop 1 ∧
      w'.session.pendingBytes = w.session.pendingBytes - 10 := by
  obtain ⟨w, w', hrun, hdone, hopen, hpending⟩ : ∃ w w',
      Runs.exec Writer.step .init threeFrames = some w ∧
      w.step (.writeDone (gather [.ofArgs ⟨.ping, none, 1⟩] .empty) false) = some w' ∧
      w.session.isClosed = false ∧ w.session.pendingBytes = 34 := ⟨_, _, rfl, rfl, rfl, rfl⟩
  obtain ⟨hsum, _, hwrite, _⟩ := byte_accounting hrun
  obtain ⟨hqueue, hbytes⟩ := (hwrite _ false w' hdone).2.2.2.1 rfl
  exact ⟨w, w', hrun, hdone, hpending, (hsum hopen).1, hqueue, hbytes⟩

end Zem
