import Zem.Library.Hysteresis
import Zem.Session.Gather

/-!
# Backpressure: a hysteresis that can be released

`SendFrame` raises `m_backpressure` above `HighWater`, the completion handler lowers it at or below
`LowWater`.  A frame may jump over both thresholds, and a batch may fall below both.

* `Steady` — the flag is one that `m_pending_bytes` leaves as it is.
* `hysteresis_step`, `hysteresis_run` — every event sets the flag to `Hysteresis.next`.
* `cancel_step` — `m_resume_read` is cancelled exactly when an event lowers the flag.
* `release` — from every open state with the flag up, completions of the outstanding writes lower
  it.
* `backpressure_hysteresis` — the three together.
-/

set_option autoImplicit false

namespace Zem

open TCPSessionLimit (lowWater highWater)

/-- The flag after `m_pending_bytes` has become `p`. -/
def nextBackpressure (flag : Bool) (p : Nat) : Bool := Hysteresis.next lowWater highWater flag p

/-- `m_pending_bytes` leaves `m_backpressure` as it is. -/
def Steady (s : TCPSession) : Prop :=
  Hysteresis.Steady lowWater highWater s.backpressure s.pendingBytes

/-! ## The flag -/

/-- The frame that overflows `HardCap` finds the flag already up. -/
theorem high_of_hardCap {p total : Nat} (h : p + total > TCPSessionLimit.hardCap)
    (htotal : total ≤ TCPHeaderConv.size + TCPSessionLimit.maxBodySize) : highWater < p := by
  have : highWater + (TCPHeaderConv.size + TCPSessionLimit.maxBodySize) <
    TCPSessionLimit.hardCap := by decide
  omega

theorem totalBytes_ofArgs_le {a : SendArgs} (h : a.bodySize ≤ TCPSessionLimit.maxBodySize) :
    (WriteData.ofArgs a).totalBytes ≤ TCPHeaderConv.size + TCPSessionLimit.maxBodySize := by
  have hq := queued_ofArgs h
  rw [hq.totalBytes]
  exact Nat.add_le_add_left hq.body_le _

theorem hysteresis_sendFrame (a : SendArgs) (raced : Bool) {s : TCPSession}
    (hmax : s.pendingBytes ≤ sizeMax) (hs : Steady s) :
    (s.sendFrame a raced).1.backpressure =
      nextBackpressure s.backpressure (s.sendFrame a raced).1.pendingBytes := by
  have hpush : (s.pushed a raced).backpressure =
      nextBackpressure s.backpressure (s.pushed a raced).pendingBytes :=
    (Hysteresis.next_rise lowWater_lt_highWater hs (Nat.le_add_right _ _)).symm
  rcases TCPSession.sendFrame_cases a raced hmax with
    ⟨_, hr⟩ | ⟨_, _, hr⟩ | ⟨_, hbody, _, hcap, hr⟩ | ⟨_, _, _, ⟨_, hr⟩ | ⟨_, _, hr⟩ | ⟨_, _, hr⟩⟩
  · rw [hr]
    exact hs.symm
  · rw [hr]
    exact hs.symm
  · -- the flag went up before the queue could get so long
    have hhigh := high_of_hardCap hcap (totalBytes_ofArgs_le hbody)
    have hup := ((Hysteresis.steady_iff lowWater_lt_highWater).mp hs).1 hhigh
    rw [hr]
    show s.backpressure = _
    rw [hup]
    exact (Hysteresis.next_above (Nat.lt_add_right _ hhigh) _).symm
  all_goals
    rw [hr]
    exact hpush

theorem hysteresis_writeDone {b : Batch} (ec : Bool) {s : TCPSession} (hs : Steady s)
    (hle : (s.popped b).pendingBytes ≤ s.pendingBytes) :
    (s.writeDone b ec).1.backpressure =
      nextBackpressure s.backpressure (s.writeDone b ec).1.pendingBytes := by
  have hpop : (s.popped b).backpressure =
      nextBackpressure s.backpressure (s.popped b).pendingBytes :=
    (Hysteresis.next_fall lowWater_lt_highWater hs hle).symm
  rcases TCPSession.writeDone_cases b ec s with ⟨_, hr⟩ | ⟨_, _, hr⟩ | ⟨_, _, _, hr⟩
  · rw [hr]
    exact hs.symm
  · rw [hr]
    exact hpop
  · rw [hr]
    exact hpop

theorem steady_of_next {s t : TCPSession}
    (h : t.backpressure = nextBackpressure s.backpressure t.pendingBytes) : Steady t := by
  unfold Steady
  rw [h]
  exact Hysteresis.steady_next _ _

/-- The invariant of the flag, with the one of the write path that it needs. -/
structure SteadyInv (w : Writer) : Prop where
  writer : WriterInv w
  steady : Steady w.session

theorem steadyInv_init : SteadyInv .init := ⟨writerInv_init, rfl⟩

/-- **Every event** sets the flag as the hysteresis does for the new `m_pending_bytes`. -/
theorem hysteresis_step (w : Writer) (act : WriterAct) (w' : Writer) (h : SteadyInv w)
    (hstep : w.step act = some w') :
    w'.session.backpressure =
      nextBackpressure w.session.backpressure w'.session.pendingBytes := by
  have hcall : ∃ calls, w.call act = some (w', calls) := by
    simp only [Writer.step, Option.map_eq_some_iff, Prod.exists, exists_and_right,
      exists_eq_right] at hstep
    exact hstep
  obtain ⟨calls, hcall⟩ := hcall
  cases act with
  | sendFrame a raced =>
    rw [(Writer.call_sendFrame hcall).1]
    exact hysteresis_sendFrame a raced h.writer.accounting.bounded h.steady
  | writeDone b ec =>
    obtain ⟨hb, _⟩ := Writer.writeDone_step hstep
    obtain ⟨_, hcut⟩ := h.writer.outstanding_eq hb
    obtain ⟨_, hpend⟩ := h.writer.accounting.popped_pending hcut
    rw [(Writer.call_writeDone hcall).1]
    apply hysteresis_writeDone ec h.steady
    rw [hpend]
    exact Nat.sub_le _ _
  | shutdown =>
    rw [Writer.shutdown_step hstep]
    exact h.steady.symm
  | setPeerApiVersion v =>
    rw [Writer.setPeerApiVersion_step hstep]
    exact h.steady.symm

theorem steadyInv_step (w : Writer) (act : WriterAct) (w' : Writer) (h : SteadyInv w)
    (hstep : w.step act = some w') : SteadyInv w' :=
  ⟨writerInv_step w act w' h.writer hstep, steady_of_next (hysteresis_step w act w' h hstep)⟩

/-- **Every run** leaves the flag at the hysteresis folded over the history of
    `m_pending_bytes`. -/
theorem hysteresis_run {acts : List WriterAct} {w : Writer}
    (h : Runs.exec Writer.step .init acts = some w) :
    w.session.backpressure =
      ((Runs.trace Writer.step .init acts).map (·.session.pendingBytes)).foldl
        nextBackpressure false :=
  Hysteresis.exec_next (fun w => w.session.backpressure) (fun w => w.session.pendingBytes)
    steadyInv_step hysteresis_step steadyInv_init h

/-! ## The cancel -/

theorem count_cancel_resumeCalls (b : Batch) (s : TCPSession) :
    (s.resumeCalls b).count .cancelResumeRead =
      (s.backpressure && !(s.popped b).backpressure).toNat := by
  unfold TCPSession.resumeCalls TCPSession.popped
  cases s.backpressure with
  | false => rfl
  | true =>
    by_cases hlow : sizeSub s.pendingBytes b.bytes ≤ lowWater
    · simp [hlow]
    · simp [hlow]

/-- **`m_resume_read` is cancelled** once by an event that lowers the flag, and by no other. -/
theorem cancel_step {w w' : Writer} {act : WriterAct} {calls : List AsioCall} (h : WriterInv w)
    (hcall : w.call act = some (w', calls)) :
    calls.count .cancelResumeRead =
      (w.session.backpressure && !w'.session.backpressure).toNat := by
  cases act with
  | sendFrame a raced =>
    obtain ⟨hs, hcalls⟩ := Writer.call_sendFrame hcall
    obtain ⟨_, hkeep, hnone⟩ := TCPSession.sendFrame_calls a raced h.accounting.bounded
    rw [hs, hcalls, List.count_eq_zero_of_not_mem hnone]
    cases hb : w.session.backpressure with
    | false => rfl
    | true => rw [hkeep hb]; rfl
  | writeDone b ec =>
    obtain ⟨hs, hcalls⟩ := Writer.call_writeDone hcall
    have hcount := count_cancel_resumeCalls b w.session
    rw [hs, hcalls]
    rcases TCPSession.writeDone_cases b ec w.session with ⟨_, hr⟩ | ⟨_, _, hr⟩ | ⟨_, _, _, hr⟩
    · rw [hr]
      cases w.session.isClosed <;> cases w.session.backpressure <;> rfl
    · rw [hr]
      exact hcount
    · rw [hr, List.count_append, hcount]
      simp
  | shutdown =>
    simp only [Writer.call, Option.some.injEq, Prod.mk.injEq] at hcall
    obtain ⟨rfl, rfl⟩ := hcall
    rw [Writer.performAll_session]
    cases hc : w.session.isClosed with
    | false =>
      rw [TCPSession.shutdown_open hc]
      cases w.session.backpressure <;> rfl
    | true =>
      rw [TCPSession.shutdown_closed hc]
      cases w.session.backpressure <;> rfl
  | setPeerApiVersion v =>
    simp only [Writer.call, Option.some.injEq, Prod.mk.injEq] at hcall
    obtain ⟨rfl, rfl⟩ := hcall
    cases w.session.backpressure <;> rfl

/-! ## The release -/

theorem totalOf_pos {q : List WriteData} (hne : q ≠ []) (hq : ∀ it ∈ q, it.Queued) :
    0 < totalOf q := by
  cases q with
  | nil => exact absurd rfl hne
  | cons it q =>
    have htotal := (hq it List.mem_cons_self).totalBytes
    have : 0 < TCPHeaderConv.size := by decide
    rw [totalOf_cons]
    omega

/-- What the completion of an outstanding write brings about in an open session. -/
theorem completion {w : Writer} (h : WriterInv w) (ho : w.session.isClosed = false)
    (hq : ∀ it ∈ w.session.writeQueue, it.Queued) {b : Batch} (hb : b ∈ w.outstanding) :
    ∃ w', w.step (.writeDone b false) = some w' ∧ w'.session.isClosed = false ∧
      w'.session.pendingBytes < w.session.pendingBytes := by
  obtain ⟨_, hcut⟩ := h.outstanding_eq hb
  obtain ⟨hle, hpend⟩ := h.accounting.popped_pending hcut
  have hpos : 0 < b.bytes := by
    rw [hcut.bytes]
    apply totalOf_pos
    · intro hnil
      have hlen := congrArg List.length hnil
      rw [List.length_take, Nat.min_eq_left hcut.le] at hlen
      exact absurd hlen (Nat.ne_of_gt hcut.pos)
    · exact fun it hit => hq it (List.mem_of_mem_take hit)
  have hless : (w.session.popped b).pendingBytes < w.session.pendingBytes := by
    rw [hpend]
    omega
  obtain ⟨w', hstep⟩ : ∃ w', w.step (.writeDone b false) = some w' := by
    simp only [Writer.step, Writer.call, if_pos hb, Option.map_some]
    exact ⟨_, rfl⟩
  refine ⟨w', hstep, ?_⟩
  obtain ⟨_, ⟨hec, _⟩ | ⟨_, _, rfl⟩ | ⟨_, _, _, rfl⟩⟩ := Writer.writeDone_step hstep
  · cases hec
  · exact ⟨ho, hless⟩
  · exact ⟨ho, hless⟩

/-- An event is the successful completion of a write. -/
def WriterAct.Completes (act : WriterAct) : Prop := ∃ b, act = .writeDone b false

/-- **Completions release the backpressure** of an open session. -/
theorem release : ∀ (n : Nat) {w : Writer}, w.session.pendingBytes = n →
    WriterInv w ∧ (∀ it ∈ w.session.writeQueue, it.Queued) → w.session.isClosed = false →
    ∃ acts w', (∀ act ∈ acts, act.Completes) ∧ Runs.exec Writer.step w acts = some w' ∧
      w'.session.isClosed = false ∧ w'.session.backpressure = false := by
  intro n
  induction n using Nat.strong_induction_on with
  | _ n ih =>
    rintro w rfl hinv ho
    cases hb : w.session.backpressure with
    | false => exact ⟨[], w, by simp, rfl, ho, hb⟩
    | true =>
      obtain ⟨b, hmem⟩ := List.exists_mem_of_ne_nil _ (outstanding_of_backpressure hinv.1 ho hb)
      obtain ⟨w', hstep, ho', hless⟩ := completion hinv.1 ho hinv.2 hmem
      obtain ⟨acts, u, hacts, hexec, hu⟩ :=
        ih _ hless rfl (queued_step w _ w' hinv hstep) ho'
      refine ⟨.writeDone b false :: acts, u, ?_, ?_, hu⟩
      · intro act hact
        rcases List.mem_cons.mp hact with rfl | hact
        · exact ⟨b, rfl⟩
        · exact hacts act hact
      · rw [Runs.exec_cons hstep]
        exact hexec

/-- **Backpressure.**  After every run that leaves the session open the flag is up above
    `HighWater` and down at or below `LowWater`; while it is up exactly one write is outstanding,
    whose completion lowers `m_pending_bytes`, and completions alone can lower the flag.  Whatever
    the run, its next event cancels `m_resume_read` once if it lowers the flag and never
    otherwise, and the flag is the hysteresis folded over the history of `m_pending_bytes`. -/
theorem backpressure_hysteresis {acts : List WriterAct} {w : Writer}
    (h : Runs.exec Writer.step .init acts = some w) :
    (w.session.isClosed = false →
      (w.session.pendingBytes > highWater → w.session.backpressure = true) ∧
      (w.session.backpressure = true → w.session.pendingBytes > lowWater) ∧
      (w.session.backpressure = true →
        (∃ b w', w.outstanding = [b] ∧ w.step (.writeDone b false) = some w' ∧
          w'.session.isClosed = false ∧
          w'.session.pendingBytes < w.session.pendingBytes) ∧
        ∃ acts' w', (∀ act ∈ acts', act.Completes) ∧
          Runs.exec Writer.step w acts' = some w' ∧
          w'.session.isClosed = false ∧ w'.session.backpressure = false)) ∧
    (∀ act w' calls, w.call act = some (w', calls) →
      calls.count .cancelResumeRead =
        if w.session.backpressure = true ∧ w'.session.backpressure = false then 1 else 0) ∧
    w.session.backpressure =
      ((Runs.trace Writer.step .init acts).map (·.session.pendingBytes)).foldl
        nextBackpressure false := by
  have hinv := writerInv_run h
  have hqueued := queued_run h
  refine ⟨fun ho => ⟨hinv.accounting.high ho, hinv.accounting.low ho, fun hb => ⟨?_, ?_⟩⟩, ?_,
    hysteresis_run h⟩
  · obtain ⟨b, hmem⟩ := List.exists_mem_of_ne_nil _ (outstanding_of_backpressure hinv ho hb)
    obtain ⟨w', hstep, hdone⟩ := completion hinv ho hqueued hmem
    exact ⟨b, w', (hinv.outstanding_eq hmem).1, hstep, hdone⟩
  · exact release _ rfl ⟨hinv, hqueued⟩ ho
  · intro act w' calls hcall
    rw [cancel_step hinv hcall]
    cases w.session.backpressure <;> cases w'.session.backpressure <;> rfl

/-- A frame with the longest body. -/
def longestArgs : SendArgs :=
  ⟨.receiving, some (List.replicate TCPSessionLimit.maxBodySize 0), ApiVersion.latest⟩

theorem longest_run : ∃ w, Runs.exec Writer.step .init [.sendFrame longestArgs false] = some w ∧
    w.session.isClosed = false ∧ w.session.backpressure = true := by
  have hbody : longestArgs.bodySize = TCPSessionLimit.maxBodySize := by
    simp [SendArgs.bodySize, longestArgs]
  have htotal : (WriteData.ofArgs longestArgs).totalBytes =
      TCPHeaderConv.size + TCPSessionLimit.maxBodySize := by
    simp only [WriteData.ofArgs, hbody]
    decide
  obtain ⟨w, calls, hcall⟩ : ∃ w calls, Writer.call .init (.sendFrame longestArgs false) =
      some (w, calls) := ⟨_, _, rfl⟩
  have hstep : Writer.step .init (.sendFrame longestArgs false) = some w := by
    rw [Writer.step, hcall, Option.map_some]
  refine ⟨w, Runs.exec_single hstep, ?_⟩
  have hzero : Writer.init.session.pendingBytes = 0 := rfl
  rw [(Writer.call_sendFrame hcall).1]
  rcases TCPSession.sendFrame_cases longestArgs false writerInv_init.accounting.bounded with
    ⟨hc, _⟩ | ⟨_, hbig, _⟩ | ⟨_, _, _, hcap, _⟩ | ⟨_, _, _, ⟨hwr, _⟩ | ⟨_, hr, _⟩ | ⟨_, _, hr⟩⟩
  · cases hc
  · rw [hbody, htotal, hzero] at hbig
    exact absurd hbig (by decide)
  · rw [htotal, hzero] at hcap
    exact absurd hcap (by decide)
  · cases hwr
  · cases hr
  · rw [hr]
    refine ⟨rfl, ?_⟩
    simp only [TCPSession.pushed, htotal, hzero]
    decide

/-- The rule at a frame that jumps over both thresholds. -/
theorem backpressure_hysteresis_longest :
    ∃ w, Runs.exec Writer.step .init [.sendFrame longestArgs false] = some w ∧
      w.session.backpressure = true ∧ ∃ b, w.outstanding = [b] := by
  obtain ⟨w, hw, ho, hb⟩ := longest_run
  obtain ⟨b, _, hout, _⟩ := (((backpressure_hysteresis hw).1 ho).2.2 hb).1
  exact ⟨w, hw, hb, b, hout⟩

end Zem
