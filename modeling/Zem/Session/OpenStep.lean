import Zem.Session.Backpressure
import Zem.Session.Dialogue

/-!
# Steps of an open session

What a step does to the queue, to the position of `ReadLoop` and to `m_pending_bytes`, as long as
it does not close the session.

* `foldl_performConn_open`, `foldl_performHb_open` — the coroutines post what they send, and nothing
  else.
* `Unwritten` — the write path is as it was, but for the peer's version.
* `OpenStep`, `openStep_of_step` — the steps that leave the session open.
-/

set_option autoImplicit false

namespace Zem

/-- The frames that calls of a handler send, as arguments of `SendFrame`. -/
def sentArgs (calls : List ConnCall) : List SendArgs :=
  calls.filterMap fun c =>
    match c with
    | .send a => some a
    | .close => none

/-- The index of the task that the step runs. -/
def StrandAct.taskIndex? : StrandAct → Option Nat
  | .run i _ _ => some i
  | .readDone _ | .writeDone _ _ | .hbExpires | .answer | .send _ | .closeFlag | .closePost => none

theorem totalBytes_empty {a : SendArgs} (h : a.body = none) :
    (WriteData.ofArgs a).totalBytes = TCPHeaderConv.size := by
  simp [WriteData.ofArgs, SendArgs.bodySize, h]

/-! ## What the events of the write path do -/

theorem Writer.sendFrame_open {w w' : Writer} {a : SendArgs} {raced : Bool}
    (hs : w.session.pendingBytes ≤ sizeMax) (h : w.step (.sendFrame a raced) = some w')
    (hopen : w'.session.isClosed = false) :
    w'.session.pendingBytes = w.session.pendingBytes + (WriteData.ofArgs a).totalBytes ∧
      w'.accepted = w.accepted ++ [a.frame] := by
  rcases sendFrame_step hs h with
    ⟨hc, rfl⟩ | ⟨_, p, _, _, _, rfl⟩ | ⟨_, _, _, ⟨_, rfl⟩ | ⟨_, _, rfl⟩⟩
  · rw [hopen] at hc
    cases hc
  · cases hopen
  · exact ⟨rfl, rfl⟩
  · exact ⟨rfl, rfl⟩

theorem Writer.writeDone_open {w w' : Writer} {b : Batch} {ec : Bool} (hinv : WriterInv w)
    (h : w.step (.writeDone b ec) = some w') (hopen : w'.session.isClosed = false) :
    w'.session.pendingBytes ≤ w.session.pendingBytes ∧
      (w'.session.backpressure = true → w.session.backpressure = true) := by
  obtain ⟨hb, hdone⟩ := writeDone_step h
  have hpop : (w.session.popped b).pendingBytes ≤ w.session.pendingBytes ∧
      ((w.session.popped b).backpressure = true → w.session.backpressure = true) := by
    refine ⟨?_, fun hflag => ?_⟩
    · rw [(hinv.accounting.popped_pending (hinv.outstanding_eq hb).2).2]
      exact Nat.sub_le _ _
    · exact (Bool.and_eq_true_iff.mp hflag).1
  rcases hdone with ⟨_, rfl⟩ | ⟨_, _, rfl⟩ | ⟨_, _, _, rfl⟩
  · cases hopen
  · exact hpop
  · exact hpop

namespace Strand

variable {Q A : Type}

/-! ## What the coroutines post -/

def postAll (s : Strand Q A) (args : List SendArgs) : Strand Q A :=
  { s with queue := s.queue ++ args.map .sendFrame }

theorem postAll_nil (s : Strand Q A) : s.postAll [] = s := by
  simp [postAll]

theorem postAll_post (s : Strand Q A) (a : SendArgs) (args : List SendArgs) :
    (s.post (.sendFrame a)).postAll args = s.postAll (a :: args) := by
  simp [postAll, post]

/-- Calls that only ever close a session leave it as it was if it is open at the end. -/
theorem open_of_foldl {C : Type} {f : Strand Q A → C → Strand Q A}
    (hf : ∀ s c, s.isClosed = true → (f s c).isClosed = true) :
    ∀ (calls : List C) {s : Strand Q A}, (calls.foldl f s).isClosed = false → s.isClosed = false
  | [], _, h => h
  | c :: calls, s, h => by
    have ho := open_of_foldl hf calls h
    cases hc : s.isClosed with
    | false => rfl
    | true =>
      rw [hf s c hc] at ho
      cases ho

theorem performConn_closed (s : Strand Q A) (c : ConnCall) (h : s.isClosed = true) :
    (s.performConn c).isClosed = true := by
  cases c with
  | send a => exact h
  | close => exact isClosed_shutdown s

theorem performHb_closed (s : Strand Q A) (c : HbCall) (h : s.isClosed = true) :
    (s.performHb c).isClosed = true := by
  cases c with
  | sendPing => exact h
  | shutdown => exact isClosed_shutdown s

/-- A handler that has not closed the connection has posted what it sends. -/
theorem foldl_performConn_open : ∀ (calls : List ConnCall) {s : Strand Q A},
    (calls.foldl performConn s).isClosed = false →
      calls.foldl performConn s = s.postAll (sentArgs calls)
  | [], s, _ => (postAll_nil s).symm
  | .send a :: calls, s, h => by
    rw [List.foldl_cons] at h ⊢
    rw [foldl_performConn_open calls h]
    exact postAll_post s a _
  | .close :: calls, s, h => by
    have ho := open_of_foldl performConn_closed calls h
    rw [performConn, isClosed_shutdown] at ho
    cases ho

/-- `Heartbeat` posts pings, unless it closes the session. -/
theorem foldl_performHb_open : ∀ (calls : List HbCall) {s : Strand Q A},
    (calls.foldl performHb s).isClosed = false →
      ∃ pings, calls.foldl performHb s = s.postAll pings ∧
        ∀ a ∈ pings, (WriteData.ofArgs a).totalBytes = TCPHeaderConv.size
  | [], s, _ => ⟨[], (postAll_nil s).symm, by simp⟩
  | .sendPing :: calls, s, h => by
    rw [List.foldl_cons] at h ⊢
    obtain ⟨pings, hs, hsize⟩ := foldl_performHb_open calls h
    refine ⟨_ :: pings, hs.trans (postAll_post s _ _), fun a ha => ?_⟩
    rcases List.mem_cons.mp ha with rfl | ha
    · exact totalBytes_empty rfl
    · exact hsize a ha
  | .shutdown :: calls, s, h => by
    have ho := open_of_foldl performHb_closed calls h
    rw [performHb, isClosed_shutdown] at ho
    cases ho

/-! ## What the write path calls -/

theorem cancelResumeRead_waiting {s : Strand Q A} (h : s.readPos = .resumeWait) :
    s.cancelResumeRead = (s.goto (.scheduled .woken)).post .readLoop := by
  simp only [cancelResumeRead, h]

theorem cancelResumeRead_elsewhere {s : Strand Q A} (h : s.readPos ≠ .resumeWait) :
    s.cancelResumeRead = s := by
  unfold cancelResumeRead
  split
  · rename_i hp
    exact absurd hp h
  · rfl

/-- Without a cleanup the calls of the write path leave the strand as it is, or turn the wait of
    `ReadLoop` into a resumption. -/
theorem foldl_perform_open {calls : List AsioCall} (hclean : AsioCall.postCleanup ∉ calls) :
    ∀ s : Strand Q A, calls.foldl perform s = s ∨
      (AsioCall.cancelResumeRead ∈ calls ∧ s.readPos = .resumeWait ∧
        calls.foldl perform s = (s.goto (.scheduled .woken)).post .readLoop) := by
  induction calls with
  | nil => exact fun s => Or.inl rfl
  | cons c calls ih =>
    intro s
    have ih := ih fun hin => hclean (List.mem_cons_of_mem _ hin)
    rw [List.foldl_cons]
    cases c with
    | asyncWrite b => exact (ih s).imp_right fun ⟨hin, h⟩ => ⟨List.mem_cons_of_mem _ hin, h⟩
    | cancelResumeRead =>
      by_cases hp : s.readPos = .resumeWait
      · -- a second cancel would find no wait
        have hrest : calls.foldl perform ((s.goto (.scheduled .woken)).post .readLoop) =
            (s.goto (.scheduled .woken)).post .readLoop := by
          rcases ih ((s.goto (.scheduled .woken)).post .readLoop) with
            h | ⟨_, hp', _⟩
          · exact h
          · cases hp'
        rw [perform, cancelResumeRead_waiting hp, hrest]
        exact Or.inr ⟨List.mem_cons_self, hp, rfl⟩
      · rw [perform, cancelResumeRead_elsewhere hp]
        exact (ih s).imp_right fun ⟨hin, h⟩ => ⟨List.mem_cons_of_mem _ hin, h⟩
    | postCleanup => exact absurd List.mem_cons_self hclean

/-! ## How ReadLoop goes on -/

abbrev pendingBytes (s : Strand Q A) : Nat := s.writer.session.pendingBytes

/-- The write path is as it was, but for the peer's version. -/
structure Unwritten (s t : Strand Q A) : Prop where
  pending : t.pendingBytes = s.pendingBytes
  backpressure : t.backpressure = s.backpressure

/-- With a resumption, and without closing the session, `ReadLoop` posts the frames of a list and
    goes to a wait, or to the top of its loop. -/
inductive GoesOn (handlers : Handlers Q A) (session : TCPSession) :
    Resumption Q A → List SendArgs → Option (ReadPos Q A) → Prop where
  | start : GoesOn handlers session .start [] none
  | woken (live : Bool) : GoesOn handlers session .woken [] (some (.headerRead live))
  | ping {bytes : Bytes} {a : SendArgs}
      (header : (session.onHeader (TCPHeaderConv.ofBytes bytes)).2 = .ping) (pong : a.body = none) :
      GoesOn handlers session (.header (some bytes)) [a] none
  | pong {bytes : Bytes} (header : (session.onHeader (TCPHeaderConv.ofBytes bytes)).2 = .pong) :
      GoesOn handlers session (.header (some bytes)) [] none
  | readBody {bytes : Bytes} {t : TCPServiceType} {v : UInt16} {n : Nat}
      (header : (session.onHeader (TCPHeaderConv.ofBytes bytes)).2 = .readBody t v n)
      (live : Bool) :
      GoesOn handlers session (.header (some bytes)) [] (some (.bodyRead t v n live))
  | returned {r : Resumption Q A} {c : Coroutine Q A ConnCall Unit}
      (handler : resumedHandler handlers r = some c) (stop : c.segment.2 = .returned ()) :
      GoesOn handlers session r (sentArgs c.segment.1) none
  | asked {r : Resumption Q A} {c : Coroutine Q A ConnCall Unit} {q : Q}
      {k : A → Coroutine Q A ConnCall Unit} (handler : resumedHandler handlers r = some c)
      (stop : c.segment.2 = .suspended q k) :
      GoesOn handlers session r (sentArgs c.segment.1) (some (.handlerWait q k))

/-- From `s` to `t` by posting `args` and going to `p`, or to the top of the loop. -/
structure WentOn (s t : Strand Q A) (args : List SendArgs) (p : Option (ReadPos Q A)) : Prop where
  queue : t.queue = s.queue ++ args.map .sendFrame
  pos : t.readPos =
    p.getD (if s.backpressure then .resumeWait else .headerRead (!s.cleanedUp))
  same : Unwritten s t

theorem wentOn_top (s : Strand Q A) (args : List SendArgs) :
    WentOn s (s.postAll args).readLoopTop args none :=
  ⟨rfl, rfl, rfl, rfl⟩

theorem wentOn_goto (s : Strand Q A) (args : List SendArgs) (p : ReadPos Q A) :
    WentOn s ((s.postAll args).goto p) args (some p) :=
  ⟨rfl, rfl, rfl, rfl⟩

theorem goesOn_runHandler {handlers : Handlers Q A} {s : Strand Q A} {r : Resumption Q A}
    {c : Coroutine Q A ConnCall Unit} (hc : resumedHandler handlers r = some c)
    (hopen : (s.runHandler c).isClosed = false) :
    ∃ args p, GoesOn handlers s.writer.session r args p ∧ WentOn s (s.runHandler c) args p := by
  have hpost := foldl_performConn_open c.segment.1 (s := s)
  unfold runHandler at hopen ⊢
  simp only at hopen ⊢
  split at hopen
  · rename_i hend
    rw [hpost hopen]
    exact ⟨_, _, .returned hc hend, wentOn_top s _⟩
  · rw [stop, isClosed, goto, ← isClosed, isClosed_shutdown] at hopen
    cases hopen
  · rename_i hend
    rw [hpost hopen]
    exact ⟨_, _, .asked hc hend, wentOn_goto s _ _⟩

/-- **`ReadLoop` between two waits**, if it does not close the session. -/
theorem resumeReadLoop_open {handlers : Handlers Q A} {s : Strand Q A} {r : Resumption Q A}
    (hopen : (s.resumeReadLoop handlers r).isClosed = false) :
    ∃ args p, GoesOn handlers s.writer.session r args p ∧
      WentOn s (s.resumeReadLoop handlers r) args p := by
  have hstop : ∀ u : Strand Q A, u.stop.isClosed ≠ false := by
    intro u hu
    have := isClosed_shutdown u
    rw [stop, isClosed, goto] at hu
    rw [isClosed, hu] at this
    cases this
  cases r with
  | start => exact ⟨_, _, .start, ⟨(List.append_nil _).symm, rfl, rfl, rfl⟩⟩
  | woken => exact ⟨_, _, .woken _, ⟨(List.append_nil _).symm, rfl, rfl, rfl⟩⟩
  | header bytes =>
    cases bytes with
    | none => exact absurd hopen (hstop _)
    | some bytes =>
      have hset : Unwritten s (s.setSession
          (s.writer.session.onHeader (TCPHeaderConv.ofBytes bytes)).1) := by
        rw [TCPSession.onHeader_members]
        exact ⟨rfl, rfl⟩
      have htop : ∀ {u : Strand Q A}, u.backpressure = s.backpressure →
          u.cleanedUp = s.cleanedUp → u.readLoopTop.readPos =
            if s.backpressure then .resumeWait else .headerRead (!s.cleanedUp) := by
        intro u hb hc
        rw [readLoopTop, hb, hc, goto]
      simp only [resumeReadLoop] at hopen ⊢
      split at hopen
      · exact absurd hopen (hstop _)
      · rename_i hact
        exact ⟨_, _, .ping hact rfl, ⟨rfl, htop hset.backpressure rfl, hset.pending,
          hset.backpressure⟩⟩
      · rename_i hact
        exact ⟨_, _, .pong hact, ⟨(List.append_nil _).symm, htop hset.backpressure rfl,
          hset.pending, hset.backpressure⟩⟩
      · rename_i hact
        exact ⟨_, _, .readBody hact _, ⟨(List.append_nil _).symm, rfl, hset.pending,
          hset.backpressure⟩⟩
  | body t v bytes =>
    cases bytes with
    | none => exact absurd hopen (hstop _)
    | some bytes => exact goesOn_runHandler rfl hopen
  | answered rest => exact goesOn_runHandler rfl hopen

/-! ## Steps -/

/-- A read of `ReadLoop` completes, or its handler gets an answer. -/
inductive Completes : ReadPos Q A → Resumption Q A → Prop where
  | header (live : Bool) (bytes : Option Bytes) : Completes (.headerRead live) (.header bytes)
  | body (t : TCPServiceType) (v : UInt16) (n : Nat) (live : Bool) (bytes : Option Bytes) :
    Completes (.bodyRead t v n live) (.body t v bytes)
  | answer (q : Q) (k : A → Coroutine Q A ConnCall Unit) (a : A) :
    Completes (.handlerWait q k) (.answered (k a))

/-- The steps that leave a session open. -/
inductive OpenStep (handlers : Handlers Q A) (s : Strand Q A) :
    StrandAct → Strand Q A → Prop where
  | pushed {i : Nat} {raced : Bool} {idle : Nat} {a : SendArgs} {t : Strand Q A}
      (task : s.queue[i]? = some (.sendFrame a)) (queue : t.queue = s.queue.eraseIdx i)
      (pos : t.readPos = s.readPos)
      (pending : t.pendingBytes = s.pendingBytes + (WriteData.ofArgs a).totalBytes)
      (flag : s.backpressure = true → t.backpressure = true)
      (accepted : t.writer.accepted = s.writer.accepted ++ [a.frame]) :
      OpenStep handlers s (.run i raced idle) t
  | written {i : Nat} {raced : Bool} {idle : Nat} {b : Batch} {ec : Bool} {t : Strand Q A}
      {woken : List Task} (task : s.queue[i]? = some (.writeDone b ec))
      (queue : t.queue = s.queue.eraseIdx i ++ woken) (wakes : ∀ task ∈ woken, task = .readLoop)
      (pending : t.pendingBytes ≤ s.pendingBytes)
      (flag : t.backpressure = true → s.backpressure = true ∧ t.readPos = s.readPos)
      (pos : t.readPos = s.readPos ∨ t.readPos = .scheduled .woken) :
      OpenStep handlers s (.run i raced idle) t
  | readLoop {i : Nat} {raced : Bool} {idle : Nat} {r : Resumption Q A}
      (task : s.queue[i]? = some .readLoop) (pos : s.readPos = .scheduled r) :
      OpenStep handlers s (.run i raced idle) ((s.take i).resumeReadLoop handlers r)
  | heartbeat {i : Nat} {raced : Bool} {idle : Nat} {t : Strand Q A} {pings : List SendArgs}
      (task : s.queue[i]? = some .heartbeat)
      (queue : t.queue = s.queue.eraseIdx i ++ pings.map .sendFrame)
      (size : ∀ a ∈ pings, (WriteData.ofArgs a).totalBytes = TCPHeaderConv.size)
      (pos : t.readPos = s.readPos) (same : Unwritten s t) :
      OpenStep handlers s (.run i raced idle) t
  | completed {act : StrandAct} {r : Resumption Q A} {t : Strand Q A}
      (event : act.taskIndex? = none) (completes : Completes s.readPos r)
      (queue : t.queue = s.queue ++ [.readLoop]) (pos : t.readPos = .scheduled r)
      (same : Unwritten s t) : OpenStep handlers s act t
  | posted {act : StrandAct} {task : Task} {t : Strand Q A} (event : act.taskIndex? = none)
      (sends : ∀ a, task = .sendFrame a → act = .send a)
      (queue : t.queue = s.queue ++ [task]) (pos : t.readPos = s.readPos)
      (same : Unwritten s t) : OpenStep handlers s act t

/-- `SendFrame` that leaves the session open has pushed its item, and may have started a write. -/
theorem callWriter_sendFrame_open {s t : Strand Q A} {a : SendArgs} {raced : Bool}
    (hs : s.pendingBytes ≤ sizeMax) (h : s.callWriter (.sendFrame a raced) = some t)
    (hopen : t.isClosed = false) :
    t = { s with writer := t.writer } ∧
      t.pendingBytes = s.pendingBytes + (WriteData.ofArgs a).totalBytes ∧
      (s.backpressure = true → t.backpressure = true) ∧
      t.writer.accepted = s.writer.accepted ++ [a.frame] := by
  have hpush := Writer.sendFrame_open hs (callWriter_writer h) hopen
  obtain ⟨w, calls, hcall, rfl⟩ := callWriter_some h
  obtain ⟨hsess, rfl⟩ := Writer.call_sendFrame hcall
  obtain ⟨hpost, hflag, hcancel⟩ := TCPSession.sendFrame_calls a raced hs
  rw [← hsess] at hpost hflag
  rw [isClosed, (foldl_perform_spec _ _).1] at hopen
  have hclean : AsioCall.postCleanup ∉ (s.writer.session.sendFrame a raced).2 := by
    rw [← List.count_eq_zero]
    rw [hopen, Bool.toNat_false] at hpost
    omega
  rcases foldl_perform_open hclean { s with writer := w } with hsame | ⟨hin, _⟩
  · rw [hsame] at hpush ⊢
    exact ⟨rfl, hpush.1, hflag, hpush.2⟩
  · exact absurd hin hcancel

/-- The completion handler that leaves the session open has taken its batch off the queue; if it
    leaves the backpressure, it wakes nobody. -/
theorem callWriter_writeDone_open {s t : Strand Q A} {b : Batch} {ec : Bool}
    (hinv : WriterInv s.writer) (h : s.callWriter (.writeDone b ec) = some t)
    (hopen : t.isClosed = false) :
    t.pendingBytes ≤ s.pendingBytes ∧
      (t.backpressure = true → s.backpressure = true ∧ t.readPos = s.readPos) ∧
      ((t.queue = s.queue ∧ t.readPos = s.readPos) ∨
        (t.queue = s.queue ++ [.readLoop] ∧ t.readPos = .scheduled .woken)) := by
  obtain ⟨hpend, hflag⟩ := Writer.writeDone_open hinv (callWriter_writer h) hopen
  obtain ⟨w, calls, hcall, rfl⟩ := callWriter_some h
  have hcancel := cancel_step hinv hcall
  have hw := (foldl_perform_spec calls { s with writer := w }).1
  obtain ⟨hsess, rfl⟩ := Writer.call_writeDone hcall
  obtain ⟨hpost, _⟩ := TCPSession.writeDone_calls b ec s.writer.session
  rw [← hsess] at hpost
  rw [isClosed, hw] at hopen
  have hclean : AsioCall.postCleanup ∉ (s.writer.session.writeDone b ec).2 := by
    rw [← List.count_eq_zero]
    rw [hopen, Bool.toNat_false] at hpost
    omega
  refine ⟨hpend, fun hb => ⟨hflag hb, ?_⟩, ?_⟩
  · rcases foldl_perform_open hclean { s with writer := w } with hsame | ⟨hin, _⟩
    · rw [hsame]
    · -- a cancel would say that the flag went down
      rw [backpressure, hw] at hb
      rw [hb, Bool.not_true, Bool.and_false, Bool.toNat_false, List.count_eq_zero] at hcancel
      exact absurd hin hcancel
  · rcases foldl_perform_open hclean { s with writer := w } with hsame | ⟨_, _, hwoken⟩
    · rw [hsame]
      exact Or.inl ⟨rfl, rfl⟩
    · rw [hwoken]
      exact Or.inr ⟨rfl, rfl⟩

/-- A task that pushes its item. -/
theorem openStep_sendFrame {handlers : Handlers Q A} {s t : Strand Q A} {a : SendArgs} {i : Nat}
    {raced : Bool} {idle : Nat} (hinv : SessionInv s) (hopen : t.isClosed = false)
    (htask : s.queue[i]? = some (.sendFrame a))
    (h : (s.take i).runTask handlers raced idle (.sendFrame a) = some t) :
    OpenStep handlers s (.run i raced idle) t := by
  simp only [runTask] at h
  obtain ⟨u, hu, rfl⟩ := Option.map_eq_some_iff.mp h
  obtain ⟨hsame, hpend, hflag, hacc⟩ :=
    callWriter_sendFrame_open (s := s.take i) hinv.writer.accounting.bounded hu hopen
  have hq := congrArg Strand.queue hsame
  have hp := congrArg Strand.readPos hsame
  exact .pushed htask hq hp hpend hflag hacc

theorem openStep_written {handlers : Handlers Q A} {s t : Strand Q A} {b : Batch} {ec : Bool}
    {i : Nat} {raced : Bool} {idle : Nat} (hinv : SessionInv s) (hopen : t.isClosed = false)
    (htask : s.queue[i]? = some (.writeDone b ec))
    (h : (s.take i).callWriter (.writeDone b ec) = some t) :
    OpenStep handlers s (.run i raced idle) t := by
  obtain ⟨hpend, hflag, ⟨hq, hp⟩ | ⟨hq, hp⟩⟩ :=
    callWriter_writeDone_open (s := s.take i) hinv.writer h hopen
  · exact .written htask (hq.trans (List.append_nil _).symm) (by simp) hpend hflag (Or.inl hp)
  · exact .written htask hq (by simp) hpend hflag (Or.inr hp)

theorem openStep_heartbeat {handlers : Handlers Q A} {s : Strand Q A} {i : Nat} {raced : Bool}
    {idle idle' : Nat} {r : HbResumption} (htask : s.queue[i]? = some .heartbeat)
    (hopen : ((s.take i).resumeHeartbeat idle' r).isClosed = false) :
    OpenStep handlers s (.run i raced idle) ((s.take i).resumeHeartbeat idle' r) := by
  obtain ⟨pings, hs, hsize⟩ := foldl_performHb_open _ (s := s.take i) hopen
  have hq := congrArg Strand.queue hs
  have hp := congrArg Strand.readPos hs
  have hw := congrArg Strand.writer hs
  refine .heartbeat htask hq hsize hp ⟨?_, ?_⟩
  · exact congrArg (fun w : Writer => w.session.pendingBytes) hw
  · exact congrArg (fun w : Writer => w.session.backpressure) hw

theorem openStep_readDone {handlers : Handlers Q A} {s t : Strand Q A} {act : StrandAct} {n : Nat}
    {live ok : Bool} {r : Option Bytes → Resumption Q A} (hact : act.taskIndex? = none)
    (hr : ∀ bytes, Completes s.readPos (r bytes)) (h : s.readDone n live ok r = some t) :
    OpenStep handlers s act t := by
  rcases readDone_cases h with ⟨got, rest, _, _, rfl⟩ | rfl
  · exact .completed hact (hr _) rfl rfl ⟨rfl, rfl⟩
  · exact .completed hact (hr _) rfl rfl ⟨rfl, rfl⟩

/-- **A step that leaves the session open.**  It found the session open, so it is no part of a
    `Shutdown`. -/
theorem openStep_of_step {handlers : Handlers Q A} {repo : Nat → Q → A} {s t : Strand Q A}
    {act : StrandAct} (hinv : SessionInv s) (h : s.step handlers repo act = some t)
    (hopen : t.isClosed = false) : OpenStep handlers s act t := by
  have ho := open_of_reaches hinv.writer (writer_step handlers repo s act t hinv h) hopen
  have hclean : s.cleanups = 0 := by
    rw [hinv.cleanup, isClosed, ho, Bool.toNat_false]
  rw [cleanups] at hclean
  cases fires_of_step h with
  | sendFrame htask hrun => exact openStep_sendFrame hinv hopen htask hrun
  | written htask hrun => exact openStep_written hinv hopen htask hrun
  | cleanup htask =>
    have := List.count_pos_iff.mpr (List.mem_of_getElem? htask)
    omega
  | readLoop htask hp => exact .readLoop htask hp
  | heartbeat htask _ => exact openStep_heartbeat htask hopen
  | headerDone hp hread =>
    exact openStep_readDone rfl (fun bytes => by rw [hp]; exact .header _ bytes) hread
  | bodyDone hp hread =>
    exact openStep_readDone rfl (fun bytes => by rw [hp]; exact .body _ _ _ _ bytes) hread
  | writeDone => exact .posted rfl (fun _ he => by cases he) rfl rfl ⟨rfl, rfl⟩
  | hbExpires => exact .posted rfl (fun _ he => by cases he) rfl rfl ⟨rfl, rfl⟩
  | answer hp => exact .completed rfl (by rw [hp]; exact .answer _ _ _) rfl rfl ⟨rfl, rfl⟩
  | send => exact .posted rfl (fun a he => by cases he; rfl) rfl rfl ⟨rfl, rfl⟩
  | closeFlag => cases hopen
  | closePost howed =>
    rw [howed, Bool.toNat_true] at hclean
    omega

end Strand

end Zem
