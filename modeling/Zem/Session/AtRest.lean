import Zem.Session.Settle

/-!
# A session at rest

What a session looks like when nothing is bound to happen to it any more: nobody else sends, closes
or reads the clock, and every read and write that can complete has.

* `Due` — the steps that are bound to come.
* `AtRest` — the session listens, or has ended, or its `ReadLoop` waits for a wake-up that nobody
  owes it.
* `idle_iff_atRest` — a reachable session has no due step exactly in one of these states: it is
  never blocked half-way.
* `closed_session_winds_down` — a closed session does not go on for ever, and then has ended, or is
  stranded, which takes backpressure.
-/

set_option autoImplicit false

namespace Zem

namespace Strand

variable {Q A : Type} {handlers : Handlers Q A} {repo : Nat → Q → A}

/-- The steps that are bound to come.  A read fails once its socket is closed. -/
def Due (s : Strand Q A) : StrandAct → Prop
  | .run _ _ _ | .writeDone _ _ | .answer | .closePost => True
  | .readDone ok => ok = true ∨ s.cleanedUp = true
  | .hbExpires => s.isClosed = true
  | .send _ | .closeFlag => False

theorem bounded_of_due (s : Strand Q A) (act : StrandAct) (h : Due s act) : Bounded s act := by
  cases act with
  | hbExpires => exact h
  | send => exact h
  | run | readDone | writeDone | answer | closeFlag | closePost => trivial

/-! ## States at rest -/

/-- No task is left, no write, and no `Shutdown` half done. -/
structure Quiet (s : Strand Q A) : Prop where
  queue : s.queue = []
  outstanding : s.writer.outstanding = []
  owed : s.owed = false

/-- The read in progress needs more bytes than there are. -/
def ReadPos.Lacks (input : Bytes) : ReadPos Q A → Prop
  | .headerRead live => live = true ∧ input.length < TCPHeaderConv.size
  | .bodyRead _ _ n live => live = true ∧ input.length < n
  | .scheduled _ | .resumeWait | .handlerWait _ _ | .finished => False

/-- The session waits for the client. -/
structure Listening (s : Strand Q A) : Prop where
  opened : s.isClosed = false
  quiet : Quiet s
  reads : ReadPos.Lacks s.input s.readPos
  beats : ∃ w, s.hbPos = .waiting w

/-- Nothing is left of the session but its members. -/
structure Ended (s : Strand Q A) : Prop where
  cleanedUp : s.cleanedUp = true
  quiet : Quiet s
  readLoop : s.readPos = .finished
  heartbeat : s.hbPos = .finished

/-- Nothing is left but the wait on `m_resume_read`. -/
structure LeftWaiting (s : Strand Q A) : Prop where
  cleanedUp : s.cleanedUp = true
  quiet : Quiet s
  readLoop : s.readPos = .resumeWait
  heartbeat : s.hbPos = .finished
  flag : s.backpressure = true

inductive AtRest (s : Strand Q A) : Prop where
  | listening (h : Listening s)
  | ended (h : Ended s)
  | leftWaiting (h : LeftWaiting s)

/-! ## No due step -/

theorem idle_step {s t : Strand Q A} (act : StrandAct)
    (h : Runs.Idle (step handlers repo) Due s) (hdue : Due s act) :
    s.step handlers repo act ≠ some t :=
  fun hst => h t ⟨act, hdue, hst⟩

theorem quiet_of_idle {s : Strand Q A} (hinv : LiveInv s)
    (h : Runs.Idle (step handlers repo) Due s) : Quiet s := by
  have hq : s.queue = [] := by
    cases hq : s.queue with
    | nil => rfl
    | cons task rest =>
      obtain ⟨t, ht⟩ := task_enabled handlers repo (i := 0) hinv
        (by rw [hq]; rfl)
      exact absurd ht (idle_step _ h trivial)
  refine ⟨hq, ?_, ?_⟩
  · rw [List.eq_nil_iff_forall_not_mem]
    intro b hb
    refine idle_step (.writeDone b false) (t := s.post (.writeDone b false)) h trivial ?_
    rw [step, if_pos ⟨hb, by rw [hq]; rfl⟩]
  · cases ho : s.owed with
    | false => rfl
    | true =>
      refine absurd ?_ (idle_step .closePost
        (t := { s with owed := false }.post .cleanup) h trivial)
      rw [step, if_pos ho]

/-- With nothing left to run, the cleanup has run exactly if the session is closed. -/
theorem Quiet.cleanedUp {s : Strand Q A} (h : Quiet s) (hinv : SessionInv s) :
    s.cleanedUp = s.isClosed := by
  have hclean := hinv.cleanup
  rw [cleanups, h.queue, h.owed] at hclean
  cases hu : s.cleanedUp <;> cases hc : s.isClosed <;> simp [hu, hc] at hclean ⊢

/-- A read that lacks nothing completes, and one on a closed socket fails. -/
theorem lacks_of_idle {s : Strand Q A} {n : Nat} {live : Bool}
    {r : Option Bytes → Resumption Q A} (h : Runs.Idle (step handlers repo) Due s)
    (hstep : ∀ ok, s.step handlers repo (.readDone ok) = s.readDone n live ok r)
    (hdead : live = false → s.cleanedUp = true) :
    s.cleanedUp = false ∧ live = true ∧ s.input.length < n := by
  have hopen : s.cleanedUp = false := by
    cases hc : s.cleanedUp with
    | false => rfl
    | true => exact absurd (hstep false) (idle_step _ h (Or.inr hc))
  have hlive : live = true := by
    cases hl : live with
    | true => rfl
    | false =>
      rw [hdead hl] at hopen
      cases hopen
  refine ⟨hopen, hlive, Nat.lt_of_not_le fun hle => ?_⟩
  have hread := hstep true
  rw [readDone, if_pos rfl, hlive, asyncRead, if_pos ⟨rfl, hle⟩] at hread
  exact idle_step (.readDone true) h (Or.inl rfl) hread

theorem heartbeat_of_idle {s : Strand Q A} (hinv : LiveInv s) (hq : Quiet s)
    (h : Runs.Idle (step handlers repo) Due s) :
    (s.isClosed = false ∧ ∃ w, s.hbPos = .waiting w) ∨
      (s.isClosed = true ∧ s.hbPos = .finished) := by
  cases hp : s.hbPos with
  | scheduled r =>
    -- its resumption would be in the queue
    have htokens := hinv.beats.tokens
    rw [hq.queue, hp] at htokens
    cases htokens
  | waiting w =>
    cases hc : s.isClosed with
    | false => exact Or.inl ⟨rfl, w, rfl⟩
    | true =>
      refine absurd ?_ (idle_step .hbExpires
        (t := { s with hbPos := .scheduled (.woken w false) }.post .heartbeat) h hc)
      rw [step, hp]
  | finished =>
    cases hc : s.isClosed with
    | false => exact absurd hp (hinv.beats.beating hc)
    | true => exact Or.inr ⟨rfl, rfl⟩

theorem atRest_of_idle {s : Strand Q A} (hinv : LiveInv s)
    (h : Runs.Idle (step handlers repo) Due s) : AtRest s := by
  have hq := quiet_of_idle hinv h
  have hclean := hq.cleanedUp hinv.session
  have hbeats := heartbeat_of_idle hinv hq h
  -- a read in progress leaves a listening session
  have hlisten : ∀ {n live} {r : Option Bytes → Resumption Q A},
      (∀ ok, s.step handlers repo (.readDone ok) = s.readDone n live ok r) →
      (live = false → s.readPos.Dead) →
      (live = true → s.input.length < n → ReadPos.Lacks s.input s.readPos) → AtRest s := by
    intro n live r hstep hdead hlacks
    obtain ⟨hopen, hlive, hlt⟩ := lacks_of_idle h hstep fun hl => hinv.reader.dead (hdead hl)
    rw [hclean] at hopen
    refine .listening ⟨hopen, hq, hlacks hlive hlt, ?_⟩
    rcases hbeats with ⟨_, hw⟩ | ⟨hc, _⟩
    · exact hw
    · rw [hopen] at hc
      cases hc
  cases hp : s.readPos with
  | scheduled r =>
    have htokens := hinv.session.reader
    rw [hq.queue, hp] at htokens
    cases htokens
  | resumeWait =>
    have hflag := hinv.reader.stalled hp
    rcases hbeats with ⟨ho, _⟩ | ⟨hc, hend⟩
    · exact absurd hq.outstanding (outstanding_of_backpressure hinv.session.writer ho hflag)
    · exact .leftWaiting ⟨hclean.trans hc, hq, hp, hend, hflag⟩
  | headerRead live =>
    exact hlisten (fun ok => by rw [step, hp]) (fun hl => by rw [hp]; exact hl)
      fun hl hlt => by rw [hp]; exact ⟨hl, hlt⟩
  | bodyRead t v n live =>
    exact hlisten (fun ok => by rw [step, hp]) (fun hl => by rw [hp]; exact hl)
      fun hl hlt => by rw [hp]; exact ⟨hl, hlt⟩
  | handlerWait q k =>
    refine absurd ?_ (idle_step .answer (t := ({ s with asked := s.asked + 1 }.goto
      (.scheduled (.answered (k (repo s.asked q))))).post .readLoop) h trivial)
    rw [step, hp]
  | finished =>
    rcases hbeats with ⟨ho, _⟩ | ⟨hc, hend⟩
    · exact absurd hp (hinv.reader.reading ho)
    · exact .ended ⟨hclean.trans hc, hq, hp, hend⟩

/-! ## At rest, no step is due -/

/-- A quiet session has only reads, answers and heartbeats to wait for. -/
theorem Quiet.idle {s : Strand Q A} (h : Quiet s)
    (hread : ∀ ok, Due s (.readDone ok) → s.step handlers repo (.readDone ok) = none)
    (hanswer : s.step handlers repo .answer = none)
    (hbeat : s.isClosed = true → s.step handlers repo .hbExpires = none) :
    Runs.Idle (step handlers repo) Due s := by
  rintro t ⟨act, hdue, hst⟩
  cases act with
  | run i raced idle => simp [step, h.queue] at hst
  | readDone ok =>
    rw [hread ok hdue] at hst
    cases hst
  | writeDone b ec => simp [step, h.outstanding] at hst
  | hbExpires =>
    rw [hbeat hdue] at hst
    cases hst
  | answer =>
    rw [hanswer] at hst
    cases hst
  | closePost => simp [step, h.owed] at hst
  | send => exact hdue
  | closeFlag => exact hdue

theorem Listening.idle {s : Strand Q A} (hinv : SessionInv s) (h : Listening s) :
    Runs.Idle (step handlers repo) Due s := by
  have hclean := (h.quiet.cleanedUp hinv).trans h.opened
  have hreads := h.reads
  have hlacks : ∀ {n live} {r : Option Bytes → Resumption Q A}, s.input.length < n →
      s.readDone n live true r = none := by
    intro n live r hlt
    rw [readDone, if_pos rfl, asyncRead, if_neg fun hr => absurd hr.2 (Nat.not_le_of_lt hlt)]
  refine h.quiet.idle (fun ok hdue => ?_) ?_ fun hc => ?_
  · rcases hdue with rfl | hu
    · rw [step]
      split
      · rename_i hp
        rw [hp] at hreads
        exact hlacks hreads.2
      · rename_i hp
        rw [hp] at hreads
        exact hlacks hreads.2
      · rfl
    · rw [hclean] at hu
      cases hu
  · rw [step]
    split
    · rename_i hp
      rw [hp] at hreads
      exact hreads.elim
    · rfl
  · rw [h.opened] at hc
    cases hc

theorem AtRest.idle {s : Strand Q A} (hinv : SessionInv s) (h : AtRest s) :
    Runs.Idle (step handlers repo) Due s := by
  cases h with
  | listening h => exact h.idle hinv
  | ended h =>
    refine h.quiet.idle (fun ok _ => ?_) ?_ fun _ => ?_
    · rw [step, h.readLoop]
    · rw [step, h.readLoop]
    · rw [step, h.heartbeat]
  | leftWaiting h =>
    refine h.quiet.idle (fun ok _ => ?_) ?_ fun _ => ?_
    · rw [step, h.readLoop]
    · rw [step, h.readLoop]
    · rw [step, h.heartbeat]

/-! ## Results -/

/-- **A session is never blocked half-way.**  In every reachable state no step is due exactly if
    the session waits for bytes of the client, or has ended, or its `ReadLoop` waits in a closed
    session for the release of a backpressure that no write is left to bring. -/
theorem idle_iff_atRest {input : Bytes} {acts : List StrandAct} {s : Strand Q A}
    (h : Runs.exec (step handlers repo) (init input) acts = some s) :
    Runs.Idle (step handlers repo) Due s ↔ AtRest s :=
  ⟨atRest_of_idle (liveInv_run h), AtRest.idle (sessionInv_run h)⟩

/-- The rule at a session that has just been closed, and is still to be cleaned up. -/
theorem idle_iff_atRest_closing :
    ∃ s, Runs.exec (step makeSessionHandlers rightPassword) (init loginFrame)
        (startBoth ++ [.closeFlag]) = some s ∧
      ¬ Runs.Idle (step makeSessionHandlers rightPassword) Due s ∧
      (Runs.Idle (step makeSessionHandlers rightPassword) Due s ↔ AtRest s) := by
  refine ⟨_, rfl, fun hidle => ?_, @idle_iff_atRest _ _ _ _ loginFrame
    (startBoth ++ [.closeFlag]) _ rfl⟩
  exact idle_step .closePost hidle trivial rfl

/-- A closed write path without backpressure stays without it. -/
theorem noBackpressure_of_reaches {w w' : Writer} (hinv : WriterInv w)
    (h : Runs.Reaches Writer.step w w') (hc : w.session.isClosed = true)
    (hflag : w.session.backpressure = false) : w'.session.backpressure = false := by
  refine (h.invariant (I := fun v : Writer => WriterInv v ∧ v.session.isClosed = true ∧
    v.session.backpressure = false) ?_ ⟨hinv, hc, hflag⟩).2.2
  rintro v act v' ⟨hv, hcv, hfv⟩ hstep
  refine ⟨writerInv_step v act v' hv hstep,
    (closed_step v act v' hcv hv.accounting.bounded hstep).1, ?_⟩
  cases act with
  | sendFrame a raced =>
    rcases Writer.sendFrame_step hv.accounting.bounded hstep with ⟨_, rfl⟩ | ⟨ho, _⟩ | ⟨ho, _⟩
    · exact hfv
    · rw [hcv] at ho
      cases ho
    · rw [hcv] at ho
      cases ho
  | writeDone b ec =>
    rcases (Writer.writeDone_step hstep).2 with ⟨_, rfl⟩ | ⟨_, _, rfl⟩ | ⟨_, ho, _⟩
    · exact hfv
    · simp [Writer.setWriting, Writer.afterPop, TCPSession.popped, hfv]
    · rw [hcv] at ho
      cases ho
  | shutdown =>
    rw [Writer.shutdown_step hstep]
    exact hfv
  | setPeerApiVersion v =>
    rw [Writer.setPeerApiVersion_step hstep]
    exact hfv

/-- A run of the session is a run of its write path, from any state. -/
theorem writer_reaches {s t : Strand Q A} {acts : List StrandAct} (hinv : SessionInv s)
    (h : Runs.exec (step handlers repo) s acts = some t) :
    Runs.Reaches Writer.step s.writer t.writer :=
  Runs.exec_simulation (f := Strand.writer) (sessionInv_step handlers repo)
    (writer_step handlers repo) hinv h

/-- **A closed session winds down.**  It does not go on for ever, whatever its handlers do and in
    whatever order its tasks run; and once no step is due, both coroutines have ended and no task
    and no write is left, but for a `ReadLoop` that waits on `m_resume_read`, which only happens to
    a session that was closed under backpressure. -/
theorem closed_session_winds_down {input : Bytes} {acts : List StrandAct} {s : Strand Q A}
    (h : Runs.exec (step handlers repo) (init input) acts = some s) (hc : s.isClosed = true) :
    Runs.Settles (step handlers repo) Bounded s ∧
    ∀ acts' t, Runs.exec (step handlers repo) s acts' = some t →
      Runs.Idle (step handlers repo) Due t →
      Ended t ∨ (LeftWaiting t ∧ s.backpressure = true) := by
  have hinv := liveInv_run h
  refine ⟨settles_of_sessionInv hinv.session, fun acts' t hrun hidle => ?_⟩
  have hinv' := Runs.exec_invariant (liveInv_step handlers repo) hinv hrun
  have hreach := writer_reaches hinv.session hrun
  cases atRest_of_idle hinv' hidle with
  | listening hrest =>
    have hopen := hrest.opened
    rw [isClosed, closed_of_reaches hinv.session.writer hreach hc] at hopen
    cases hopen
  | ended hrest => exact Or.inl hrest
  | leftWaiting hrest =>
    refine Or.inr ⟨hrest, ?_⟩
    cases hflag : s.backpressure with
    | true => rfl
    | false =>
      have hnone := noBackpressure_of_reaches hinv.session.writer hreach hc hflag
      have hsome := hrest.flag
      rw [backpressure, hnone] at hsome
      cases hsome

/-- The rule at a session closed while it reads its first header. -/
theorem closed_session_winds_down_reading :
    ∃ s, Runs.exec (step makeSessionHandlers rightPassword) (init loginFrame)
        (startBoth ++ [.closeFlag]) = some s ∧
      s.isClosed = true ∧ Runs.Settles (step makeSessionHandlers rightPassword) Bounded s :=
  ⟨_, rfl, rfl, (@closed_session_winds_down _ _ _ _ loginFrame
    (startBoth ++ [.closeFlag]) _ rfl rfl).1⟩

end Strand

end Zem
