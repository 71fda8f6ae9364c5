import Zem.Session.Dialogue

/-!
# A handler that closes the connection

`Close` sets `m_is_closed` and posts the cleanup; `ReadLoop` goes on, and may even read one more
header.  What stops it is the order of the queue: the cleanup was posted before that read
completed, so the body is read from a closed socket.

* `HandlerCloses`, `InvokesHandler` — the steps in which a handler calls `Close`, and in which
  `ReadLoop` invokes one.  `Fifo` — a strand that runs its tasks in order.
* `Closing` — the cleanup is done, or in the queue before `ReadLoop`; no body can be read any more.
* `closing_of_handlerCloses`, `closing_step` — a `Close` leads there unless another thread is
  between the two statements of its own `Shutdown`; from there on no handler is invoked and no
  frame accepted.
* `handler_close_is_last` — the result for runs.
* `close_during_other_shutdown` — with another thread there, the next handler is invoked.
-/

set_option autoImplicit false

namespace Zem

namespace Strand

variable {Q A : Type}

/-! ## Steps -/

/-- The step runs a handler up to its next wait or its end, and the handler calls `Close`. -/
def HandlerCloses (handlers : Handlers Q A) (s : Strand Q A) (act : StrandAct) : Prop :=
  ∃ i raced idle r c, act = .run i raced idle ∧ s.queue[i]? = some .readLoop ∧
    s.readPos = .scheduled r ∧ resumedHandler handlers r = some c ∧ .close ∈ c.segment.1

/-- `ReadLoop` has the body of a frame and calls `m_handlers[service_type]`. -/
def InvokesHandler (s : Strand Q A) (act : StrandAct) : Prop :=
  ∃ i raced idle t v bytes, act = .run i raced idle ∧ s.queue[i]? = some .readLoop ∧
    s.readPos = .scheduled (.body t v (some bytes))

/-- A strand runs the first task of its queue. -/
def Fifo : StrandAct → Prop
  | .run i _ _ => i = 0
  | .readDone _ | .writeDone _ _ | .hbExpires | .answer | .send _ | .closeFlag | .closePost => True

/-! ## The queue grows at its end -/

theorem queue_post (s : Strand Q A) (task : Task) : s.queue <+: (s.post task).queue :=
  List.prefix_append _ _

theorem queue_cancelResumeRead (s : Strand Q A) : s.queue <+: s.cancelResumeRead.queue := by
  unfold cancelResumeRead
  split
  · exact List.prefix_append _ _
  · exact List.prefix_rfl

theorem queue_perform (s : Strand Q A) (c : AsioCall) : s.queue <+: (s.perform c).queue := by
  cases c with
  | asyncWrite b => exact List.prefix_rfl
  | cancelResumeRead => exact queue_cancelResumeRead s
  | postCleanup => exact queue_post s _

theorem queue_foldl {C : Type} {f : Strand Q A → C → Strand Q A}
    (hf : ∀ s c, s.queue <+: (f s c).queue) (s : Strand Q A) (calls : List C) :
    s.queue <+: (calls.foldl f s).queue :=
  List.foldlRecOn calls f (motive := fun t => s.queue <+: t.queue) List.prefix_rfl
    fun t ht c _ => ht.trans (hf t c)

theorem queue_shutdown (s : Strand Q A) : s.queue <+: s.shutdown.queue := by
  cases hc : s.isClosed with
  | true => rw [shutdown_closed hc]
  | false =>
    rw [shutdown_open hc]
    exact List.prefix_append _ _

theorem queue_callWriter {s t : Strand Q A} {act : WriterAct} (h : s.callWriter act = some t) :
    s.queue <+: t.queue := by
  obtain ⟨w, calls, _, rfl⟩ := callWriter_some h
  exact queue_foldl queue_perform { s with writer := w } calls

theorem queue_readDone {s t : Strand Q A} {n : Nat} {live ok : Bool}
    {r : Option Bytes → Resumption Q A} (h : s.readDone n live ok r = some t) :
    s.queue <+: t.queue := by
  rcases readDone_cases h with ⟨_, _, _, _, rfl⟩ | rfl
  · exact List.prefix_append _ _
  · exact List.prefix_append _ _

theorem queue_resumeHeartbeat (s : Strand Q A) (idle : Nat) (r : HbResumption) :
    s.queue <+: (s.resumeHeartbeat idle r).queue := by
  refine queue_foldl (fun s c => ?_) s _
  cases c with
  | sendPing => exact queue_post s _
  | shutdown => exact queue_shutdown s

/-! ## No body to come -/

/-- No handler is invoked from here but after another body, and a body whose read is in progress
    is read from a closed socket. -/
def Harmless : ReadPos Q A → Prop
  | .bodyRead _ _ _ live => live = false
  | .scheduled (.body _ _ (some _)) => False
  | .scheduled .start | .scheduled .woken | .scheduled (.header _) | .scheduled (.body _ _ none)
  | .scheduled (.answered _) | .resumeWait | .headerRead _ | .handlerWait _ _ | .finished => True

/-- The cleanup has run, or runs before `ReadLoop` does. -/
def CleanupFirst (s : Strand Q A) : Prop :=
  s.cleanedUp = true ∨ ∃ p q, s.queue = p ++ .cleanup :: q ∧ .readLoop ∉ p

/-- After the `Close` of a handler. -/
structure Closing (s : Strand Q A) : Prop where
  session : SessionInv s
  closed : s.isClosed = true
  harmless : Harmless s.readPos
  cleanup : CleanupFirst s

theorem CleanupFirst.grow {s t : Strand Q A} (h : CleanupFirst s) (hq : s.queue <+: t.queue)
    (hu : s.cleanedUp = true → t.cleanedUp = true) : CleanupFirst t := by
  rcases h with h | ⟨p, q, hs, hp⟩
  · exact Or.inl (hu h)
  · obtain ⟨new, hnew⟩ := hq
    refine Or.inr ⟨p, q ++ new, ?_, hp⟩
    rw [← hnew, hs, List.append_assoc, List.cons_append]

/-- A task that is not the cleanup leaves it in the queue. -/
theorem CleanupFirst.take {s : Strand Q A} {task : Task} (h : CleanupFirst s)
    (hi : s.queue[0]? = some task) (hc : task ≠ .cleanup) : CleanupFirst (s.take 0) := by
  rcases h with h | ⟨p, q, hs, hp⟩
  · exact Or.inl h
  · cases p with
    | nil =>
      rw [hs] at hi
      cases hi
      exact absurd rfl hc
    | cons x p =>
      exact Or.inr ⟨p, q, take_first hs, fun hin => hp (List.mem_cons_of_mem _ hin)⟩

/-- `ReadLoop` runs after the cleanup. -/
theorem CleanupFirst.cleanedUp {s : Strand Q A} (h : CleanupFirst s)
    (hi : s.queue[0]? = some .readLoop) : s.cleanedUp = true := by
  rcases h with h | ⟨p, q, hs, hp⟩
  · exact h
  · rw [hs] at hi
    cases p with
    | nil => cases hi
    | cons x p =>
      cases hi
      exact absurd List.mem_cons_self hp

theorem harmless_top (s : Strand Q A) : Harmless s.readLoopTop.readPos := by
  unfold readLoopTop
  split <;> trivial

theorem harmless_runHandler (s : Strand Q A) (c : Coroutine Q A ConnCall Unit) :
    Harmless (s.runHandler c).readPos := by
  unfold runHandler
  simp only
  split
  · exact harmless_top _
  · trivial
  · trivial

/-- After the cleanup `ReadLoop` starts no read that could end well. -/
theorem harmless_resumeReadLoop {handlers : Handlers Q A} {s : Strand Q A} (r : Resumption Q A)
    (hu : s.cleanedUp = true) : Harmless (s.resumeReadLoop handlers r).readPos := by
  cases r with
  | start => exact harmless_top s
  | woken => trivial
  | header bytes =>
    cases bytes with
    | none => trivial
    | some bytes =>
      simp only [resumeReadLoop]
      split
      · trivial
      · exact harmless_top _
      · exact harmless_top _
      · simp [goto, Harmless, setSession, hu]
  | body t v bytes =>
    cases bytes with
    | none => trivial
    | some bytes => exact harmless_runHandler s _
  | answered rest => exact harmless_runHandler s rest

theorem harmless_perform {s : Strand Q A} (h : Harmless s.readPos) (c : AsioCall) :
    Harmless (s.perform c).readPos := by
  cases c with
  | asyncWrite b => exact h
  | cancelResumeRead =>
    simp only [perform, cancelResumeRead]
    split
    · trivial
    · exact h
  | postCleanup => exact h

theorem harmless_callWriter {s t : Strand Q A} {act : WriterAct} (h : Harmless s.readPos)
    (hcall : s.callWriter act = some t) : Harmless t.readPos := by
  obtain ⟨w, calls, _, rfl⟩ := callWriter_some hcall
  exact List.foldlRecOn (b := { s with writer := w }) calls perform
    (motive := fun u => Harmless u.readPos) h fun u hu c _ => harmless_perform hu c

theorem harmless_cleanup {s : Strand Q A} (h : Harmless s.readPos) :
    Harmless s.cleanup.readPos := by
  refine harmless_perform (s := s.cancelHbTimer) ?_ .cancelResumeRead
  rw [(cancelHbTimer_spec s).2.2.2.1]
  exact h

/-! ## Steps of a closing session -/

/-- A body read from a closed socket fails. -/
theorem readDone_dead {s t : Strand Q A} {n : Nat} {ok : Bool}
    {r : Option Bytes → Resumption Q A} (h : s.readDone n false ok r = some t) :
    t = (s.goto (.scheduled (r none))).post .readLoop := by
  unfold readDone at h
  split at h
  · simp [asyncRead] at h
  · cases h
    rfl

theorem accepted_of_reaches {w w' : Writer} (hinv : WriterInv w)
    (h : Runs.Reaches Writer.step w w') (hc : w.session.isClosed = true) :
    w'.accepted = w.accepted := by
  obtain ⟨acts, h⟩ := h
  exact (closed_run hinv hc h).1

theorem Closing.quiet {s : Strand Q A} (hs : Closing s) (act : StrandAct) :
    ¬ InvokesHandler s act := by
  rintro ⟨i, raced, idle, t, v, bytes, rfl, _, hp⟩
  have hharm := hs.harmless
  rw [hp] at hharm
  exact hharm

/-- A task of the write path. -/
theorem quiet_callWriter {s t : Strand Q A} {task : Task} {act : WriterAct}
    (hharm : Harmless s.readPos) (hfirst : CleanupFirst s) (htask : s.queue[0]? = some task)
    (hne : task ≠ .cleanup) (h : (s.take 0).callWriter act = some t) :
    Harmless t.readPos ∧ CleanupFirst t := by
  constructor
  · exact harmless_callWriter (s := s.take 0) hharm h
  · apply (hfirst.take htask hne).grow (queue_callWriter h)
    intro hup
    obtain ⟨w, calls, _, rfl⟩ := callWriter_some h
    obtain ⟨_, _, _, _, hcleaned, _⟩ := foldl_perform_spec calls { s.take 0 with writer := w }
    exact hcleaned.trans hup

/-- **A step of a closing session** leaves it one, and accepts no frame. -/
theorem closing_step {handlers : Handlers Q A} {repo : Nat → Q → A} {s t : Strand Q A}
    {act : StrandAct} (hs : Closing s) (hact : Fifo act) (h : s.step handlers repo act = some t) :
    Closing t ∧ t.writer.accepted = s.writer.accepted := by
  obtain ⟨hinv, hclosed, hharm, hfirst⟩ := hs
  have hreach := writer_step handlers repo s act t hinv h
  suffices hkeep : Harmless t.readPos ∧ CleanupFirst t from
    ⟨⟨sessionInv_step handlers repo s act t hinv h,
      closed_of_reaches hinv.writer hreach hclosed, hkeep.1, hkeep.2⟩,
      accepted_of_reaches hinv.writer hreach hclosed⟩
  cases fires_of_step h with
  | sendFrame htask hrun =>
    cases hact
    simp only [runTask] at hrun
    obtain ⟨u, hu, rfl⟩ := Option.map_eq_some_iff.mp hrun
    have hkeep : Harmless u.readPos ∧ CleanupFirst u :=
      quiet_callWriter hharm hfirst htask (by simp) hu
    exact hkeep
  | written htask hrun =>
    cases hact
    exact quiet_callWriter hharm hfirst htask (by simp) hrun
  | cleanup htask =>
    cases hact
    exact ⟨harmless_cleanup (s := s.take 0) hharm, Or.inl rfl⟩
  | @readLoop i _ _ r htask hr =>
    cases hact
    -- the cleanup has run, so what `ReadLoop` starts now fails
    have hup := hfirst.cleanedUp htask
    refine ⟨harmless_resumeReadLoop (s := s.take 0) r hup, Or.inl ?_⟩
    obtain ⟨u, p, hcalls, hu, _⟩ := resumeReadLoop_spec handlers (s.take 0) r
    rw [hu]
    exact hcalls.cleanedUp.trans hup
  | @heartbeat i _ idle r htask _ =>
    cases hact
    obtain ⟨u, p, hcalls, hu⟩ := resumeHeartbeat_spec (s.take 0) idle r
    have hq := queue_resumeHeartbeat (s.take 0) idle r
    rw [hu] at hq ⊢
    refine ⟨?_, (hfirst.take htask (by simp)).grow hq fun hup => hcalls.cleanedUp.trans hup⟩
    show Harmless u.readPos
    rw [hcalls.readPos]
    exact hharm
  | @headerDone live ok _ hp hread =>
    constructor
    · rcases readDone_cases hread with ⟨_, _, _, _, rfl⟩ | rfl
      all_goals trivial
    · apply hfirst.grow (queue_readDone hread)
      intro hup
      exact (keeps_readDone (by rw [hp]; rfl) hread).cleanedUp.trans hup
  | bodyDone hp hread =>
    -- the only read of a body in progress is one of a closed socket
    rw [hp] at hharm
    cases hharm
    cases readDone_dead hread
    exact ⟨trivial, hfirst.grow (queue_post _ _) id⟩
  | writeDone => exact ⟨hharm, hfirst.grow (queue_post _ _) id⟩
  | hbExpires => exact ⟨hharm, hfirst.grow (queue_post _ _) id⟩
  | answer => exact ⟨trivial, hfirst.grow (queue_post _ _) id⟩
  | send => exact ⟨hharm, hfirst.grow (queue_post _ _) id⟩
  | closeFlag ho =>
    rw [hclosed] at ho
    cases ho
  | closePost => exact ⟨hharm, hfirst.grow (queue_post _ _) id⟩

/-! ## The step of the `Close` -/

theorem owed_shutdown (s : Strand Q A) : s.shutdown.owed = s.owed := by
  cases hc : s.isClosed with
  | true => rw [shutdown_closed hc]
  | false =>
    rw [shutdown_open hc]
    rfl

theorem owed_performConn (s : Strand Q A) (calls : List ConnCall) :
    (calls.foldl performConn s).owed = s.owed := by
  refine List.foldlRecOn (b := s) calls performConn (motive := fun t => t.owed = s.owed) rfl
    fun t ht c _ => ?_
  cases c with
  | send a => exact ht
  | close => exact (owed_shutdown t).trans ht

/-- A handler that calls `Close` leaves the session closed, by its call or by an earlier one. -/
theorem runHandler_close (s : Strand Q A) {c : Coroutine Q A ConnCall Unit}
    (h : .close ∈ c.segment.1) :
    (s.runHandler c).isClosed = true ∧ (s.runHandler c).owed = s.owed := by
  have hcl : (c.segment.1.foldl performConn s).isClosed = true := by
    cases ho : (c.segment.1.foldl performConn s).isClosed with
    | true => rfl
    | false => exact absurd h ((posts_performConn c.segment.1 s).2 ho)
  have howed := owed_performConn s c.segment.1
  unfold runHandler
  simp only
  split
  · exact ⟨hcl, howed⟩
  · exact ⟨isClosed_shutdown _, (owed_shutdown _).trans howed⟩
  · exact ⟨hcl, howed⟩

/-- **A handler's `Close`.**  The cleanup is the session's only one, so it is in the queue or has
    run; `ReadLoop`, which has just run the handler, is not in the queue. -/
theorem closing_of_handlerCloses {handlers : Handlers Q A} {repo : Nat → Q → A} {s t : Strand Q A}
    {act : StrandAct} (hinv : SessionInv s) (hclose : HandlerCloses handlers s act)
    (howed : s.owed = false) (h : s.step handlers repo act = some t) :
    Closing t ∧ t.writer.accepted = s.writer.accepted := by
  have hinv' := sessionInv_step handlers repo s act t hinv h
  obtain ⟨i, raced, idle, r, c, rfl, htask, hp, hc, hcall⟩ := hclose
  have ht : t = (s.take i).runHandler c := by
    have hp' : (s.take i).readPos = .scheduled r := hp
    simp only [step, htask, runTask, hp', Option.some.injEq] at h
    rw [← h, resumeReadLoop_handler hc]
  obtain ⟨hclosed, howed'⟩ := runHandler_close (s.take i) hcall
  have hharm := harmless_runHandler (s.take i) c
  have hfollows : Follows handlers repo (s.take i) ((s.take i).runHandler c) _ :=
    follows_runHandler (s.take i) c
  have hacc := hfollows.1
  obtain ⟨u, p, _, hup, htok, _⟩ := runHandler_spec (s.take i) c
  rw [← ht] at hclosed howed' hharm hacc hup
  refine ⟨⟨hinv', hclosed, hharm, ?_⟩, hacc⟩
  have hclean := hinv'.cleanup
  have hread := hinv'.reader
  have htok' : t.readPos.tokens = 0 := by rw [hup]; exact htok
  cases hdone : t.cleanedUp with
  | true => exact Or.inl hdone
  | false =>
    have hmem : .cleanup ∈ t.queue := by
      apply List.count_pos_iff.mp
      simp only [cleanups, howed', take, howed, hdone, hclosed, Bool.toNat_true,
        Bool.toNat_false] at hclean
      omega
    have hnone : .readLoop ∉ t.queue := by
      rw [← List.count_eq_zero]
      omega
    obtain ⟨p, q, hq⟩ := List.append_of_mem hmem
    exact Or.inr ⟨p, q, hq, fun hin => hnone (by rw [hq]; exact List.mem_append_left _ hin)⟩

/-! ## Result -/

/-- A run of a closing session. -/
theorem closing_run {handlers : Handlers Q A} {repo : Nat → Q → A} {acts : List StrandAct}
    {s : Strand Q A} (hs : Closing s) (hacts : ∀ act ∈ acts, Fifo act) :
    Runs.Takes (step handlers repo) (fun v act => ¬ InvokesHandler v act) s acts ∧
      Runs.Visits (step handlers repo) (fun v => v.writer.accepted = s.writer.accepted) s acts := by
  have hstep : ∀ v act w, (Closing v ∧ v.writer.accepted = s.writer.accepted) → Fifo act →
      v.step handlers repo act = some w → Closing w ∧ w.writer.accepted = s.writer.accepted := by
    rintro v act w ⟨hv, ha⟩ hact h
    obtain ⟨hw, ha'⟩ := closing_step hv hact h
    exact ⟨hw, ha'.trans ha⟩
  exact ⟨Runs.takes_of_invariant hstep (fun v act hv _ => hv.1.quiet act) ⟨hs, rfl⟩ hacts,
    Runs.visits_of_invariant hstep (fun v hv => hv.2) ⟨hs, rfl⟩ hacts⟩

/-- **A handler that closes the connection is the last one.**  From the step in which a handler
    calls `Close`, taken while no other thread is between the two statements of `Shutdown`, no
    handler is invoked and no frame is queued for writing. -/
theorem handler_close_is_last {handlers : Handlers Q A} {repo : Nat → Q → A} {input : Bytes}
    {before after : List StrandAct} {act : StrandAct} {s t : Strand Q A}
    (hbefore : Runs.exec (step handlers repo) (init input) before = some s)
    (hclose : HandlerCloses handlers s act) (howed : s.owed = false)
    (hstep : s.step handlers repo act = some t) (hafter : ∀ a ∈ after, Fifo a) :
    Runs.Takes (step handlers repo) (fun v a => ¬ InvokesHandler v a) t after ∧
      Runs.Visits (step handlers repo) (fun v => v.writer.accepted = s.writer.accepted) t
        after := by
  obtain ⟨hclosing, hacc⟩ := closing_of_handlerCloses (sessionInv_run hbefore) hclose howed hstep
  rw [← hacc]
  exact closing_run hclosing hafter

/-- A frame for which `MakeSession` has no handler of its own. -/
def receivingFrame : Bytes := [0, 0, 0, 3, 0, 0, 0, 1, 0, 1, 0]

/-- Both coroutines run, and a frame is read. -/
def readFirst : List StrandAct :=
  [.run 0 false 0, .run 0 false 0, .readDone true, .run 0 false 0, .readDone true]

/-- The header of another frame is read, which was there before the cleanup; the cleanup runs, and
    the body is not read any more. -/
def readHeaderOnly : List StrandAct :=
  [.readDone true, .run 0 false 0, .run 0 false 0, .run 0 false 0, .readDone false,
    .run 0 false 0]

/-- The rule at a run in which the second frame is there as well, up to the end of `ReadLoop`. -/
theorem handler_close_is_last_two_frames :
    ∃ s t u, Runs.exec (step makeSessionHandlers fun _ _ => .nullPool)
        (init (receivingFrame ++ receivingFrame)) readFirst = some s ∧
      s.step makeSessionHandlers (fun _ _ => .nullPool) (.run 0 false 0) = some t ∧
      Runs.exec (step makeSessionHandlers fun _ _ => .nullPool) t readHeaderOnly = some u ∧
      u.readPos = .finished ∧
      Runs.Takes (step makeSessionHandlers fun _ _ => .nullPool)
        (fun v a => ¬ InvokesHandler v a) t readHeaderOnly ∧
      Runs.Visits (step makeSessionHandlers fun _ _ => .nullPool)
        (fun v => v.writer.accepted = s.writer.accepted) t readHeaderOnly :=
  ⟨_, _, _, rfl, rfl, rfl, rfl, handler_close_is_last
    (show Runs.exec (step makeSessionHandlers fun _ _ => .nullPool)
      (init (receivingFrame ++ receivingFrame)) readFirst = some _ from rfl)
    (show HandlerCloses makeSessionHandlers _ (.run 0 false 0) from
      ⟨0, false, 0, _, _, rfl, rfl, rfl, rfl, List.mem_singleton_self _⟩)
    rfl rfl (by simp [readHeaderOnly, Fifo])⟩

/-- Another frame is read, and its handler invoked. -/
def readNext : List StrandAct := [.readDone true, .run 0 false 0, .readDone true, .run 0 false 0]

/-- **Another thread closes first.**  It has set `m_is_closed` and not yet posted the cleanup, so
    the handler's `Close` does nothing; `ReadLoop` reads the second frame and invokes its
    handler. -/
theorem close_during_other_shutdown :
    ∃ s t, Runs.exec (step makeSessionHandlers fun _ _ => .nullPool)
        (init (receivingFrame ++ receivingFrame)) (readFirst ++ [.closeFlag]) = some s ∧
      HandlerCloses makeSessionHandlers s (.run 0 false 0) ∧
      s.step makeSessionHandlers (fun _ _ => .nullPool) (.run 0 false 0) = some t ∧
      (∀ a ∈ readFirst ++ [.closeFlag] ++ [.run 0 false 0] ++ readNext, Fifo a) ∧
      ¬ Runs.Takes (step makeSessionHandlers fun _ _ => .nullPool)
        (fun v a => ¬ InvokesHandler v a) t readNext := by
  refine ⟨_, _, rfl, ⟨0, false, 0, _, _, rfl, rfl, rfl, rfl, List.mem_singleton_self _⟩, rfl,
    by simp [readFirst, readNext, Fifo], fun h => ?_⟩
  obtain ⟨_, h⟩ := h
  obtain ⟨_, h⟩ := h _ rfl
  obtain ⟨_, h⟩ := h _ rfl
  exact (h _ rfl).1 ⟨0, false, 0, _, _, _, rfl, rfl, rfl⟩

end Strand

end Zem
