import Zem.Server.Shutdown

/-!
# What the sessions ask

A handler that awaits the repository suspends `ReadLoop` until it is answered.

* `Strand.asks`, `TCPServer.asks` — a session waits for such an answer.
* `Strand.asking_step`, `TCPServer.asking_step` — only an answer ends the wait, and answers are the
  only steps that are counted in `asked`.
* `Strand.step_unasked`, `TCPServer.step_unasked`, `TCPServer.step_answer` — what a step reads of
  the answers.
-/

set_option autoImplicit false

namespace Zem

/-! ## A session -/

namespace Strand

variable {Q A : Type} {handlers : Handlers Q A} {repo repo' : Nat → Q → A}

/-- The handler of the session waits for an answer. -/
def asks (v : Strand Q A) : Bool :=
  match v.readPos with
  | .handlerWait _ _ => true
  | .scheduled _ | .resumeWait | .headerRead _ | .bodyRead _ _ _ _ | .finished => false

theorem asks_iff {v : Strand Q A} : v.asks = true ↔ ∃ q k, v.readPos = .handlerWait q k := by
  cases hp : v.readPos <;> simp [asks, hp]

theorem asks_congr {v w : Strand Q A} (h : w.readPos = v.readPos) : w.asks = v.asks := by
  simp only [asks, h]

/-- Only an answer reads from the repository. -/
theorem step_unasked {v : Strand Q A} {act : StrandAct} (hact : act ≠ .answer) :
    v.step handlers repo act = v.step handlers repo' act := by
  cases act with
  | answer => exact absurd rfl hact
  | run | readDone | writeDone | hbExpires | send | closeFlag | closePost => rfl

/-- An answer reads what the repository says to the next question. -/
theorem step_answer {v w : Strand Q A} (h : v.step handlers repo .answer = some w)
    (hrepo : ∀ q, repo' v.asked q = repo v.asked q) :
    v.step handlers repo' .answer = some w ∧ v.asks = true ∧ w.asks = false ∧
      w.asked = v.asked + 1 := by
  cases fires_of_step h with
  | @answer q k hp =>
    refine ⟨?_, asks_iff.mpr ⟨q, k, hp⟩, rfl, rfl⟩
    simp only [step, hp, hrepo q]

/-! ## What a session has been answered -/

theorem asked_foldl {C : Type} {f : Strand Q A → C → Strand Q A}
    (hf : ∀ s c, (f s c).asked = s.asked) (s : Strand Q A) (calls : List C) :
    (calls.foldl f s).asked = s.asked :=
  List.foldlRecOn (motive := fun t : Strand Q A => t.asked = s.asked) calls f rfl
    fun t ht c _ => (hf t c).trans ht

theorem asked_cancelResumeRead (s : Strand Q A) : s.cancelResumeRead.asked = s.asked := by
  unfold cancelResumeRead
  split <;> rfl

theorem asked_cleanup (s : Strand Q A) : s.cleanup.asked = s.asked := by
  refine (asked_cancelResumeRead _).trans ?_
  unfold cancelHbTimer
  split <;> rfl

theorem asked_callWriter {s t : Strand Q A} {act : WriterAct} (h : s.callWriter act = some t) :
    t.asked = s.asked := by
  obtain ⟨w, calls, _, rfl⟩ := callWriter_some h
  refine asked_foldl (fun s c => ?_) _ calls
  cases c with
  | asyncWrite => rfl
  | cancelResumeRead => exact asked_cancelResumeRead s
  | postCleanup => rfl

theorem asked_stop (s : Strand Q A) : s.stop.asked = s.asked := (posts_shutdown s []).asked

theorem asked_runHandler (s : Strand Q A) (c : Coroutine Q A ConnCall Unit) :
    (s.runHandler c).asked = s.asked := by
  have hcalls := (posts_performConn c.segment.1 s).1.asked
  unfold runHandler
  simp only
  split
  · exact hcalls
  · exact (asked_stop _).trans hcalls
  · exact hcalls

theorem asked_resumeReadLoop (s : Strand Q A) (r : Resumption Q A) :
    (s.resumeReadLoop handlers r).asked = s.asked := by
  cases r with
  | start => rfl
  | woken => rfl
  | header bytes =>
    cases bytes with
    | none => exact asked_stop s
    | some bytes =>
      simp only [resumeReadLoop]
      split
      · exact asked_stop _
      · rfl
      · rfl
      · rfl
  | body t v bytes =>
    cases bytes with
    | none => exact asked_stop s
    | some bytes => exact asked_runHandler s _
  | answered rest => exact asked_runHandler s rest

/-- The task that `ReadLoop` is resumed by is the only one in which a session begins to ask. -/
theorem asks_path {s t : Strand Q A}
    (h : t.readPos = s.readPos ∨ s.readPos = .resumeWait ∧ t.readPos = .scheduled .woken) :
    t.asks = s.asks := by
  rcases h with heq | ⟨hwait, hwoken⟩
  · exact asks_congr heq
  · simp only [asks, hwait, hwoken]

theorem asks_sendFrame {s t : Strand Q A} {a : SendArgs} {i : Nat} {raced : Bool} {idle : Nat}
    (h : (s.take i).runTask handlers raced idle (.sendFrame a) = some t) :
    t.asked = s.asked ∧ t.asks = s.asks := by
  simp only [runTask] at h
  obtain ⟨u, hu, rfl⟩ := Option.map_eq_some_iff.mp h
  have hasked : u.asked = (s.take i).asked := asked_callWriter hu
  have hasks : u.asks = (s.take i).asks := asks_path (callWriter_pathOnly hu).readPos
  exact ⟨hasked, hasks⟩

/-- **Only an answer ends the wait for it**, and no other step is counted as one. -/
theorem asking_step {s t : Strand Q A} {act : StrandAct} (hact : act ≠ .answer)
    (h : s.step handlers repo act = some t) :
    t.asked = s.asked ∧ (s.asks = true → t.asks = true) := by
  have hother : ∀ {u : Strand Q A}, u.asked = s.asked → u.asks = s.asks →
      u.asked = s.asked ∧ (s.asks = true → u.asks = true) := fun h h' => ⟨h, h'.trans⟩
  have hscheduled : ∀ {r : Resumption Q A}, s.readPos = .scheduled r → s.asks ≠ true := by
    intro r hp ha
    simp [asks, hp] at ha
  cases fires_of_step h with
  | sendFrame _ hrun => exact hother (asks_sendFrame hrun).1 (asks_sendFrame hrun).2
  | @written i _ _ _ _ _ _ hrun =>
    have hasked : t.asked = (s.take i).asked := asked_callWriter hrun
    exact hother hasked (asks_path (callWriter_pathOnly hrun).readPos)
  | @cleanup i =>
    have hpath := (pathOnly_perform (s.take i).cancelHbTimer .cancelResumeRead).readPos
    rw [(cancelHbTimer_spec (s.take i)).2.2.2.1] at hpath
    exact hother (asked_cleanup _) (asks_path hpath)
  | readLoop _ hp => exact ⟨asked_resumeReadLoop _ _, fun ha => absurd ha (hscheduled hp)⟩
  | @heartbeat i _ idle r =>
    obtain ⟨u, p, fs, hposts, _, hu⟩ := posts_heartbeat (s.take i) idle r
    rw [hu]
    exact hother hposts.asked (asks_congr (w := { u with hbPos := p }) hposts.readPos)
  | headerDone hp hread =>
    refine ⟨?_, fun ha => ?_⟩
    · rcases readDone_cases hread with ⟨_, _, _, _, rfl⟩ | rfl <;> rfl
    · simp [asks, hp] at ha
  | bodyDone hp hread =>
    refine ⟨?_, fun ha => ?_⟩
    · rcases readDone_cases hread with ⟨_, _, _, _, rfl⟩ | rfl <;> rfl
    · simp [asks, hp] at ha
  | answer => exact absurd rfl hact
  | writeDone | hbExpires | send | closeFlag | closePost => exact hother rfl rfl

end Strand

/-! ## The sessions of the server -/

namespace TCPServer

variable {Q A : Type} {handlers : Handlers Q A} {repo : Nat → Nat → Q → A} {inputs : Nat → Bytes}

/-- Session `id` waits for an answer. -/
def asks (s : TCPServer Q A) (id : Nat) : Bool := (s.sessions id).any Strand.asks

/-- The answers that session `id` has been given. -/
def askedOf (s : TCPServer Q A) (id : Nat) : Nat := (s.sessions id).elim 0 Strand.asked

theorem asks_iff {s : TCPServer Q A} {id : Nat} :
    s.asks id = true ↔ ∃ v, s.sessions id = some v ∧ v.asks = true := by
  simp [asks, Option.any_eq_true]

theorem step_unasked (repo' : Nat → Nat → Q → A) {s : TCPServer Q A} {act : TCPServerAct}
    (hact : ∀ id, act ≠ .session id .answer) :
    step handlers repo inputs s act = step handlers repo' inputs s act := by
  cases act with
  | server act => cases act <;> rfl
  | session id act =>
    have hstep : ∀ v : Strand Q A,
        v.step handlers (repo id) act = v.step handlers (repo' id) act := fun v =>
      Strand.step_unasked fun h => hact id (by rw [h])
    simp only [step, hstep]
  | visitDuring id i idle => rfl
  | signal => rfl

section

variable {s t : TCPServer Q A} {id : Nat} {v w : Strand Q A}

theorem asks_update (h : t.sessions = Function.update s.sessions id (some w)) (x : Nat) :
    t.asks x = if x = id then w.asks else s.asks x := by
  unfold asks
  rw [h, Function.update_apply]
  split <;> rfl

theorem askedOf_update (h : t.sessions = Function.update s.sessions id (some w)) (x : Nat) :
    t.askedOf x = if x = id then w.asked else s.askedOf x := by
  unfold askedOf
  rw [h, Function.update_apply]
  split <;> rfl

/-- No session waits for another answer, or has been given one. -/
def SameAsking (s t : TCPServer Q A) : Prop := t.asks = s.asks ∧ t.askedOf = s.askedOf

theorem sameAsking_of_sessions (h : t.sessions = s.sessions) : SameAsking s t := by
  simp only [SameAsking, funext_iff, asks, askedOf, h, implies_true, and_self]

theorem sameAsking_update (h : t.sessions = Function.update s.sessions id (some w))
    (hasks : w.asks = s.asks id) (hasked : w.asked = s.askedOf id) : SameAsking s t := by
  refine ⟨funext fun x => ?_, funext fun x => ?_⟩
  · rw [asks_update h]
    split
    · rename_i heq
      rw [heq, hasks]
    · rfl
  · rw [askedOf_update h]
    split
    · rename_i heq
      rw [heq, hasked]
    · rfl

theorem asks_of_session (hv : s.sessions id = some v) : s.asks id = v.asks := by
  rw [asks, hv, Option.any_some]

theorem askedOf_session (hv : s.sessions id = some v) : s.askedOf id = v.asked := by
  rw [askedOf, hv, Option.elim_some]

/-- A step that is not one of a session on its own changes nothing of that. -/
theorem serve_asking {act : TCPServerAct} (hinv : TCPServerInv s)
    (hact : ∀ id act', act ≠ .session id act') (h : step handlers repo inputs s act = some t) :
    SameAsking s t := by
  cases takes_of_step h with
  | @run i raced fault u _ hrun =>
    rcases startHandling_cases inputs (Server.registers_run hrun)
      hinv.registry.fresh_not_registered s.sessions with ⟨_, _, hsess⟩ | ⟨_, _, hsess⟩
    · exact sameAsking_of_sessions hsess
    · have hnone : s.sessions s.server.nextId = none := by
        rw [← Option.not_isSome_iff_eq_none, ← hinv.begun]
        exact hinv.registry.fresh_not_registered
      refine sameAsking_update hsess ?_ ?_
      · rw [asks, hnone]
        rfl
      · rw [askedOf, hnone]
        rfl
  | @visit id u _ =>
    by_cases hid : id ∈ s.server.live
    · obtain ⟨v, hv⟩ := hinv.started hid
      have hsess : s.visit id = Function.update s.sessions id (some v.beginShutdown) := by
        rw [TCPServer.visit, if_pos hid, hv, Option.map_some]
      have hbegun : v.beginShutdown.asks = v.asks ∧ v.beginShutdown.asked = v.asked := by
        unfold Strand.beginShutdown
        split <;> exact ⟨rfl, rfl⟩
      refine sameAsking_update hsess ?_ ?_
      · rw [hbegun.1, asks_of_session hv]
      · rw [hbegun.2, askedOf_session hv]
    · exact sameAsking_of_sessions (if_neg hid)
  | release | server | signal => exact sameAsking_of_sessions rfl
  | session => exact absurd rfl (hact _ _)
  | @visitDuring id i idle v w u hv _ _ hsend _ hw =>
    have hsent : w.asked = v.asked ∧ w.asks = v.asks := by
      cases htask : v.queue[i]? with
      | none =>
        rw [htask] at hsend
        cases hsend
      | some task =>
        rw [htask] at hsend
        cases task with
        | sendFrame a =>
          simp only [Strand.step, htask] at hw
          exact Strand.asks_sendFrame hw
        | writeDone | cleanup | readLoop | heartbeat => cases hsend
    refine sameAsking_update rfl ?_ ?_
    · rw [hsent.2, asks_of_session hv]
    · rw [hsent.1, askedOf_session hv]

/-- **Only an answer ends the wait for it.** -/
theorem session_asking {act : StrandAct} (hact : act ≠ .answer)
    (h : step handlers repo inputs s (.session id act) = some t) :
    t.askedOf = s.askedOf ∧ (∀ x, x ≠ id → t.asks x = s.asks x) ∧
      (s.asks id = true → t.asks id = true) := by
  cases takes_of_step h with
  | session _ hv hw =>
    obtain ⟨hasked, hasks⟩ := Strand.asking_step hact hw
    refine ⟨funext fun x => ?_, fun x hx => ?_, fun ha => ?_⟩
    · rw [askedOf_update rfl]
      split
      · rename_i heq
        rw [heq, hasked, askedOf_session hv]
      · rfl
    · rw [asks_update rfl, if_neg hx]
    · rw [asks_update rfl, if_pos rfl]
      rw [asks_of_session hv] at ha
      exact hasks ha

/-- An answer to a session that waits for it reads what `repo` says to its next question. -/
theorem answer_asking (h : step handlers repo inputs s (.session id .answer) = some t) :
    (∀ repo' : Nat → Nat → Q → A,
      (∀ q, repo' id (s.askedOf id) q = repo id (s.askedOf id) q) →
      step handlers repo' inputs s (.session id .answer) = some t) ∧
    s.asks id = true ∧ t.asks = Function.update s.asks id false ∧
    t.askedOf = Function.update s.askedOf id (s.askedOf id + 1) := by
  cases takes_of_step h with
  | @session _ _ v w halone hv hw =>
    rw [asks_of_session hv, askedOf_session hv]
    have hsame := Strand.step_answer hw fun q => (rfl : repo id v.asked q = repo id v.asked q)
    refine ⟨fun repo' hrepo => ?_, hsame.2.1, funext fun x => ?_, funext fun x => ?_⟩
    · rw [step, if_pos halone, hv, Option.bind_some, (Strand.step_answer hw hrepo).1,
        Option.map_some]
    · rw [asks_update rfl, Function.update_apply, hsame.2.2.1]
    · rw [askedOf_update rfl, Function.update_apply, hsame.2.2.2]

/-- A session that asks can be answered. -/
theorem answer_enabled (hasks : s.asks id = true) :
    ∃ t, step handlers repo inputs s (.session id .answer) = some t := by
  obtain ⟨v, hv, ha⟩ := asks_iff.mp hasks
  obtain ⟨q, k, hp⟩ := Strand.asks_iff.mp ha
  have halone : StrandAct.answer.isAlone = true := rfl
  rw [step, if_pos halone, hv, Option.bind_some]
  simp only [Strand.step, hp, Option.map_some]
  exact ⟨_, rfl⟩

end

end TCPServer

end Zem
