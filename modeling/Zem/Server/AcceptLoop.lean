import Zem.Server.Server

/-!
# The accept loop

A server that is not stopped should have one accept or one retry timer under way, so that the
next client is accepted.  Re-arming is done by hand on each path, and the `catch` around `OnAccept`
does not do it.

* `Server.links` — the accepts and timers in progress and their handlers in the queue.
* `Fatal` — an `OnAccept` that throws; `links_step` — every other task hands the loop on.
* `accept_loop_alive_iff` — the exact condition for every run.
* `ended_run` — a loop that has ended does not come back.
* `vanished_client_ends_accept_loop` — a run that gets there.
-/

set_option autoImplicit false

namespace Zem

namespace Server

/-! ## The property -/

/-- A task that hands the accept loop on. -/
def isLink : ServerTask → Bool
  | .startAcceptor | .onAccept _ | .retry => true
  | .stop | .erase _ => false

/-- A handler of an accept or of a retry timer. -/
def isArmed : ServerTask → Bool
  | .onAccept _ | .retry => true
  | .startAcceptor | .stop | .erase _ => false

/-- The accepts and retry timers whose handlers have not run. -/
def armed (s : Server) : Nat := s.accepting + s.retrying + s.queue.countP isArmed

/-- With the first `StartAcceptor` as well. -/
def links (s : Server) : Nat := s.accepting + s.retrying + s.queue.countP isLink

/-- Once the first `StartAcceptor` has run and as long as the server is not stopped, there is
    exactly one accept or retry timer. -/
def AcceptLoopAlive (s : Server) : Prop :=
  .startAcceptor ∉ s.queue → s.isStopped = false → s.armed = 1

/-- An `OnAccept` of an accepted socket throws, and the server is not stopped meanwhile. -/
def Fatal (s : Server) (act : ServerAct) : Prop :=
  ∃ i fault, act = .run i false (some fault) ∧ s.queue[i]? = some (.onAccept false) ∧
    s.isStopped = false

/-! ## One step -/

theorem countP_take {s : Server} {i : Nat} {task : ServerTask} (h : s.queue[i]? = some task)
    (p : ServerTask → Bool) :
    s.queue.countP p = (s.take i).queue.countP p + (if p task then 1 else 0) := by
  obtain ⟨hi, rfl⟩ := List.getElem?_eq_some_iff.mp h
  rw [← (List.getElem_cons_eraseIdx_perm hi).countP_eq, List.countP_cons]
  rfl

/-- A server that is not stopped was not stopped before. -/
theorem not_stopped {s t : Server} (h : s.isStopped = true → t.isStopped = true)
    (ho : t.isStopped = false) : s.isStopped = false := by
  cases hc : s.isStopped with
  | false => rfl
  | true =>
    rw [h hc] at ho
    cases ho

/-- What a task adds to the links, `armed` saying that it should add one. -/
structure Adds (s t : Server) (armed : Prop) : Prop where
  stopped : s.isStopped = true → t.isStopped = true
  le : t.links ≤ s.links + 1
  rearms : t.isStopped = false → armed → t.links = s.links + 1
  dies : ¬ armed → t.links = s.links

theorem adds_startAcceptor (s : Server) : Adds s s.startAcceptor True := by
  unfold startAcceptor
  split
  · rename_i hs
    refine ⟨fun _ => hs, Nat.le_succ _, fun h _ => ?_, fun h => absurd trivial h⟩
    rw [hs] at h
    cases h
  · rename_i hs
    refine ⟨fun h => absurd h hs, ?_, fun _ _ => ?_, fun h => absurd trivial h⟩
    all_goals
      simp only [links]
      omega

/-- An accepted socket hands the loop on unless one of the calls throws. -/
theorem adds_onAccepted (fault : Option AcceptFault) (s : Server) :
    Adds s (s.onAccepted fault) (fault = none) := by
  have hdead : ∀ {t : Server}, t.isStopped = s.isStopped → t.links = s.links → fault ≠ none →
      Adds s t (fault = none) := by
    intro t hs hl hf
    exact ⟨fun h => hs.trans h, hl ▸ Nat.le_succ _, fun _ h => absurd h hf, fun _ => hl⟩
  unfold onAccepted
  split
  · rename_i hf
    exact hdead rfl rfl (by rcases hf with hf | hf <;> simp [hf])
  simp only
  split
  · rename_i hf
    exact hdead rfl rfl (by simp [hf])
  split
  · rename_i hf
    exact hdead rfl (by simp [links, post, isLink]) (by simp [hf])
  split
  · rename_i hf
    exact hdead rfl rfl (by simp [hf])
  · rename_i h1 h2 h3 h4
    have hnone : fault = none := by
      cases fault with
      | none => rfl
      | some f => cases f <;> simp at h1 h2 h3 h4
    obtain ⟨hs, hle, hre, _⟩ := adds_startAcceptor
      { s with
        nextId := s.nextId + 1
        live := s.live ++ [s.nextId]
        sessions := s.sessions ++ [s.nextId]
        registered := s.registered ++ [s.nextId] }
    exact ⟨hs, hle, fun h _ => hre h trivial, fun h => absurd hnone h⟩

theorem onAccepted_isStopped (fault : Option AcceptFault) (s : Server) :
    (s.onAccepted fault).isStopped = s.isStopped := by
  unfold onAccepted startAcceptor
  split
  · rfl
  simp only
  split
  · rfl
  split
  · rfl
  split
  · rfl
  split <;> rfl

/-- The completion handler of `async_accept`. -/
theorem adds_onAccept (ec raced : Bool) (fault : Option AcceptFault) (s : Server) :
    Adds s (s.onAccept ec raced fault) (ec = true ∨ fault = none) := by
  unfold onAccept
  split
  · rename_i hs
    refine ⟨fun _ => hs, Nat.le_succ _, fun h => ?_, fun _ => rfl⟩
    change s.isStopped = false at h
    rw [hs] at h
    cases h
  rename_i hs
  have hbody : ∀ u : Server, u.links = s.links →
      Adds s (if ec then { u with retrying := u.retrying + 1 } else u.onAccepted fault)
        (ec = true ∨ fault = none) := by
    intro u hu
    cases ec with
    | true =>
      have hone : Server.links { u with retrying := u.retrying + 1 } = s.links + 1 := by
        rw [← hu]
        simp only [links]
        omega
      exact ⟨fun h => absurd h hs, Nat.le_of_eq hone, fun _ _ => hone,
        fun h => absurd (Or.inl rfl) h⟩
    | false =>
      obtain ⟨_, hle, hre, hdie⟩ := adds_onAccepted fault u
      rw [hu] at hle hre hdie
      exact ⟨fun h => absurd h hs, hle, fun h hf => hre h (hf.resolve_left (by simp)),
        fun h => hdie fun hf => h (Or.inr hf)⟩
  cases raced with
  | true => exact hbody _ rfl
  | false => exact hbody _ rfl

/-- What a step does to the links: they never grow, and while the server is not stopped they stay
    as many, but for a fatal step, which takes one away. -/
structure Hands (s : Server) (act : ServerAct) (t : Server) : Prop where
  le : t.links ≤ s.links
  stopped : s.isStopped = true → t.isStopped = true
  fatal : Fatal s act → t.isStopped = false ∧ t.links + 1 = s.links
  safe : ¬ Fatal s act → t.isStopped = false → t.links = s.links

/-- A step that runs no task and keeps the links. -/
theorem hands_event {s t : Server} {act : ServerAct}
    (hact : ∀ i raced fault, act ≠ .run i raced fault) (hl : t.links = s.links)
    (hs : s.isStopped = true → t.isStopped = true) : Hands s act t := by
  refine ⟨Nat.le_of_eq hl, hs, ?_, fun _ _ => hl⟩
  rintro ⟨i, fault, he, _⟩
  exact absurd he (hact i false (some fault))

section

variable {s : Server} {i : Nat} {raced : Bool} {fault : Option AcceptFault} {task : ServerTask}

theorem links_take (htask : s.queue[i]? = some task) :
    s.links = (s.take i).links + (if isLink task then 1 else 0) := by
  have hcount := countP_take htask isLink
  simp only [links, hcount]
  simp only [take]
  omega

/-- A fatal step runs the completion of an accept. -/
theorem fatal_run (htask : s.queue[i]? = some task) (h : Fatal s (.run i raced fault)) :
    task = .onAccept false ∧ raced = false ∧ fault ≠ none ∧ s.isStopped = false := by
  obtain ⟨i', _, he, hi, hs⟩ := h
  cases he
  rw [htask] at hi
  exact ⟨Option.some.inj hi, rfl, by simp, hs⟩

/-- A link that is not the completion of an accept is always handed on. -/
theorem hands_link (htask : s.queue[i]? = some task) (hl : isLink task = true)
    (hne : task ≠ .onAccept false)
    (hadds : Adds (s.take i) ((s.take i).runTask raced fault task) True) :
    Hands s (.run i raced fault) ((s.take i).runTask raced fault task) := by
  have hlinks := links_take htask
  rw [if_pos hl] at hlinks
  refine ⟨hlinks ▸ hadds.le, hadds.stopped, ?_, ?_⟩
  · intro hf
    exact absurd (fatal_run htask hf).1 hne
  · intro _ ho
    exact hlinks ▸ hadds.rearms ho trivial

/-- The completion of an accept hands its link on unless one of its calls throws. -/
theorem hands_onAccept {ec : Bool} (htask : s.queue[i]? = some (.onAccept ec)) :
    Hands s (.run i raced fault) ((s.take i).runTask raced fault (.onAccept ec)) := by
  obtain ⟨hst, hle, hre, hdie⟩ := adds_onAccept ec raced fault (s.take i)
  have hlinks : s.links = (s.take i).links + 1 := links_take htask
  refine ⟨hlinks ▸ hle, hst, fun hf => ?_, fun hnf ho => hlinks ▸ hre ho ?_⟩
  · obtain ⟨hec, hr, hfault, hs⟩ := fatal_run htask hf
    cases hec
    refine ⟨?_, (congrArg (· + 1) (hdie (by simp [hfault]))).trans hlinks.symm⟩
    have hrun : (s.take i).runTask raced fault (.onAccept false) =
        (s.take i).onAccepted fault := by
      subst hr
      simp [runTask, onAccept, take, hs]
    rw [hrun, onAccepted_isStopped]
    exact hs
  · have hs : s.isStopped = false := not_stopped hst ho
    have hr : raced = false := by
      cases raced with
      | false => rfl
      | true =>
        have : ((s.take i).runTask true fault (.onAccept ec)).isStopped = true := by
          cases ec <;> simp [runTask, onAccept, take, hs, onAccepted_isStopped]
        rw [this] at ho
        cases ho
    cases ec with
    | true => exact Or.inl rfl
    | false =>
      apply Or.inr
      cases fault with
      | none => rfl
      | some f => exact absurd ⟨i, f, by rw [hr], htask, hs⟩ hnf

/-- A task that is no link. -/
theorem hands_other (htask : s.queue[i]? = some task) (hl : isLink task = false)
    (hkeep : ((s.take i).runTask raced fault task).links = (s.take i).links)
    (hs : ((s.take i).runTask raced fault task).isStopped = s.isStopped) :
    Hands s (.run i raced fault) ((s.take i).runTask raced fault task) := by
  have hlinks := links_take htask
  rw [hl] at hlinks
  have heq := hkeep.trans hlinks.symm
  refine ⟨Nat.le_of_eq heq, fun h => hs.trans h, ?_, fun _ _ => heq⟩
  intro hf
  rw [(fatal_run htask hf).1] at hl
  cases hl

end

theorem links_step {s t : Server} {act : ServerAct} (h : s.step act = some t) :
    Hands s act t := by
  cases act with
  | run i raced fault =>
    obtain ⟨task, _, htask, rfl⟩ := run_step h
    cases task with
    | startAcceptor => exact hands_link htask rfl (by simp) (adds_startAcceptor _)
    | retry => exact hands_link htask rfl (by simp) (adds_startAcceptor _)
    | onAccept ec => exact hands_onAccept htask
    | stop => exact hands_other htask rfl rfl rfl
    | erase n => exact hands_other htask rfl rfl rfl
  | stopVisit n =>
    obtain ⟨_, _, _, rfl⟩ := stopVisit_step h
    exact hands_event (by simp) rfl id
  | stopFinish =>
    obtain ⟨_, rfl⟩ := stopFinish_step h
    exact hands_event (by simp) rfl id
  | acceptDone ec =>
    simp only [step] at h
    split at h
    · rename_i hpos
      cases h
      refine hands_event (by simp) ?_ id
      simp only [links, post, List.countP_append, List.countP_singleton, isLink]
      simp
      omega
    · cases h
  | timerFires =>
    simp only [step] at h
    split at h
    · rename_i hpos
      cases h
      refine hands_event (by simp) ?_ id
      simp only [links, post, List.countP_append, List.countP_singleton, isLink]
      simp
      omega
    · cases h
  | release n =>
    simp only [step] at h
    split at h
    · cases h
      refine hands_event (by simp) ?_ id
      simp [links, post, isLink]
    · cases h
  | stopFlag =>
    simp only [step] at h
    split at h
    · cases h
    · cases h
      exact hands_event (by simp) rfl fun _ => rfl
  | stopPost =>
    simp only [step] at h
    split at h
    · cases h
      refine hands_event (by simp) ?_ id
      simp [links, post, isLink]
    · cases h

/-! ## Every run -/

theorem links_eq (s : Server) :
    s.links = s.armed + s.queue.count .startAcceptor := by
  have hq : ∀ q : List ServerTask,
      q.countP isLink = q.countP isArmed + q.count .startAcceptor := by
    intro q
    induction q with
    | nil => rfl
    | cons task q ih =>
      rw [List.countP_cons, List.countP_cons, List.count_cons, ih]
      cases task <;> simp [isLink, isArmed] <;> omega
  simp only [links, armed, hq]
  omega

/-- With no more than one link, the loop is alive when there is one. -/
theorem acceptLoopAlive_iff {s : Server} (h : s.links ≤ 1) :
    AcceptLoopAlive s ↔ (s.isStopped = false → s.links = 1) := by
  have heq := links_eq s
  constructor
  · intro ha ho
    by_cases hm : .startAcceptor ∈ s.queue
    · have := List.count_pos_iff.mpr hm
      omega
    · have := ha hm ho
      omega
  · intro hl hm ho
    have hzero := List.count_eq_zero_of_not_mem hm
    have := hl ho
    omega

theorem links_init : init.links = 1 := by decide

theorem links_run {acts : List ServerAct} {s t : Server}
    (h : Runs.exec step s acts = some t) : t.links ≤ s.links :=
  Runs.exec_invariant (I := fun u => u.links ≤ s.links)
    (fun _ _ _ hu hstep => Nat.le_trans (links_step hstep).le hu) (Nat.le_refl _) h

/-- **The accept loop lives exactly as long as no step is fatal.**  For all orders of tasks, faults
    and stops. -/
theorem accept_loop_alive_iff {acts : List ServerAct} {s : Server}
    (h : Runs.exec step init acts = some s) :
    Runs.Visits step AcceptLoopAlive init acts ↔
      Runs.Takes step (fun s act => ¬ Fatal s act) init acts := by
  refine Runs.visits_iff_takes (I := fun u => u.links ≤ 1)
    (fun s act t hs hstep => Nat.le_trans (links_step hstep).le hs) ?_
    (Nat.le_of_eq links_init) ?_ h
  · intro s act t hs halive hstep
    obtain ⟨hle, hst, hfatal, hsafe⟩ := links_step hstep
    rw [acceptLoopAlive_iff (Nat.le_trans hle hs)]
    rw [acceptLoopAlive_iff hs] at halive
    constructor
    · intro ht hf
      obtain ⟨ho, hone⟩ := hfatal hf
      have := ht ho
      omega
    · intro hnf ho
      rw [hsafe hnf ho, halive (not_stopped hst ho)]
  · rw [acceptLoopAlive_iff (Nat.le_of_eq links_init)]
    exact fun _ => links_init

/-- The rule at a run that accepts one client. -/
theorem accept_loop_alive_iff_one_client :
    ∃ s, Runs.exec step init [.run 0 false none, .acceptDone false, .run 0 false none] = some s ∧
      s.sessions = [0] ∧ s.accepting = 1 ∧
      (Runs.Visits step AcceptLoopAlive init
          [.run 0 false none, .acceptDone false, .run 0 false none] ↔
        Runs.Takes step (fun s act => ¬ Fatal s act) init
          [.run 0 false none, .acceptDone false, .run 0 false none]) :=
  ⟨_, rfl, rfl, rfl, accept_loop_alive_iff (show Runs.exec step init
    [.run 0 false none, .acceptDone false, .run 0 false none] = some _ from rfl)⟩

/-- **A loop that has ended does not come back**: no accept is ever started again. -/
theorem ended_run {acts : List ServerAct} {s t : Server} (hs : s.links = 0)
    (h : Runs.exec step s acts = some t) : t.accepting = 0 ∧ t.retrying = 0 := by
  have := links_run h
  simp only [links] at this hs
  omega

/-- **A client that is gone before `OnAccept` runs ends the accept loop.**  `remote_endpoint`
    throws, and from then on no client is accepted, although the server is not stopped. -/
theorem vanished_client_ends_accept_loop :
    ∃ s, Runs.exec step init
        [.run 0 false none, .acceptDone false, .run 0 false (some .remoteEndpoint)] = some s ∧
      s.isStopped = false ∧ ¬ AcceptLoopAlive s ∧
      ∀ acts t, Runs.exec step s acts = some t → t.accepting = 0 ∧ t.retrying = 0 := by
  refine ⟨_, rfl, rfl, fun ha => ?_, fun acts t ht => ended_run rfl ht⟩
  cases ha (by decide) rfl

end Server

end Zem
