import Zem.Server.Server

/-!
# The session registry

`m_sessions` refers to the sessions weakly.  Its entries outlive their sessions until the posted
task of the deleter runs, and `Stop` goes through them while other threads let sessions go.

* `Server.made` — how often a session is alive, waiting for its deletion, or deleted.
* `RegInv`, `regInv_step`, `regInv_run` — the invariant, one step and every run.
* `stopped_step` — what a server whose `Stop` has run still does.
* `session_registry` — what the registry holds, and what `Stop` reaches.
-/

set_option autoImplicit false

namespace Zem

namespace Server

/-- The session is alive, waits for the task of its deleter, or is deleted. -/
def made (s : Server) (id : Nat) : Nat :=
  s.live.count id + s.queue.count (.erase id) + s.deleted.count id

/-- The registry between two steps.  `m_work_guard` is reset where the task of `Stop` ends. -/
structure RegInv (s : Server) : Prop where
  once : ∀ id, s.made id = if id < s.nextId then 1 else 0
  nodup : s.sessions.Nodup
  known : ∀ id ∈ s.registered, id < s.nextId
  live : ∀ id ∈ s.live, id ∈ s.registered
  entries : s.workGuard = true → ∀ id, id ∈ s.sessions ↔ id ∈ s.registered ∧ id ∉ s.deleted
  emptied : s.workGuard = false → s.sessions = [] ∧ ∀ id ∈ s.live, id ∈ s.shutdowns
  visited : ∀ rest, s.stopping = some rest → ∀ id ∈ s.live, id ∈ rest ∨ id ∈ s.shutdowns
  stopped : s.owed = true ∨ .stop ∈ s.queue ∨ s.stopping ≠ none ∨ s.workGuard = false →
    s.isStopped = true

theorem regInv_init : RegInv init := by
  refine ⟨fun id => ?_, List.nodup_nil, ?_, ?_, fun _ id => ?_, fun h => ?_, ?_, ?_⟩
  · simp [made, init]
  · intro id h
    cases h
  · intro id h
    cases h
  · simp [init]
  · cases h
  · intro rest h
    cases h
  · simp [init]

namespace RegInv

variable {s : Server}

/-- A live session is not deleted. -/
theorem not_deleted (h : RegInv s) {id : Nat} (hid : id ∈ s.live) : id ∉ s.deleted := by
  intro hdel
  have hone := h.once id
  have hlive := List.count_pos_iff.mpr hid
  have hdead := List.count_pos_iff.mpr hdel
  unfold made at hone
  split at hone <;> omega

/-- The number of the next session is not in use. -/
theorem fresh (h : RegInv s) : s.made s.nextId = 0 := by
  rw [h.once, if_neg (Nat.lt_irrefl _)]

theorem fresh_not_registered (h : RegInv s) : s.nextId ∉ s.registered :=
  fun hm => Nat.lt_irrefl _ (h.known _ hm)

/-- A deleted session has no entry. -/
theorem deleted_not_entry (h : RegInv s) {id : Nat} (hid : id ∈ s.deleted) :
    id ∉ s.sessions := by
  cases hg : s.workGuard with
  | true => exact fun hm => ((h.entries hg id).mp hm).2 hid
  | false =>
    rw [(h.emptied hg).1]
    exact List.not_mem_nil

/-- A queue with no more tasks of `Stop` in it, where the server is not stopped. -/
theorem stopped_of_queue (h : RegInv s) {queue : List ServerTask}
    (hqueue : .stop ∈ queue → .stop ∈ s.queue ∨ s.isStopped = true)
    (howes : s.owed = true ∨ .stop ∈ queue ∨ s.stopping ≠ none ∨ s.workGuard = false) :
    s.isStopped = true := by
  rcases howes with ho | hq | hrest
  · exact h.stopped (Or.inl ho)
  · rcases hqueue hq with hq | hst
    · exact h.stopped (Or.inr (Or.inl hq))
    · exact hst
  · exact h.stopped (Or.inr (Or.inr hrest))

/-- The task of a deleter is none of `Stop`. -/
theorem stopped_postErase (h : RegInv s) (id : Nat) :
    (s.owed = true ∨ .stop ∈ s.queue ++ [.erase id] ∨ s.stopping ≠ none ∨
      s.workGuard = false) → s.isStopped = true := by
  apply h.stopped_of_queue
  intro hq
  rcases List.mem_append.mp hq with hq | hq
  · exact Or.inl hq
  · cases List.mem_singleton.mp hq

/-- The next number has been given to a session. -/
theorem once_next (h : RegInv s) {t : Server} (hnext : t.nextId = s.nextId + 1)
    (hmade : ∀ id, t.made id = s.made id + if s.nextId = id then 1 else 0) (id : Nat) :
    t.made id = if id < t.nextId then 1 else 0 := by
  rw [hmade, h.once, hnext]
  by_cases heq : id = s.nextId
  · subst heq
    simp
  · have hne : s.nextId ≠ id := fun h => heq h.symm
    by_cases hlt : id < s.nextId
    · simp [hne, hlt, Nat.lt_succ_of_lt hlt]
    · have : ¬ id < s.nextId + 1 := by omega
      simp [hne, hlt, this]

end RegInv

/-! ## The functions -/

theorem count_take {s : Server} {i : Nat} {task : ServerTask} (h : s.queue[i]? = some task)
    (x : ServerTask) :
    s.queue.count x = (s.take i).queue.count x + if task = x then 1 else 0 := by
  obtain ⟨hi, rfl⟩ := List.getElem?_eq_some_iff.mp h
  rw [← (List.getElem_cons_eraseIdx_perm hi).count_eq, List.count_cons]
  simp only [beq_iff_eq]
  rfl

/-- A task other than a deletion is taken off the queue. -/
theorem RegInv.take {s : Server} (h : RegInv s) {i : Nat} {task : ServerTask}
    (htask : s.queue[i]? = some task) (hne : ∀ id, task ≠ .erase id) : RegInv (s.take i) := by
  refine ⟨fun id => ?_, h.nodup, h.known, h.live, h.entries, h.emptied, h.visited, ?_⟩
  · have hcount := count_take htask (.erase id)
    rw [if_neg (hne id), Nat.add_zero] at hcount
    have hmade : (s.take i).made id = s.made id := by
      simp only [made, hcount]
      rfl
    rw [hmade]
    exact h.once id
  · exact h.stopped_of_queue fun hq => Or.inl (List.mem_of_mem_eraseIdx hq)

theorem RegInv.startAcceptor {s : Server} (h : RegInv s) : RegInv s.startAcceptor := by
  unfold Server.startAcceptor
  split
  · exact h
  · exact ⟨h.once, h.nodup, h.known, h.live, h.entries, h.emptied, h.visited, h.stopped⟩

/-- `OnAccepted` registers the session it has just made. -/
theorem RegInv.enter {s : Server} (h : RegInv s) (hg : s.workGuard = true)
    (hs : s.stopping = none) :
    RegInv { s with
      nextId := s.nextId + 1
      live := s.live ++ [s.nextId]
      sessions := s.sessions ++ [s.nextId]
      registered := s.registered ++ [s.nextId] } := by
  have hnew := h.fresh_not_registered
  have hdel : s.nextId ∉ s.deleted := by
    intro hm
    have hmade := h.fresh
    have := List.count_pos_iff.mpr hm
    unfold made at hmade
    omega
  refine ⟨h.once_next rfl fun id => ?_, ?_, fun id hm => ?_, fun id hm => ?_, fun _ id => ?_,
    fun hg' => ?_, fun rest hs' => ?_, h.stopped⟩
  · simp only [made, List.count_append, List.count_singleton, beq_iff_eq]
    omega
  · apply List.nodup_append.mpr
    refine ⟨h.nodup, List.pairwise_singleton _ _, fun a ha b hb => ?_⟩
    rw [List.mem_singleton.mp hb]
    rintro rfl
    exact hnew ((h.entries hg _).mp ha).1
  · rcases List.mem_append.mp hm with hm | hm
    · exact Nat.lt_succ_of_lt (h.known id hm)
    · rw [List.mem_singleton.mp hm]
      exact Nat.lt_succ_self _
  · rcases List.mem_append.mp hm with hm | hm
    · exact List.mem_append_left _ (h.live id hm)
    · exact List.mem_append_right _ hm
  · rw [List.mem_append, List.mem_append, h.entries hg, List.mem_singleton]
    constructor
    · rintro (⟨hm, hd⟩ | rfl)
      · exact ⟨Or.inl hm, hd⟩
      · exact ⟨Or.inr rfl, hdel⟩
    · rintro ⟨hm | rfl, hd⟩
      · exact Or.inl ⟨hm, hd⟩
      · exact Or.inr rfl
  · have hg' : s.workGuard = false := hg'
    rw [hg] at hg'
    cases hg'
  · have hs' : s.stopping = some rest := hs'
    rw [hs] at hs'
    cases hs'

/-- `OnAccept` of an accepted socket, before the task of `Stop`. -/
theorem RegInv.onAccepted {s : Server} (h : RegInv s) (fault : Option AcceptFault)
    (hg : s.workGuard = true) (hs : s.stopping = none) : RegInv (s.onAccepted fault) := by
  have hnew := h.fresh_not_registered
  unfold Server.onAccepted
  split
  · exact h
  simp only
  split
  · -- the unique pointer deletes the session on the way out
    refine ⟨h.once_next rfl fun id => ?_, h.nodup, fun id hm => Nat.lt_succ_of_lt (h.known id hm),
      h.live, fun _ id => ?_, h.emptied, h.visited, h.stopped⟩
    · simp only [made, List.count_append, List.count_singleton, beq_iff_eq]
      omega
    · rw [h.entries hg, List.mem_append, List.mem_singleton, not_or]
      refine and_congr_right fun hm => ⟨fun hd => ⟨hd, ?_⟩, And.left⟩
      rintro rfl
      exact hnew hm
  split
  · -- the shared pointer gives it to its deleter
    refine ⟨h.once_next rfl fun id => ?_, h.nodup, fun id hm => Nat.lt_succ_of_lt (h.known id hm),
      h.live, h.entries, h.emptied, h.visited, ?_⟩
    · simp only [made, Server.post, List.count_append, List.count_singleton, beq_iff_eq,
        ServerTask.erase.injEq]
      omega
    · exact h.stopped_postErase s.nextId
  split
  · exact h.enter hg hs
  · exact (h.enter hg hs).startAcceptor

/-- A server that is not stopped has not begun to run the task of `Stop`. -/
theorem RegInv.running {s : Server} (h : RegInv s) (ho : s.isStopped = false) :
    s.workGuard = true ∧ s.stopping = none := by
  have hno := mt h.stopped (by rw [ho]; exact Bool.false_ne_true)
  simp only [not_or, not_not, Bool.not_eq_false] at hno
  exact ⟨hno.2.2.2, hno.2.2.1⟩

theorem RegInv.onAccept {s : Server} (h : RegInv s) (ec raced : Bool)
    (fault : Option AcceptFault) : RegInv (s.onAccept ec raced fault) := by
  unfold Server.onAccept
  split
  · exact ⟨h.once, h.nodup, h.known, h.live, h.entries, h.emptied, h.visited, h.stopped⟩
  rename_i ho
  obtain ⟨hg, hs⟩ := h.running (Bool.not_eq_true _ ▸ ho)
  have hbody : ∀ u : Server, RegInv u → u.workGuard = true → u.stopping = none →
      RegInv (if ec then { u with retrying := u.retrying + 1 } else u.onAccepted fault) := by
    intro u hu hug hus
    cases ec with
    | true =>
      exact ⟨hu.once, hu.nodup, hu.known, hu.live, hu.entries, hu.emptied, hu.visited, hu.stopped⟩
    | false => exact hu.onAccepted fault hug hus
  cases raced with
  | true =>
    refine hbody _ ?_ hg hs
    exact ⟨h.once, h.nodup, h.known, h.live, h.entries, h.emptied, h.visited, fun _ => rfl⟩
  | false => exact hbody s h hg hs

/-- The task of `Stop` begins: every live session has an entry that it will visit. -/
theorem RegInv.stopTask {s : Server} (h : RegInv s) (hst : s.isStopped = true) :
    RegInv s.stopTask := by
  refine ⟨h.once, h.nodup, h.known, h.live, h.entries, h.emptied, fun rest hr id hid => ?_,
    fun _ => hst⟩
  cases hr
  cases hg : s.workGuard with
  | true => exact Or.inl ((h.entries hg id).mpr ⟨h.live id hid, h.not_deleted hid⟩)
  | false => exact Or.inr ((h.emptied hg).2 id hid)

theorem RegInv.stopVisit {s : Server} (h : RegInv s) {id : Nat} {rest : List Nat}
    (hs : s.stopping = some rest) : RegInv (s.stopVisit id rest) := by
  have hmono : ∀ id' ∈ s.shutdowns, id' ∈ (s.stopVisit id rest).shutdowns := by
    intro id' hm
    unfold Server.stopVisit
    simp only
    split
    · exact List.mem_append_left _ hm
    · exact hm
  refine ⟨h.once, h.nodup, h.known, h.live, h.entries,
    fun hg => ⟨(h.emptied hg).1, fun id' hid' => hmono id' ((h.emptied hg).2 id' hid')⟩,
    fun rest' hr id' hid' => ?_, fun _ => h.stopped (Or.inr (Or.inr (Or.inl ?_)))⟩
  · cases hr
    have hlive : id' ∈ s.live := hid'
    rcases h.visited rest hs id' hlive with hm | hm
    · by_cases heq : id' = id
      · subst heq
        apply Or.inr
        simp [Server.stopVisit, hlive]
      · exact Or.inl ((List.mem_erase_of_ne heq).mpr hm)
    · exact Or.inr (hmono id' hm)
  · rw [hs]
    exact Option.some_ne_none _

theorem RegInv.stopFinish {s : Server} (h : RegInv s) (hs : s.stopping = some []) :
    RegInv s.stopFinish := by
  refine ⟨h.once, List.nodup_nil, h.known, h.live, fun hg => ?_, fun _ => ⟨rfl, fun id hid => ?_⟩,
    fun rest hr => ?_, fun _ => h.stopped (Or.inr (Or.inr (Or.inl ?_)))⟩
  · cases hg
  · exact (h.visited [] hs id hid).resolve_left List.not_mem_nil
  · cases hr
  · rw [hs]
    exact Option.some_ne_none _

theorem mem_eraseTask {s : Server} (h : RegInv s) (id id' : Nat) :
    id' ∈ (s.eraseTask id).sessions ↔ id' ∈ s.sessions ∧ id' ≠ id := by
  rw [eraseTask, h.nodup.mem_erase_iff, and_comm]

/-- The task of a deleter removes the entry and then deletes the session. -/
theorem RegInv.eraseTask {s : Server} (h : RegInv s) {i id : Nat}
    (htask : s.queue[i]? = some (.erase id)) : RegInv ((s.take i).eraseTask id) := by
  refine ⟨fun id' => ?_, h.nodup.erase id, h.known, h.live, fun hg id' => ?_, fun hg => ?_,
    h.visited, ?_⟩
  · have hcount := count_take htask (.erase id')
    have hmade : ((s.take i).eraseTask id).made id' = s.made id' := by
      simp only [made, Server.eraseTask, List.count_append, List.count_singleton, beq_iff_eq,
        hcount, ServerTask.erase.injEq]
      simp only [Server.take]
      omega
    rw [hmade]
    exact h.once id'
  · have hmem : id' ∈ ((s.take i).eraseTask id).sessions ↔ id' ∈ s.sessions ∧ id' ≠ id :=
      mem_eraseTask h id id'
    rw [hmem, h.entries hg, Server.eraseTask, List.mem_append, List.mem_singleton, not_or,
      and_assoc]
    exact Iff.rfl
  · obtain ⟨hnil, hshut⟩ := h.emptied hg
    refine ⟨?_, hshut⟩
    simp [Server.eraseTask, Server.take, hnil]
  · exact h.stopped_of_queue fun hq => Or.inl (List.mem_of_mem_eraseIdx hq)

/-- A task is posted that is no deletion. -/
theorem RegInv.post {s : Server} (h : RegInv s) {task : ServerTask} (hne : ∀ id, task ≠ .erase id)
    (hstop : task = .stop → s.isStopped = true) : RegInv (s.post task) := by
  refine ⟨fun id => ?_, h.nodup, h.known, h.live, h.entries, h.emptied, h.visited, ?_⟩
  · have hmade : (s.post task).made id = s.made id := by
      simp [made, Server.post, hne id]
    rw [hmade]
    exact h.once id
  · apply h.stopped_of_queue
    intro hq
    rcases List.mem_append.mp hq with hq | hq
    · exact Or.inl hq
    · exact Or.inr (hstop (List.mem_singleton.mp hq).symm)

/-- The last reference to a session goes away. -/
theorem RegInv.release {s : Server} (h : RegInv s) {id : Nat} (hid : id ∈ s.live) :
    RegInv ({ s with live := s.live.erase id }.post (.erase id)) := by
  have hsub : ∀ id' ∈ s.live.erase id, id' ∈ s.live := fun _ hm => List.mem_of_mem_erase hm
  refine ⟨fun id' => ?_, h.nodup, h.known, fun id' hm => h.live id' (hsub id' hm), h.entries,
    fun hg => ⟨(h.emptied hg).1, fun id' hm => (h.emptied hg).2 id' (hsub id' hm)⟩,
    fun rest hr id' hm => h.visited rest hr id' (hsub id' hm), ?_⟩
  · have hpos := List.count_pos_iff.mpr hid
    have hmade : Server.made ({ s with live := s.live.erase id }.post (.erase id)) id' =
        s.made id' := by
      simp only [made, Server.post, List.count_append, List.count_singleton, List.count_erase,
        beq_iff_eq, ServerTask.erase.injEq]
      by_cases heq : id = id'
      · subst heq
        simp only [if_true]
        omega
      · simp [heq]
    rw [hmade]
    exact h.once id'
  · exact h.stopped_postErase id

/-! ## Steps and runs -/

/-- **Every step preserves the invariant.** -/
theorem regInv_step (s : Server) (act : ServerAct) (t : Server) (h : RegInv s)
    (hstep : s.step act = some t) : RegInv t := by
  cases act with
  | run i raced fault =>
    obtain ⟨task, _, htask, rfl⟩ := run_step hstep
    cases task with
    | startAcceptor => exact (h.take htask (by simp)).startAcceptor
    | retry => exact (h.take htask (by simp)).startAcceptor
    | onAccept ec => exact (h.take htask (by simp)).onAccept ec raced fault
    | stop =>
      apply (h.take htask (by simp)).stopTask
      exact h.stopped (Or.inr (Or.inl (List.mem_of_getElem? htask)))
    | erase id => exact h.eraseTask htask
  | stopVisit id =>
    obtain ⟨rest, hs, _, rfl⟩ := stopVisit_step hstep
    exact h.stopVisit hs
  | stopFinish =>
    obtain ⟨hs, rfl⟩ := stopFinish_step hstep
    exact h.stopFinish hs
  | acceptDone ec =>
    simp only [step] at hstep
    split at hstep
    · cases hstep
      have hinv : RegInv { s with accepting := s.accepting - 1 } :=
        ⟨h.once, h.nodup, h.known, h.live, h.entries, h.emptied, h.visited, h.stopped⟩
      exact hinv.post (by simp) (by simp)
    · cases hstep
  | timerFires =>
    simp only [step] at hstep
    split at hstep
    · cases hstep
      have hinv : RegInv { s with retrying := s.retrying - 1 } :=
        ⟨h.once, h.nodup, h.known, h.live, h.entries, h.emptied, h.visited, h.stopped⟩
      exact hinv.post (by simp) (by simp)
    · cases hstep
  | release id =>
    simp only [step] at hstep
    split at hstep
    · rename_i hid
      cases hstep
      exact h.release hid
    · cases hstep
  | stopFlag =>
    simp only [step] at hstep
    split at hstep
    · cases hstep
    · cases hstep
      exact ⟨h.once, h.nodup, h.known, h.live, h.entries, h.emptied, h.visited, fun _ => rfl⟩
  | stopPost =>
    simp only [step] at hstep
    split at hstep
    · rename_i ho
      cases hstep
      have hst := h.stopped (Or.inl ho)
      have hinv : RegInv { s with owed := false } :=
        ⟨h.once, h.nodup, h.known, h.live, h.entries, h.emptied, h.visited, fun _ => hst⟩
      exact hinv.post (by simp) fun _ => hst
    · cases hstep

theorem regInv_run {acts : List ServerAct} {s : Server} (h : Runs.exec step init acts = some s) :
    RegInv s :=
  Runs.exec_invariant regInv_step regInv_init h

/-- **A stopped server registers no session**, and does not take back that its `Stop` has run. -/
theorem stopped_step {s t : Server} {act : ServerAct} (hst : s.isStopped = true)
    (hstep : s.step act = some t) :
    t.isStopped = true ∧ t.registered = s.registered ∧
      (s.workGuard = false → t.workGuard = false) := by
  cases act with
  | run i raced fault =>
    obtain ⟨task, _, _, rfl⟩ := run_step hstep
    cases task with
    | startAcceptor => simp [runTask, startAcceptor, take, hst]
    | retry => simp [runTask, startAcceptor, take, hst]
    | onAccept ec => simp [runTask, onAccept, take, hst]
    | stop => exact ⟨hst, rfl, id⟩
    | erase id => exact ⟨hst, rfl, fun h => h⟩
  | stopVisit id =>
    obtain ⟨rest, _, _, rfl⟩ := stopVisit_step hstep
    exact ⟨hst, rfl, fun h => h⟩
  | stopFinish =>
    obtain ⟨_, rfl⟩ := stopFinish_step hstep
    exact ⟨hst, rfl, fun _ => rfl⟩
  | acceptDone ec | timerFires | release id | stopPost =>
    simp only [step] at hstep
    split at hstep
    · cases hstep
      exact ⟨hst, rfl, fun h => h⟩
    · cases hstep
  | stopFlag =>
    simp [step, hst] at hstep

theorem stopped_run {acts : List ServerAct} {s t : Server} (hst : s.isStopped = true)
    (hg : s.workGuard = false) (h : Runs.exec step s acts = some t) :
    t.registered = s.registered ∧ t.workGuard = false := by
  have hrun := Runs.exec_invariant
    (I := fun u : Server => u.isStopped = true ∧ u.registered = s.registered ∧ u.workGuard = false)
    (fun u act u' hu hstep => by
      obtain ⟨h1, h2, h3⟩ := stopped_step hu.1 hstep
      exact ⟨h1, h2.trans hu.2.1, h3 hu.2.2⟩) ⟨hst, rfl, hg⟩ h
  exact hrun.2

/-- While the task of `Stop` runs no step changes the set. -/
theorem iteration_step {s t : Server} {act : ServerAct} (hs : s.stopping ≠ none)
    (ht : t.stopping ≠ none) (hstep : s.step act = some t) : t.sessions = s.sessions := by
  cases act with
  | run i raced fault =>
    obtain ⟨_, hnone, _⟩ := run_step hstep
    exact absurd hnone hs
  | stopVisit id =>
    obtain ⟨rest, _, _, rfl⟩ := stopVisit_step hstep
    rfl
  | stopFinish =>
    obtain ⟨_, rfl⟩ := stopFinish_step hstep
    exact absurd rfl ht
  | acceptDone ec | timerFires | release id | stopPost =>
    simp only [step] at hstep
    split at hstep
    · cases hstep
      rfl
    · cases hstep
  | stopFlag =>
    simp only [step] at hstep
    split at hstep
    · cases hstep
    · cases hstep
      rfl

/-! ## Result -/

/-- **The registry, after every run.**  Until `Stop` has run the entries are those of the sessions
    registered and not yet deleted, each once.  Every session made is alive, or waits for the task
    of its deleter, or is deleted, once; and a deleted one has no entry.  That task removes its own
    entry only, and nothing changes the set while `Stop` goes through it.  Once `Stop` has run the
    set is empty and stays so, no session is registered again, and every session that is alive has
    been shut down. -/
theorem session_registry {acts : List ServerAct} {s : Server}
    (h : Runs.exec step init acts = some s) :
    (s.workGuard = true → ∀ id, id ∈ s.sessions ↔ id ∈ s.registered ∧ id ∉ s.deleted) ∧
    s.sessions.Nodup ∧
    (∀ id, s.live.count id + s.queue.count (.erase id) + s.deleted.count id =
      if id < s.nextId then 1 else 0) ∧
    (∀ id ∈ s.deleted, id ∉ s.sessions) ∧
    (∀ i raced fault id t, s.queue[i]? = some (.erase id) →
      s.step (.run i raced fault) = some t →
      id ∈ t.deleted ∧ ∀ id', id' ∈ t.sessions ↔ id' ∈ s.sessions ∧ id' ≠ id) ∧
    (∀ act t, s.stopping ≠ none → s.step act = some t → t.stopping ≠ none →
      t.sessions = s.sessions) ∧
    (s.workGuard = false → (∀ id ∈ s.live, id ∈ s.shutdowns) ∧
      ∀ acts' t, Runs.exec step s acts' = some t →
        t.sessions = [] ∧ t.registered = s.registered) := by
  have hinv := regInv_run h
  refine ⟨hinv.entries, hinv.nodup, hinv.once, fun id => hinv.deleted_not_entry, ?_,
    fun act t hs hstep ht => iteration_step hs ht hstep, fun hg => ⟨(hinv.emptied hg).2, ?_⟩⟩
  · intro i raced fault id t htask hstep
    obtain ⟨task, _, htask', rfl⟩ := run_step hstep
    rw [htask, Option.some.injEq] at htask'
    subst htask'
    refine ⟨List.mem_append_right _ (List.mem_singleton.mpr rfl), fun id' => ?_⟩
    exact mem_eraseTask hinv id id'
  · intro acts' t ht
    have hst := hinv.stopped (Or.inr (Or.inr (Or.inr hg)))
    obtain ⟨hreg, hg'⟩ := stopped_run hst hg ht
    have hinv' : RegInv t := Runs.exec_invariant regInv_step hinv ht
    exact ⟨(hinv'.emptied hg').1, hreg⟩

/-- A run with two clients, one of which is gone when `Stop` goes through the set: the lock of the
    other is its last reference. -/
def twoClients : List ServerAct :=
  [.run 0 false none, .acceptDone false, .run 0 false none, .acceptDone false, .run 0 false none,
    .release 0, .stopFlag, .stopPost, .run 1 false none, .stopVisit 0, .stopVisit 1, .release 1,
    .stopFinish, .run 0 false none]

/-- The rule at that run. -/
theorem session_registry_two_clients :
    ∃ s, Runs.exec step init twoClients = some s ∧ s.shutdowns = [1] ∧ s.deleted = [0] ∧
      s.queue = [.erase 1] ∧ s.sessions.Nodup ∧
      ∀ acts' t, Runs.exec step s acts' = some t → t.sessions = [] ∧ t.registered = [0, 1] := by
  have heval : (Runs.exec step init twoClients).map
      (fun s => (s.shutdowns, s.deleted, s.queue, s.workGuard, s.registered)) =
        some ([1], [0], [.erase 1], false, [0, 1]) := by decide
  obtain ⟨s, hs, heq⟩ := Option.map_eq_some_iff.mp heval
  simp only [Prod.mk.injEq] at heq
  obtain ⟨hshut, hdel, hqueue, hguard, hreg⟩ := heq
  obtain ⟨_, hnodup, _, _, _, _, hstop⟩ := session_registry hs
  refine ⟨s, hs, hshut, hdel, hqueue, hnodup, fun acts' t ht => ?_⟩
  obtain ⟨hnil, hsame⟩ := (hstop hguard).2 acts' t ht
  exact ⟨hnil, hsame.trans hreg⟩

end Server

end Zem
