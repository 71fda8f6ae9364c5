import Zem.Server.Registry

/-!
# A server that stops

What is left to do on the strand of the listening side once `Stop` has been called.

* `StopInv`, `stopInv_step` — the task of `Stop` is owed, posted, running or done; once it has begun
  the acceptor is closed, and the acceptor of a server that runs is open.
* `windDown`, `windDown_step` — every step of a stopped server takes some of that away.
* `Quiet` — no task, timer or call of `Stop` is left; `quiet_of_blocked`.
* `AtEnd` — nothing is left; `atEnd_of_blocked`.
-/

set_option autoImplicit false

namespace Zem

namespace Server

/-! ## The task of Stop -/

structure StopInv (s : Server) : Prop where
  pending : s.isStopped = true →
    s.owed = true ∨ .stop ∈ s.queue ∨ s.stopping ≠ none ∨ s.workGuard = false
  closed : s.stopping ≠ none ∨ s.workGuard = false → s.acceptorOpen = false
  shut : s.acceptorOpen = false → s.isStopped = true

theorem stopInv_init : StopInv init := by
  refine ⟨fun h => ?_, fun h => ?_, fun h => ?_⟩
  · cases h
  · simp [init] at h
  · cases h

namespace StopInv

variable {s : Server}

/-- A task other than that of `Stop` is taken off the queue. -/
theorem take (h : StopInv s) {i : Nat} {task : ServerTask} (htask : s.queue[i]? = some task)
    (hne : task ≠ .stop) : StopInv (s.take i) := by
  refine ⟨fun hst => (h.pending hst).imp_right (Or.imp_left fun hq => ?_), h.closed, h.shut⟩
  have hcount := count_take htask .stop
  rw [if_neg hne, Nat.add_zero] at hcount
  rw [← List.count_pos_iff] at hq ⊢
  omega

theorem post (h : StopInv s) (task : ServerTask) : StopInv (s.post task) :=
  ⟨fun hst => (h.pending hst).imp_right (Or.imp_left (List.mem_append_left _)), h.closed, h.shut⟩

theorem startAcceptor (h : StopInv s) : StopInv s.startAcceptor := by
  unfold Server.startAcceptor
  split
  · exact h
  · exact ⟨h.pending, h.closed, h.shut⟩

theorem onAccepted (h : StopInv s) (fault : Option AcceptFault) :
    StopInv (s.onAccepted fault) := by
  unfold Server.onAccepted
  split
  · exact h
  simp only
  split
  · exact ⟨h.pending, h.closed, h.shut⟩
  split
  · exact (post (s := { s with nextId := s.nextId + 1 }) ⟨h.pending, h.closed, h.shut⟩ _)
  have henter : StopInv { s with
      nextId := s.nextId + 1
      live := s.live ++ [s.nextId]
      sessions := s.sessions ++ [s.nextId]
      registered := s.registered ++ [s.nextId] } := ⟨h.pending, h.closed, h.shut⟩
  split
  · exact henter
  · exact henter.startAcceptor

theorem onAccept (h : StopInv s) (ec raced : Bool) (fault : Option AcceptFault) :
    StopInv (s.onAccept ec raced fault) := by
  unfold Server.onAccept
  split
  · rename_i hst
    exact ⟨h.pending, fun _ => rfl, fun _ => hst⟩
  have hbody : ∀ u : Server, StopInv u →
      StopInv (if ec then { u with retrying := u.retrying + 1 } else u.onAccepted fault) := by
    intro u hu
    cases ec with
    | true => exact ⟨hu.pending, hu.closed, hu.shut⟩
    | false => exact hu.onAccepted fault
  cases raced with
  | true => exact hbody _ ⟨fun _ => Or.inl rfl, h.closed, fun _ => rfl⟩
  | false => exact hbody s h

end StopInv

theorem stopInv_step (s : Server) (act : ServerAct) (t : Server) (hreg : RegInv s) (h : StopInv s)
    (hstep : s.step act = some t) : StopInv t := by
  cases act with
  | run i raced fault =>
    obtain ⟨task, _, htask, rfl⟩ := run_step hstep
    cases task with
    | startAcceptor => exact (h.take htask (by simp)).startAcceptor
    | retry => exact (h.take htask (by simp)).startAcceptor
    | onAccept ec => exact (h.take htask (by simp)).onAccept ec raced fault
    | stop =>
      have hst := hreg.stopped (Or.inr (Or.inl (List.mem_of_getElem? htask)))
      exact ⟨fun _ => Or.inr (Or.inr (Or.inl (by simp [runTask, stopTask]))), fun _ => rfl,
        fun _ => hst⟩
    | erase id =>
      have hinv := h.take htask (by simp)
      exact ⟨hinv.pending, hinv.closed, hinv.shut⟩
  | stopVisit id =>
    obtain ⟨rest, hs, _, rfl⟩ := stopVisit_step hstep
    refine ⟨fun _ => Or.inr (Or.inr (Or.inl (by simp [stopVisit]))), fun _ => ?_, h.shut⟩
    exact h.closed (Or.inl (by simp [hs]))
  | stopFinish =>
    obtain ⟨hs, rfl⟩ := stopFinish_step hstep
    exact ⟨fun _ => Or.inr (Or.inr (Or.inr rfl)), fun _ => h.closed (Or.inl (by simp [hs])), h.shut⟩
  | acceptDone ec =>
    simp only [step] at hstep
    split at hstep
    · cases hstep
      exact StopInv.post (s := { s with accepting := s.accepting - 1 })
        ⟨h.pending, h.closed, h.shut⟩ _
    · cases hstep
  | timerFires =>
    simp only [step] at hstep
    split at hstep
    · cases hstep
      exact StopInv.post (s := { s with retrying := s.retrying - 1 })
        ⟨h.pending, h.closed, h.shut⟩ _
    · cases hstep
  | release id =>
    simp only [step] at hstep
    split at hstep
    · cases hstep
      exact StopInv.post (s := { s with live := s.live.erase id }) ⟨h.pending, h.closed, h.shut⟩ _
    · cases hstep
  | stopFlag =>
    simp only [step] at hstep
    split at hstep
    · cases hstep
    · cases hstep
      exact ⟨fun _ => Or.inl rfl, h.closed, fun _ => rfl⟩
  | stopPost =>
    simp only [step] at hstep
    split at hstep
    · cases hstep
      exact ⟨fun _ => Or.inr (Or.inl (List.mem_append_right _ (List.mem_singleton.mpr rfl))),
        h.closed, h.shut⟩
    · cases hstep

/-! ## What is left to do -/

/-- The visits that the task of `Stop` has still to make, and its end. -/
def visitsLeft (s : Server) : Nat :=
  match s.stopping with
  | none => 0
  | some rest => rest.length + 1

/-- Accepts, timers and sessions outweigh the tasks they post, and a `Stop` its visits. -/
def windDown (s : Server) : Nat :=
  2 * (s.accepting + s.retrying + s.live.length + s.owed.toNat) + s.queue.length +
    (s.owed.toNat + s.queue.count .stop) * (s.sessions.length + 2) + s.visitsLeft

theorem length_take {s : Server} {i : Nat} {task : ServerTask} (h : s.queue[i]? = some task) :
    s.queue.length = (s.take i).queue.length + 1 := by
  obtain ⟨hi, _⟩ := List.getElem?_eq_some_iff.mp h
  rw [take, List.length_eraseIdx, if_pos hi]
  omega

/-- A task that starts nothing. -/
theorem windDown_take {s t : Server} {i : Nat} {task : ServerTask}
    (htask : s.queue[i]? = some task) (hne : task ≠ .stop)
    (ht : t = { s.take i with acceptorOpen := t.acceptorOpen }) : t.windDown < s.windDown := by
  have hcount := count_take htask .stop
  rw [if_neg hne, Nat.add_zero] at hcount
  have hlen := length_take htask
  have hqueue : t.queue = (s.take i).queue := by rw [ht]
  rw [ht]
  simp only [windDown, visitsLeft, hcount, hlen]
  simp only [take]
  omega

/-- A task is posted in exchange for an operation in progress. -/
theorem windDown_post {s t : Server} {task : ServerTask} (hne : task ≠ .stop)
    (ht : t.queue = s.queue ++ [task]) (howed : t.owed = s.owed)
    (hsess : t.sessions = s.sessions) (hstop : t.stopping = s.stopping)
    (hless : t.accepting + t.retrying + t.live.length < s.accepting + s.retrying + s.live.length) :
    t.windDown < s.windDown := by
  have hcount : t.queue.count .stop = s.queue.count .stop := by
    rw [ht, List.count_append, List.count_singleton, if_neg (by simpa using hne), Nat.add_zero]
  have hlen : t.queue.length = s.queue.length + 1 := by
    rw [ht, List.length_append, List.length_singleton]
  simp only [windDown, visitsLeft, hcount, hlen, howed, hsess, hstop]
  omega

/-- **A stopped server winds down.** -/
theorem windDown_step {s t : Server} {act : ServerAct} (hst : s.isStopped = true)
    (h : s.step act = some t) : t.windDown < s.windDown := by
  cases act with
  | run i raced fault =>
    obtain ⟨task, hnone, htask, rfl⟩ := run_step h
    have hstopped : (s.take i).isStopped = true := hst
    cases task with
    | startAcceptor =>
      refine windDown_take htask (by simp) ?_
      rw [runTask, startAcceptor, if_pos hstopped]
    | retry =>
      refine windDown_take htask (by simp) ?_
      rw [runTask, startAcceptor, if_pos hstopped]
    | onAccept ec =>
      refine windDown_take htask (by simp) ?_
      rw [runTask, onAccept, if_pos hstopped]
    | stop =>
      have hcount := count_take htask .stop
      rw [if_pos rfl] at hcount
      have hlen := length_take htask
      have hvisits : s.visitsLeft = 0 := by rw [visitsLeft, hnone]
      have hmul : (s.owed.toNat + ((s.take i).queue.count .stop + 1)) * (s.sessions.length + 2) =
          (s.owed.toNat + (s.take i).queue.count .stop) * (s.sessions.length + 2) +
            (s.sessions.length + 2) := by rw [← Nat.add_assoc, Nat.succ_mul]
      simp only [windDown, hcount, hlen, hvisits, hmul]
      simp only [runTask, stopTask, visitsLeft, take]
      omega
    | erase id =>
      have hcount := count_take htask .stop
      rw [if_neg (by simp), Nat.add_zero] at hcount
      have hlen := length_take htask
      have hle : (s.sessions.erase id).length + 2 ≤ s.sessions.length + 2 :=
        Nat.add_le_add_right List.length_erase_le 2
      have hmul := Nat.mul_le_mul_left (s.owed.toNat + (s.take i).queue.count .stop) hle
      simp only [windDown, visitsLeft, hcount, hlen]
      simp only [runTask, eraseTask, take] at hmul ⊢
      omega
  | stopVisit id =>
    obtain ⟨rest, hs, hid, rfl⟩ := stopVisit_step h
    have hlen : (rest.erase id).length + 1 = rest.length := by
      rw [List.length_erase_of_mem hid]
      have := List.length_pos_of_mem hid
      omega
    simp only [windDown, visitsLeft, stopVisit, hs]
    omega
  | stopFinish =>
    obtain ⟨hs, rfl⟩ := stopFinish_step h
    have hmul := Nat.mul_le_mul_left (s.owed.toNat + s.queue.count .stop)
      (Nat.add_le_add_right (Nat.zero_le s.sessions.length) 2)
    simp only [windDown, visitsLeft, stopFinish, hs, List.length_nil]
    omega
  | acceptDone ec =>
    simp only [step] at h
    split at h
    · cases h
      exact windDown_post (by simp) rfl rfl rfl rfl (by simp only [post]; omega)
    · cases h
  | timerFires =>
    simp only [step] at h
    split at h
    · cases h
      exact windDown_post (by simp) rfl rfl rfl rfl (by simp only [post]; omega)
    · cases h
  | release id =>
    simp only [step] at h
    split at h
    · rename_i hid
      cases h
      refine windDown_post (by simp) rfl rfl rfl rfl ?_
      have hlen := List.length_erase_of_mem hid
      have := List.length_pos_of_mem hid
      simp only [post, hlen]
      omega
    · cases h
  | stopFlag => simp [step, hst] at h
  | stopPost =>
    simp only [step] at h
    split at h
    · rename_i howed
      cases h
      simp only [windDown, visitsLeft, post, List.count_append, List.count_singleton,
        List.length_append, List.length_singleton, howed, Bool.toNat_true, Bool.toNat_false,
        beq_self_eq_true, if_true, Nat.zero_add, Nat.add_comm 1]
      omega
    · cases h

/-! ## The end -/

/-- The steps that are bound to come, releases apart: closing the acceptor ends the accept in
    progress. -/
def Due (s : Server) : ServerAct → Prop
  | .run _ _ _ | .stopVisit _ | .stopFinish | .timerFires | .stopPost => True
  | .acceptDone _ => s.acceptorOpen = false
  | .release _ | .stopFlag => False

/-- Nothing is in progress on the listening side. -/
structure AtEnd (s : Server) : Prop where
  queue : s.queue = []
  accepting : s.accepting = 0
  retrying : s.retrying = 0
  owed : s.owed = false
  stopping : s.stopping = none
  workGuard : s.workGuard = false
  acceptorOpen : s.acceptorOpen = false
  sessions : s.sessions = []

/-- No task, no timer and no call of `Stop` is under way. -/
structure Quiet (s : Server) : Prop where
  queue : s.queue = []
  retrying : s.retrying = 0
  owed : s.owed = false
  stopping : s.stopping = none

theorem AtEnd.quiet {s : Server} (h : AtEnd s) : Quiet s :=
  ⟨h.queue, h.retrying, h.owed, h.stopping⟩

/-- Without tasks and timers the listening side waits for the next client, if it waits at all. -/
theorem blocked_of_quiet {s : Server} (h : Quiet s)
    (haccept : s.accepting = 0 ∨ s.acceptorOpen = true) (act : ServerAct) (t : Server)
    (hdue : Due s act) : s.step act ≠ some t := by
  intro hstep
  cases act with
  | run => simp [step, h.queue] at hstep
  | stopVisit => simp [step, h.stopping] at hstep
  | stopFinish => simp [step, h.stopping] at hstep
  | acceptDone =>
    rcases haccept with hnone | hopen
    · simp [step, hnone] at hstep
    · exact Bool.noConfusion (hdue.symm.trans hopen)
  | timerFires => simp [step, h.retrying] at hstep
  | stopPost => simp [step, h.owed] at hstep
  | stopFlag => exact hdue
  | release => exact hdue

theorem quiet_of_blocked {s : Server}
    (h : ∀ act t, Due s act → (∀ i raced fault, act = .run i raced fault → fault = none) →
      s.step act ≠ some t) : Quiet s := by
  have hstopping : s.stopping = none := by
    cases hs : s.stopping with
    | none => rfl
    | some rest =>
      cases rest with
      | nil =>
        refine absurd ?_ (h .stopFinish s.stopFinish trivial (by simp))
        rw [step, if_pos hs]
      | cons id rest =>
        refine absurd ?_ (h (.stopVisit id) (s.stopVisit id (id :: rest)) trivial (by simp))
        simp only [step, hs]
        rw [if_pos List.mem_cons_self]
  have hqueue : s.queue = [] := by
    cases hq : s.queue with
    | nil => rfl
    | cons task rest =>
      refine absurd ?_ (h (.run 0 false none) ((s.take 0).runTask false none task) trivial ?_)
      · simp only [step, hstopping, hq]
        rfl
      · rintro _ _ _ ⟨⟩
        rfl
  have howed : s.owed = false := by
    cases ho : s.owed with
    | false => rfl
    | true =>
      refine absurd ?_ (h .stopPost ({ s with owed := false }.post .stop) trivial (by simp))
      rw [step, if_pos ho]
  have hretrying : s.retrying = 0 := by
    by_contra hne
    refine absurd ?_ (h .timerFires ({ s with retrying := s.retrying - 1 }.post .retry) trivial
      (by simp))
    rw [step, if_pos (Nat.pos_of_ne_zero hne)]
  exact ⟨hqueue, hretrying, howed, hstopping⟩

/-- A stopped server that has no more to do has come to its end. -/
theorem atEnd_of_blocked {s : Server} (hreg : RegInv s) (hinv : StopInv s)
    (hst : s.isStopped = true)
    (h : ∀ act t, Due s act → (∀ i raced fault, act = .run i raced fault → fault = none) →
      s.step act ≠ some t) : AtEnd s := by
  obtain ⟨hqueue, hretrying, howed, hstopping⟩ := quiet_of_blocked h
  have hguard : s.workGuard = false := by
    rcases hinv.pending hst with ho | hq | hs | hg
    · rw [howed] at ho
      cases ho
    · rw [hqueue] at hq
      cases hq
    · exact absurd hstopping hs
    · exact hg
  have hclosed := hinv.closed (Or.inr hguard)
  have haccepting : s.accepting = 0 := by
    by_contra hne
    refine absurd ?_ (h (.acceptDone true)
      ({ s with accepting := s.accepting - 1 }.post (.onAccept true)) hclosed (by simp))
    rw [step, if_pos (Nat.pos_of_ne_zero hne)]
  exact ⟨hqueue, haccepting, hretrying, howed, hstopping, hguard, hclosed, (hreg.emptied hguard).1⟩

end Server

end Zem
