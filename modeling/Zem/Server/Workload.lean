import Zem.Server.AcceptLoop
import Zem.Server.Stopping

/-!
# What a server has to do

A server that runs makes retry timers and sessions out of the tasks in its queue, and they post
tasks in turn.  Only a client that connects adds to that from outside.

* `busy`, `busy_step` — the work of a server that runs, which every step of its own lessens.
* `toDo`, `toDo_step` — the same for any server; a server that stops has `windDown` left.
* `room`, `room_step` — how many sessions there will be, if no other client connects.
* `Waiting` — nothing is left but to wait for the next client; `waiting_of_blocked`.
-/

set_option autoImplicit false

namespace Zem

/-- The completion of an accept. -/
def ServerTask.isOnAccept : ServerTask → Bool
  | .onAccept _ => true
  | .startAcceptor | .retry | .stop | .erase _ => false

namespace Server

/-! ## A server that runs -/

/-- Timers and sessions outweigh the tasks they post, and completed accepts the timers and sessions
    they make. -/
def busy (s : Server) : Nat :=
  s.queue.length + 2 * (s.queue.countP ServerTask.isOnAccept + s.retrying + s.live.length)

/-- The steps that neither a client nor a signal decides on. -/
def Bounded (s : Server) : ServerAct → Prop
  | .run _ _ _ | .stopVisit _ | .stopFinish | .timerFires | .release _ | .stopPost => True
  | .acceptDone _ => s.acceptorOpen = false
  | .stopFlag => False

theorem busy_take {s : Server} {i : Nat} {task : ServerTask} (h : s.queue[i]? = some task) :
    s.busy = (s.take i).busy + 1 + 2 * task.isOnAccept.toNat := by
  have hlen := length_take h
  have hcount := countP_take h ServerTask.isOnAccept
  simp only [busy, hlen, hcount]
  simp only [take]
  cases task.isOnAccept <;> simp <;> omega

theorem busy_post {s : Server} {task : ServerTask} (h : task.isOnAccept = false) :
    (s.post task).busy = s.busy + 1 := by
  simp only [busy, post, List.length_append, List.length_singleton, List.countP_append,
    List.countP_singleton, h, Bool.false_eq_true, if_false]
  omega

theorem busy_startAcceptor (s : Server) :
    s.startAcceptor.busy = s.busy ∧ s.startAcceptor.nextId = s.nextId := by
  unfold startAcceptor
  split <;> exact ⟨rfl, rfl⟩

/-- An accepted socket becomes at most one session. -/
theorem busy_onAccepted (fault : Option AcceptFault) (s : Server) :
    (s.onAccepted fault).busy ≤ s.busy + 2 ∧
      (s.onAccepted fault).nextId + (s.onAccepted fault).busy ≤ s.nextId + (s.busy + 3) := by
  unfold onAccepted
  split
  · omega
  simp only
  split
  · simp only [busy]
    omega
  split
  · have hbusy : busy { s with nextId := s.nextId + 1 } = s.busy := rfl
    rw [busy_post rfl, hbusy]
    simp only [post]
    omega
  · have henter : busy { s with
        nextId := s.nextId + 1
        live := s.live ++ [s.nextId]
        sessions := s.sessions ++ [s.nextId]
        registered := s.registered ++ [s.nextId] } = s.busy + 2 := by
      simp only [busy, List.length_append, List.length_singleton]
      omega
    split
    · rw [henter]
      simp only
      omega
    · obtain ⟨hbusy, hnext⟩ := busy_startAcceptor { s with
        nextId := s.nextId + 1
        live := s.live ++ [s.nextId]
        sessions := s.sessions ++ [s.nextId]
        registered := s.registered ++ [s.nextId] }
      rw [hbusy, hnext, henter]
      simp only
      omega

theorem busy_onAccept (ec raced : Bool) (fault : Option AcceptFault) (s : Server) :
    (s.onAccept ec raced fault).busy ≤ s.busy + 2 ∧
      (s.onAccept ec raced fault).nextId + (s.onAccept ec raced fault).busy ≤
        s.nextId + (s.busy + 3) := by
  have hbody : ∀ u : Server, u.busy = s.busy → u.nextId = s.nextId →
      (if ec then { u with retrying := u.retrying + 1 } else u.onAccepted fault).busy ≤ s.busy + 2 ∧
        (if ec then { u with retrying := u.retrying + 1 } else u.onAccepted fault).nextId +
          (if ec then { u with retrying := u.retrying + 1 } else u.onAccepted fault).busy ≤
            s.nextId + (s.busy + 3) := by
    intro u hbusy hnext
    cases ec with
    | true =>
      have hretry : busy { u with retrying := u.retrying + 1 } = s.busy + 2 := by
        rw [← hbusy]
        simp only [busy]
        omega
      rw [if_pos rfl, hretry]
      simp only [hnext]
      omega
    | false =>
      rw [if_neg (by simp), ← hbusy, ← hnext]
      exact busy_onAccepted fault u
  unfold onAccept
  split
  · simp only [busy]
    omega
  cases raced with
  | true => exact hbody _ rfl rfl
  | false => exact hbody s rfl rfl

/-- **A server that runs gets on with its work**, and makes no more sessions than it has tasks
    for. -/
theorem busy_step {s t : Server} {act : ServerAct} (hreg : RegInv s) (hinv : StopInv s)
    (hst : s.isStopped = false) (hact : Bounded s act) (h : s.step act = some t) :
    t.busy < s.busy ∧ t.nextId + t.busy ≤ s.nextId + s.busy := by
  have hno : ¬ (s.owed = true ∨ .stop ∈ s.queue ∨ s.stopping ≠ none ∨ s.workGuard = false) := by
    intro hstop
    rw [hreg.stopped hstop] at hst
    cases hst
  simp only [not_or, ne_eq, not_not] at hno
  obtain ⟨howed, hqueue, hstopping, _⟩ := hno
  cases act with
  | run i raced fault =>
    obtain ⟨task, _, htask, rfl⟩ := run_step h
    have htake := busy_take htask
    cases task with
    | startAcceptor | retry =>
      obtain ⟨hbusy, hnext⟩ := busy_startAcceptor (s.take i)
      simp only [ServerTask.isOnAccept, Bool.toNat_false] at htake
      simp only [runTask, hbusy, hnext]
      simp only [take] at htake ⊢
      omega
    | onAccept ec =>
      obtain ⟨hbusy, hnext⟩ := busy_onAccept ec raced fault (s.take i)
      simp only [ServerTask.isOnAccept, Bool.toNat_true] at htake
      simp only [runTask]
      have hsame : (s.take i).nextId = s.nextId := rfl
      omega
    | stop => exact absurd (List.mem_of_getElem? htask) hqueue
    | erase id =>
      have hbusy : ((s.take i).eraseTask id).busy = (s.take i).busy := rfl
      simp only [ServerTask.isOnAccept, Bool.toNat_false] at htake
      simp only [runTask, hbusy]
      simp only [eraseTask, take] at htake ⊢
      omega
  | stopVisit id =>
    obtain ⟨rest, hs, _⟩ := stopVisit_step h
    rw [hstopping] at hs
    cases hs
  | stopFinish =>
    obtain ⟨hs, _⟩ := stopFinish_step h
    rw [hstopping] at hs
    cases hs
  | acceptDone ec =>
    rw [hinv.shut hact] at hst
    cases hst
  | timerFires =>
    simp only [step] at h
    split at h
    · cases h
      rw [busy_post rfl]
      simp only [busy, post]
      omega
    · cases h
  | release id =>
    simp only [step] at h
    split at h
    · rename_i hid
      cases h
      have hlen := List.length_erase_of_mem hid
      have hpos := List.length_pos_of_mem hid
      rw [busy_post rfl]
      simp only [busy, post, hlen]
      omega
    · cases h
  | stopFlag => exact hact.elim
  | stopPost => simp [step, howed] at h

/-! ## Any server -/

/-- What a server that runs has to do goes before what a server that stops has. -/
def toDo (s : Server) : Nat × Nat := (if s.isStopped then 0 else s.busy, s.windDown)

/-- The sessions made, and those that can still be made without another client. -/
def room (s : Server) : Nat := s.nextId + if s.isStopped then 0 else s.busy

/-- A server that is stopped makes no sessions. -/
theorem stopped_nextId {s t : Server} {act : ServerAct} (hst : s.isStopped = true)
    (h : s.step act = some t) : t.nextId = s.nextId := by
  cases act with
  | run i raced fault =>
    obtain ⟨task, _, _, rfl⟩ := run_step h
    have hstopped : (s.take i).isStopped = true := hst
    cases task with
    | startAcceptor | retry => exact (busy_startAcceptor (s.take i)).2
    | onAccept ec =>
      rw [runTask, onAccept, if_pos hstopped]
      rfl
    | stop | erase => rfl
  | stopVisit id =>
    obtain ⟨_, _, _, rfl⟩ := stopVisit_step h
    rfl
  | stopFinish =>
    obtain ⟨_, rfl⟩ := stopFinish_step h
    rfl
  | acceptDone | timerFires | release | stopPost =>
    simp only [step] at h
    split at h <;> cases h
    rfl
  | stopFlag => simp [step, hst] at h

theorem toDo_step {s t : Server} {act : ServerAct} (hreg : RegInv s) (hinv : StopInv s)
    (hact : Bounded s act) (h : s.step act = some t) :
    Prod.Lex (· < ·) (· < ·) t.toDo s.toDo := by
  cases hst : s.isStopped with
  | true =>
    simp only [toDo, (stopped_step hst h).1, hst, if_true]
    exact .right _ (windDown_step hst h)
  | false =>
    have hless := (busy_step hreg hinv hst hact h).1
    refine .left _ _ ?_
    simp only [hst, Bool.false_eq_true, if_false]
    split <;> omega

theorem room_step {s t : Server} {act : ServerAct} (hreg : RegInv s) (hinv : StopInv s)
    (hact : Bounded s act) (h : s.step act = some t) : t.room ≤ s.room := by
  cases hst : s.isStopped with
  | true =>
    simp only [room, (stopped_step hst h).1, hst, if_true, stopped_nextId hst h, Nat.le_refl]
  | false =>
    have hle := (busy_step hreg hinv hst hact h).2
    simp only [room, hst, Bool.false_eq_true, if_false]
    split <;> omega

/-! ## At rest -/

/-- The server runs, and waits for the next client, or for none. -/
structure Waiting (s : Server) : Prop where
  running : s.isStopped = false
  quiet : Quiet s
  workGuard : s.workGuard = true
  acceptorOpen : s.acceptorOpen = true

/-- A server that runs and has no more to do waits for the next client. -/
theorem waiting_of_blocked {s : Server} (hreg : RegInv s) (hinv : StopInv s)
    (hst : s.isStopped = false)
    (h : ∀ act t, Due s act → (∀ i raced fault, act = .run i raced fault → fault = none) →
      s.step act ≠ some t) : Waiting s := by
  refine ⟨hst, quiet_of_blocked h, ?_, ?_⟩
  · by_contra hg
    rw [hreg.stopped (Or.inr (Or.inr (Or.inr (Bool.not_eq_true _ ▸ hg))))] at hst
    cases hst
  · by_contra ho
    rw [hinv.shut (Bool.not_eq_true _ ▸ ho)] at hst
    cases hst

end Server

end Zem
