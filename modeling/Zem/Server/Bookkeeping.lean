import Zem.Server.ControlBlock

/-!
# What sessions leave behind

The entry of a session goes with the session, but its control block owns the deleter, the deleter
owns `*wp_holder`, and `*wp_holder` refers to the control block.

* `BlockInv`, `blockInv_step`, `blockInv_run` — the references to every session, after one step and
  after every run.
* `Effect`, `step_effect` — which session a step deletes, and to which it makes a shared pointer.
* `bookkeeping_released_iff` — when nothing of a session is left once it is over.
* `left_grows` — what is left after any number of clients.
-/

set_option autoImplicit false

namespace Zem

/-! ## The references of all sessions -/

namespace Server

/-- The references to session `id` that its own objects do not own: the shared pointers or the task
    of its deleter are there for the session, its entry and the shared pointers for the control
    block, and the task for the holder. -/
def outs (s : Server) (id : Nat) : SessionNode → Nat :=
  outside (s.live.count id + s.queue.count (.erase id)) (s.sessions.count id + s.live.count id)
    (s.queue.count (.erase id))

theorem startAcceptor_same (s : Server) :
    s.startAcceptor.outs = s.outs ∧ s.startAcceptor.nextId = s.nextId ∧
      s.startAcceptor.deleted = s.deleted := by
  unfold startAcceptor
  split
  · exact ⟨rfl, rfl, rfl⟩
  · exact ⟨rfl, rfl, rfl⟩

theorem nextId_onAccepted (s : Server) (fault : Option AcceptFault) (made : Bool) :
    s.nextId ≤ (s.onAccepted fault).nextId ∧
      (AcceptFault.points fault made = true → s.nextId < (s.onAccepted fault).nextId) := by
  cases fault with
  | none => simp [onAccepted, (startAcceptor_same _).2.1]
  | some fault => cases fault <;> simp [onAccepted, post, AcceptFault.points]

theorem outs_take {s : Server} {i : Nat} {task : ServerTask} (htask : s.queue[i]? = some task)
    (hne : ∀ id, task ≠ .erase id) : (s.take i).outs = s.outs := by
  funext id
  have hcount := count_take htask (.erase id)
  rw [if_neg (hne id), Nat.add_zero] at hcount
  rw [outs, outs, hcount]
  rfl

theorem outs_post (s : Server) {task : ServerTask} (hne : ∀ id, task ≠ .erase id) :
    (s.post task).outs = s.outs := by
  funext id
  simp [outs, post, hne id]

/-- The task of a deleter has the session and the holder. -/
theorem outs_postErase (s : Server) (id id' : Nat) :
    (s.post (.erase id)).outs id' =
      if id' = id then
        outside (s.outs id' .session + 1) (s.outs id' .block) (s.outs id' .holder + 1)
      else s.outs id' := by
  split
  · rename_i heq
    simp [outs, outside, post, heq, Nat.add_assoc]
  · rename_i hne
    simp [outs, post, Ne.symm hne]

/-- A session that is registered has a reference from its shared pointers, and its control block
    one more from its entry. -/
theorem outs_enter {s : Server} (hnew : s.outs s.nextId = outside 0 0 0) (id : Nat) :
    outs { s with
      nextId := s.nextId + 1
      live := s.live ++ [s.nextId]
      sessions := s.sessions ++ [s.nextId]
      registered := s.registered ++ [s.nextId] } id =
        if id = s.nextId then outside 1 2 0 else s.outs id := by
  by_cases heq : id = s.nextId
  · subst heq
    have hblock := congrFun hnew .block
    have hholder := congrFun hnew .holder
    simp only [outs, outside] at hblock hholder
    have hlive : s.live.count s.nextId = 0 := by omega
    have hentry : s.sessions.count s.nextId = 0 := by omega
    simp [outs, hlive, hentry, hholder]
  · have hne : ¬ s.nextId = id := fun h => heq h.symm
    simp [outs, heq, hne]

/-- What `OnAccept` does to the references: those of the session it makes are new. -/
theorem outs_onAccepted {s : Server} (fault : Option AcceptFault)
    (hnew : s.outs s.nextId = outside 0 0 0) (id : Nat) :
    (s.onAccepted fault).outs id =
      if id = s.nextId then BookOf.acceptedOuts fault else s.outs id := by
  have hsame : s.outs id = if id = s.nextId then outside 0 0 0 else s.outs id := by
    split
    · rename_i heq
      rw [heq, hnew]
    · rfl
  cases fault with
  | none => exact (congrFun (startAcceptor_same _).1 id).trans (outs_enter hnew id)
  | some fault =>
    cases fault with
    | startHandling => exact outs_enter hnew id
    | remoteEndpoint | makeSession | holder => exact hsame
    | registration =>
      refine (outs_postErase { s with nextId := s.nextId + 1 } s.nextId id).trans ?_
      have hfields : outs { s with nextId := s.nextId + 1 } id = s.outs id := rfl
      rw [hfields]
      split
      · rename_i heq
        rw [heq, hnew]
        rfl
      · rfl

end Server

namespace ControlBlocks

structure BlockInv (s : ControlBlocks) : Prop where
  once : ∀ id, s.server.made id = if id < s.server.nextId then 1 else 0
  reg : s.gone = false → Server.RegInv s.server
  ended : s.gone = true → s.server.sessions = [] ∧ ∀ id, .erase id ∉ s.server.queue
  known : ∀ id ∈ s.pointed, id < s.server.nextId
  held : ∀ id, 0 < s.server.outs id .block → id ∈ s.pointed
  book : ∀ id, BookOf (id ∈ s.pointed) (s.server.outs id) (s.books id)

theorem blockInv_init : BlockInv init := by
  have houts : ∀ id, init.server.outs id = fun _ => 0 := by
    intro id
    funext n
    cases n <;> simp [Server.outs, outside, init, Server.init]
  refine ⟨Server.regInv_init.once, fun _ => Server.regInv_init, fun h => ?_, fun id h => ?_,
    fun id h => ?_, fun id => ?_⟩
  · cases h
  · cases h
  · rw [houts] at h
    cases h
  · have hnot : id ∉ init.pointed := List.not_mem_nil
    rw [houts]
    exact ⟨RefHeap.exact_empty, fun h => absurd h hnot, fun h => absurd h hnot,
      fun h => absurd h hnot, fun _ _ => rfl⟩

namespace BlockInv

variable {s : ControlBlocks} {t : Server}

/-- Nothing refers to the session that is made next. -/
theorem outs_next (h : BlockInv s) : s.server.outs s.server.nextId = outside 0 0 0 := by
  have hnot : s.server.nextId ∉ s.pointed := fun hm => Nat.lt_irrefl _ (h.known _ hm)
  have hblock : s.server.outs s.server.nextId .block = 0 := by
    have := mt (h.held s.server.nextId) hnot
    omega
  have hmade := h.once s.server.nextId
  rw [if_neg (Nat.lt_irrefl _)] at hmade
  unfold Server.made at hmade
  simp only [Server.outs, outside] at hblock
  rw [Server.outs, hblock]
  congr 1
  · omega
  · omega

/-- A step that changes the references to one session, and those only in its book. -/
theorem change (h : BlockInv s) (hg : s.gone = false) (hreg : Server.RegInv t)
    (hnext : t.nextId = s.server.nextId) (id : Nat) (f : Book → Book)
    (hother : ∀ id', id' ≠ id → t.outs id' = s.server.outs id')
    (hblock : t.outs id .block ≤ s.server.outs id .block)
    (hbook : BookOf (id ∈ s.pointed) (t.outs id) (f (s.books id))) :
    BlockInv { s.update id f with server := t } := by
  refine ⟨hreg.once, fun _ => hreg, fun hg' => ?_, fun id' hid => ?_, fun id' hid => ?_,
    fun id' => ?_⟩
  · exact absurd (hg.symm.trans hg') Bool.false_ne_true
  · exact hnext ▸ h.known id' hid
  · have hid : 0 < t.outs id' .block := hid
    apply h.held id'
    by_cases heq : id' = id
    · subst heq
      exact Nat.lt_of_lt_of_le hid hblock
    · rwa [hother id' heq] at hid
  · show BookOf (id' ∈ s.pointed) (t.outs id') (Function.update s.books id (f (s.books id)) id')
    by_cases heq : id' = id
    · subst heq
      rw [Function.update_self]
      exact hbook
    · rw [Function.update_of_ne heq, hother id' heq]
      exact h.book id'

/-- A step that changes no reference. -/
theorem same (h : BlockInv s) (hg : s.gone = false) (hreg : Server.RegInv t)
    (hnext : t.nextId = s.server.nextId) (houts : t.outs = s.server.outs) :
    BlockInv { s with server := t } := by
  have hchange := h.change hg hreg hnext 0 id (fun id' _ => by rw [houts])
    (by rw [houts]) (by rw [houts]; exact h.book 0)
  simpa only [update, id_eq, Function.update_eq_self] using hchange

/-- `OnAccept` of an accepted socket. -/
theorem onAccepted (h : BlockInv s) (hg : s.gone = false) {v : Server}
    (hnext : v.nextId = s.server.nextId) (houts : v.outs = s.server.outs)
    (fault : Option AcceptFault) (made : Bool) (hreg : Server.RegInv (v.onAccepted fault)) :
    BlockInv { s.onAccepted fault made with server := v.onAccepted fault } := by
  have hnew : v.outs v.nextId = outside 0 0 0 := by
    rw [houts, hnext]
    exact h.outs_next
  have hafter := Server.outs_onAccepted fault hnew
  rw [hnext, houts] at hafter
  have hfresh : s.server.nextId ∉ s.pointed := fun hm => Nat.lt_irrefl _ (h.known _ hm)
  have hpointed : ∀ id, id ∈ (s.onAccepted fault made).pointed ↔
      id ∈ s.pointed ∨ id = s.server.nextId ∧ AcceptFault.points fault made = true := by
    intro id
    unfold ControlBlocks.onAccepted
    cases AcceptFault.points fault made <;> simp
  refine ⟨hreg.once, fun _ => hreg, fun hg' => ?_, fun id hid => ?_, fun id hid => ?_, fun id => ?_⟩
  · exact absurd (hg.symm.trans hg') Bool.false_ne_true
  · have hle := Server.nextId_onAccepted v fault made
    rw [hnext] at hle
    rcases (hpointed id).mp hid with hid | ⟨rfl, hmade⟩
    · exact Nat.lt_of_lt_of_le (h.known id hid) hle.1
    · exact hle.2 hmade
  · have hid : 0 < (v.onAccepted fault).outs id .block := hid
    apply (hpointed id).mpr
    by_cases heq : id = s.server.nextId
    · subst heq
      rw [hafter, if_pos rfl] at hid
      exact Or.inr ⟨rfl, BookOf.points_of_block hid⟩
    · rw [hafter, if_neg heq] at hid
      exact Or.inl (h.held id hid)
  · show BookOf (id ∈ (s.onAccepted fault made).pointed) ((v.onAccepted fault).outs id)
      (Function.update s.books s.server.nextId (Book.accepted fault made) id)
    rw [hpointed]
    by_cases heq : id = s.server.nextId
    · subst heq
      rw [Function.update_self, hafter, if_pos rfl]
      have hiff : (s.server.nextId ∈ s.pointed ∨
          s.server.nextId = s.server.nextId ∧ AcceptFault.points fault made = true) ↔
          AcceptFault.points fault made = true := by simp [hfresh]
      rw [hiff]
      exact BookOf.accepted fault made
    · rw [Function.update_of_ne heq, hafter, if_neg heq]
      simpa [heq] using h.book id

theorem release (h : BlockInv s) (hg : s.gone = false) {id : Nat} (hid : id ∈ s.server.live)
    (hreg : Server.RegInv ({ s.server with live := s.server.live.erase id }.post (.erase id))) :
    BlockInv { s.update id Book.release with
      server := { s.server with live := s.server.live.erase id }.post (.erase id) } := by
  have hpos := List.count_pos_iff.mpr hid
  have hself := List.count_erase_self (a := id) (l := s.server.live)
  have hblock : s.server.sessions.count id + (s.server.live.count id - 1) + 1 =
      s.server.sessions.count id + s.server.live.count id := by omega
  have hsession : s.server.live.count id - 1 + (s.server.queue.count (.erase id) + 1) =
      s.server.live.count id + s.server.queue.count (.erase id) := by omega
  have houts : Server.outs ({ s.server with live := s.server.live.erase id }.post (.erase id)) id =
      outside (s.server.live.count id + s.server.queue.count (.erase id))
        (s.server.sessions.count id + (s.server.live.count id - 1))
        (s.server.queue.count (.erase id) + 1) := by
    simp [Server.outs, Server.post, hself, hsession]
  refine h.change hg hreg rfl id Book.release (fun id' hne => ?_) ?_ ?_
  · have hne' : ¬ id = id' := fun h => hne h.symm
    simp [Server.outs, Server.post, List.count_erase_of_ne hne, hne']
  · rw [houts]
    simp only [Server.outs, outside]
    omega
  · rw [houts]
    apply BookOf.release
    rw [hblock]
    exact h.book id

theorem eraseTask (h : BlockInv s) (hg : s.gone = false) {i id : Nat}
    (htask : s.server.queue[i]? = some (.erase id))
    (hreg : Server.RegInv ((s.server.take i).eraseTask id)) :
    BlockInv { s.eraseTask id with server := (s.server.take i).eraseTask id } := by
  have hcount := Server.count_take htask (.erase id)
  rw [if_pos rfl] at hcount
  have hentry : s.server.sessions.count id =
      (s.server.sessions.erase id).count id + if id ∈ s.server.sessions then 1 else 0 := by
    rw [List.count_erase_self]
    split
    · rename_i hm
      have := List.count_pos_iff.mpr hm
      omega
    · rename_i hm
      rw [List.count_eq_zero_of_not_mem hm]
  have houts : Server.outs ((s.server.take i).eraseTask id) id =
      outside (s.server.live.count id + (s.server.take i).queue.count (.erase id))
        ((s.server.sessions.erase id).count id + s.server.live.count id)
        ((s.server.take i).queue.count (.erase id)) := rfl
  refine h.change hg hreg rfl id _ (fun id' hne => ?_) ?_ ?_
  · have hother := Server.count_take htask (.erase id')
    rw [if_neg (by simpa using hne.symm), Nat.add_zero] at hother
    rw [Server.outs, Server.outs, hother]
    simp only [Server.eraseTask, Server.take, List.count_erase_of_ne hne]
  · rw [houts]
    simp only [Server.outs, outside]
    omega
  · rw [houts]
    apply BookOf.eraseTask
    have hbook := h.book id
    rw [Server.outs, hcount, hentry] at hbook
    simpa [Nat.add_assoc, Nat.add_comm, Nat.add_left_comm] using hbook

/-- `m_sessions.clear()`, in the task of `Stop` or where the server goes. -/
theorem book_clear (h : BlockInv s) (hg : s.gone = false) (hsessions : t.sessions = [])
    (hlive : t.live = s.server.live)
    (hqueue : ∀ id, t.queue.count (.erase id) = s.server.queue.count (.erase id)) (id : Nat) :
    BookOf (id ∈ s.pointed) (t.outs id) (s.clear.books id) ∧
      t.outs id .block ≤ s.server.outs id .block := by
  have hnodup := List.nodup_iff_count_le_one.mp (h.reg hg).nodup id
  have hentry : s.server.sessions.count id = if id ∈ s.server.sessions then 1 else 0 := by
    split
    · rename_i hm
      have := List.count_pos_iff.mpr hm
      omega
    · rename_i hm
      exact List.count_eq_zero_of_not_mem hm
  have houts : t.outs id = outside
      (s.server.live.count id + s.server.queue.count (.erase id)) (s.server.live.count id)
      (s.server.queue.count (.erase id)) := by
    rw [Server.outs, hsessions, hlive, hqueue, List.count_nil, Nat.zero_add]
  rw [houts]
  refine ⟨?_, Nat.le_add_left _ _⟩
  apply BookOf.dropEntry
  have hbook := h.book id
  rw [Server.outs, hentry, Nat.add_comm (ite _ _ _)] at hbook
  simpa using hbook

theorem stopFinish (h : BlockInv s) (hg : s.gone = false)
    (hreg : Server.RegInv s.server.stopFinish) :
    BlockInv { s.clear with server := s.server.stopFinish } := by
  have hclear := h.book_clear (t := s.server.stopFinish) hg rfl rfl fun _ => rfl
  refine ⟨hreg.once, fun _ => hreg, fun hg' => ?_, h.known, fun id hid => ?_,
    fun id => (hclear id).1⟩
  · exact absurd (hg.symm.trans hg') Bool.false_ne_true
  · exact h.held id (Nat.lt_of_lt_of_le hid (hclear id).2)

/-- The server goes, and its queue with it, in which no session waits for its deletion. -/
theorem destroy (h : BlockInv s) (hg : s.gone = false)
    (hqueue : ∀ id, .erase id ∉ s.server.queue) : BlockInv s.destroy := by
  have hcount : ∀ id, s.server.queue.count (.erase id) = 0 :=
    fun id => List.count_eq_zero_of_not_mem (hqueue id)
  have hclear := h.book_clear (t := s.destroy.server) hg rfl rfl fun id => (hcount id).symm
  refine ⟨fun id => ?_, fun hg' => ?_, fun _ => ⟨rfl, fun id => List.not_mem_nil⟩, h.known,
    fun id hid => h.held id (Nat.lt_of_lt_of_le hid (hclear id).2), fun id => (hclear id).1⟩
  · have hmade : s.destroy.server.made id = s.server.made id := by
      simp [Server.made, ControlBlocks.destroy, hcount]
    rw [hmade]
    exact h.once id
  · cases hg'

theorem releaseGone (h : BlockInv s) (hg : s.gone = true) {id : Nat} (hid : id ∈ s.server.live) :
    BlockInv (s.releaseGone id) := by
  obtain ⟨hsessions, hqueue⟩ := h.ended hg
  have hcount : ∀ id', s.server.queue.count (.erase id') = 0 :=
    fun id' => List.count_eq_zero_of_not_mem (hqueue id')
  have hpos := List.count_pos_iff.mpr hid
  have hself : (s.server.live.erase id).count id + 1 = s.server.live.count id := by
    rw [List.count_erase_self]
    omega
  have houts : ∀ id', (s.releaseGone id).server.outs id' = outside
      ((s.server.live.erase id).count id') ((s.server.live.erase id).count id') 0 := by
    intro id'
    simp [Server.outs, ControlBlocks.releaseGone, hsessions, hcount]
  have hwas : ∀ id', s.server.outs id' = outside (s.server.live.count id')
      (s.server.live.count id') 0 := by
    intro id'
    simp [Server.outs, hsessions, hcount]
  refine ⟨fun id' => ?_, fun hg' => ?_, fun _ => ⟨hsessions, hqueue⟩, h.known, fun id' hid' => ?_,
    fun id' => ?_⟩
  · have hmade : (s.releaseGone id).server.made id' = s.server.made id' := by
      simp only [Server.made, ControlBlocks.releaseGone, ControlBlocks.update, List.count_append,
        List.count_singleton, beq_iff_eq]
      by_cases heq : id = id'
      · subst heq
        rw [if_pos rfl]
        omega
      · rw [List.count_erase_of_ne (Ne.symm heq), if_neg heq]
        omega
    rw [hmade]
    exact h.once id'
  · exact absurd (hg'.symm.trans hg) Bool.false_ne_true
  · rw [houts] at hid'
    apply h.held id'
    rw [hwas]
    exact Nat.lt_of_lt_of_le hid' (List.erase_sublist.count_le id')
  · show BookOf (id' ∈ s.pointed) ((s.releaseGone id).server.outs id')
      (Function.update s.books id (s.books id).releaseGone id')
    have hbook := h.book id'
    rw [hwas] at hbook
    rw [houts]
    by_cases heq : id' = id
    · subst heq
      rw [Function.update_self]
      rw [← hself] at hbook
      exact hbook.releaseGone
    · rw [Function.update_of_ne heq, List.count_erase_of_ne heq]
      exact hbook

end BlockInv

/-! ## Steps and runs -/

theorem queue_any_isErase (queue : List ServerTask) :
    queue.any ServerTask.isErase = true ↔ ∃ id, .erase id ∈ queue := by
  rw [List.any_eq_true]
  constructor
  · rintro ⟨task, hm, htask⟩
    cases task with
    | erase id => exact ⟨id, hm⟩
    | startAcceptor | onAccept _ | retry | stop => cases htask
  · rintro ⟨id, hm⟩
    exact ⟨_, hm, rfl⟩

/-- The step runs the deleter of session `id` to its end: in its task, or at once where the server
    is gone. -/
def Deletes (s : ControlBlocks) (id : Nat) : BlockAct → Prop
  | .server (.run i _ _) _ => s.gone = false ∧ s.server.queue[i]? = some (.erase id)
  | .server (.release id') _ => s.gone = true ∧ id' = id
  | _ => False

/-- What a step of the server does to the books: nothing, or it is `OnAccept`, or the last shared
    pointer to a session goes, or `Stop` clears the set, or the task of a deleter runs. -/
inductive Account (s : ControlBlocks) (act : BlockAct) (u : ControlBlocks) (t : Server) : Prop where
  | quiet (hno : ∀ id, ¬ s.Deletes id act) (hu : u = s) (hnext : t.nextId = s.server.nextId)
    (houts : t.outs = s.server.outs) (hdeleted : t.deleted = s.server.deleted)
  | accept {v : Server} {fault : Option AcceptFault} {made : Bool}
    (hno : ∀ id, ¬ s.Deletes id act) (hu : u = s.onAccepted fault made)
    (ht : t = v.onAccepted fault) (hnext : v.nextId = s.server.nextId)
    (houts : v.outs = s.server.outs) (hdeleted : v.deleted = s.server.deleted)
  | release {id : Nat} (hno : ∀ id, ¬ s.Deletes id act) (hid : id ∈ s.server.live)
    (hu : u = s.update id Book.release)
    (ht : t = { s.server with live := s.server.live.erase id }.post (.erase id))
  | clear (hno : ∀ id, ¬ s.Deletes id act) (hu : u = s.clear) (ht : t = s.server.stopFinish)
  | erase {i id : Nat} (htask : s.server.queue[i]? = some (.erase id))
    (hiff : ∀ id', s.Deletes id' act ↔ id' = id) (hu : u = s.eraseTask id)
    (ht : t = (s.server.take i).eraseTask id)

/-- A step of a server that is there. -/
theorem account_cases {s : ControlBlocks} (hg : s.gone = false) {act : ServerAct} {t : Server}
    (hstep : s.server.step act = some t) (made : Bool) :
    Account s (.server act made) (s.account made act) t := by
  cases act with
  | run i raced fault =>
    obtain ⟨task, _, htask, rfl⟩ := Server.run_step hstep
    have hdeletes : ∀ id, s.Deletes id (.server (.run i raced fault) made) ↔
        task = .erase id := by
      intro id
      simp [Deletes, hg, htask]
    simp only [account, htask]
    cases task with
    | startAcceptor | retry =>
      obtain ⟨houts, hnext, hdeleted⟩ := Server.startAcceptor_same (s.server.take i)
      exact .quiet (by simp [hdeletes]) rfl hnext (houts.trans (Server.outs_take htask (by simp)))
        hdeleted
    | stop => exact .quiet (by simp [hdeletes]) rfl rfl (Server.outs_take htask (by simp)) rfl
    | erase id =>
      refine .erase htask (fun id' => ?_) rfl rfl
      rw [hdeletes, ServerTask.erase.injEq, eq_comm]
    | onAccept ec =>
      have hno : ∀ id, ¬ s.Deletes id (.server (.run i raced fault) made) := by
        simp [hdeletes]
      have htake := Server.outs_take htask (by simp)
      have hstopped : (s.server.take i).isStopped = s.server.isStopped := rfl
      simp only [Server.runTask, Server.onAccept, hstopped]
      cases ho : s.server.isStopped with
      | true =>
        cases ec with
        | true => exact .quiet hno rfl rfl htake rfl
        | false => exact .quiet hno rfl rfl htake rfl
      | false =>
        cases ec with
        | true => cases raced <;> exact .quiet hno rfl rfl htake rfl
        | false => cases raced <;> exact .accept hno rfl rfl rfl htake rfl
  | stopVisit id =>
    obtain ⟨rest, _, _, rfl⟩ := Server.stopVisit_step hstep
    exact .quiet (fun _ hdel => hdel) rfl rfl rfl rfl
  | stopFinish =>
    obtain ⟨_, rfl⟩ := Server.stopFinish_step hstep
    exact .clear (fun _ hdel => hdel) rfl rfl
  | release id =>
    simp only [Server.step] at hstep
    split at hstep
    · rename_i hid
      cases hstep
      refine .release (fun id' hdel => ?_) hid rfl rfl
      exact absurd (hg.symm.trans hdel.1) Bool.false_ne_true
    · cases hstep
  | acceptDone ec | timerFires | stopPost =>
    simp only [Server.step] at hstep
    split at hstep
    · cases hstep
      exact .quiet (fun _ hdel => hdel) rfl rfl (Server.outs_post _ (by simp)) rfl
    · cases hstep
  | stopFlag =>
    simp only [Server.step] at hstep
    split at hstep
    · cases hstep
    · cases hstep
      exact .quiet (fun _ hdel => hdel) rfl rfl rfl rfl

/-- **What a step is**: one of the server, or the end of a session whose server is gone, or the end
    of the server. -/
theorem step_cases {s t : ControlBlocks} {act : BlockAct} (h : s.step act = some t) :
    (∃ act' made v, act = .server act' made ∧ s.gone = false ∧ s.server.step act' = some v ∧
      t = { s.account made act' with server := v }) ∨
    (∃ id made, act = .server (.release id) made ∧ s.gone = true ∧ id ∈ s.server.live ∧
      t = s.releaseGone id) ∨
    (act = .destroy ∧ s.gone = false ∧ (∀ id, .erase id ∉ s.server.queue) ∧ t = s.destroy) := by
  cases act with
  | server act made =>
    simp only [step] at h
    split at h
    · rename_i hg
      cases act with
      | release id =>
        simp only at h
        split at h
        · rename_i hid
          cases h
          exact Or.inr (Or.inl ⟨id, made, rfl, hg, hid, rfl⟩)
        · cases h
      | run | stopVisit | stopFinish | acceptDone | timerFires | stopFlag | stopPost => cases h
    · rename_i hg
      split at h
      · rename_i v hv
        cases h
        exact Or.inl ⟨act, made, v, rfl, Bool.not_eq_true _ ▸ hg, hv, rfl⟩
      · cases h
  | destroy =>
    simp only [step] at h
    split at h
    · cases h
    · rename_i hno
      cases h
      simp only [not_or, Bool.not_eq_true] at hno
      refine Or.inr (Or.inr ⟨rfl, hno.1, fun id hm => ?_, rfl⟩)
      have hany := (queue_any_isErase s.server.queue).mpr ⟨id, hm⟩
      rw [hno.2.2] at hany
      cases hany

/-- **Every step preserves the invariant.** -/
theorem blockInv_step (s : ControlBlocks) (act : BlockAct) (t : ControlBlocks) (h : BlockInv s)
    (hstep : s.step act = some t) : BlockInv t := by
  rcases step_cases hstep with ⟨act, made, v, rfl, hg, hv, rfl⟩ | ⟨id, _, rfl, hg, hid, rfl⟩ |
    ⟨rfl, hg, hqueue, rfl⟩
  · have hreg := Server.regInv_step _ _ _ (h.reg hg) hv
    cases account_cases hg hv made with
    | quiet _ hu hnext houts _ =>
      rw [hu]
      exact h.same hg hreg hnext houts
    | accept _ hu ht hnext houts _ =>
      rw [hu]
      subst ht
      exact h.onAccepted hg hnext houts _ _ hreg
    | release _ hid hu ht =>
      rw [hu]
      subst ht
      exact h.release hg hid hreg
    | clear _ hu ht =>
      rw [hu]
      subst ht
      exact h.stopFinish hg hreg
    | erase htask _ hu ht =>
      rw [hu]
      subst ht
      exact h.eraseTask hg htask hreg
  · exact h.releaseGone hg hid
  · exact h.destroy hg hqueue

theorem blockInv_run {acts : List BlockAct} {s : ControlBlocks}
    (h : Runs.exec step init acts = some s) : BlockInv s :=
  Runs.exec_invariant blockInv_step blockInv_init h

/-! ## Sessions that are over -/

/-- The session has been deleted, and no task of its deleter is left. -/
def Over (s : ControlBlocks) (id : Nat) : Prop :=
  id ∈ s.server.deleted ∧ .erase id ∉ s.server.queue

/-- Of the sessions that are over neither a control block nor a holder is left. -/
def NothingLeft (s : ControlBlocks) : Prop :=
  ∀ id, s.Over id → (s.books id).count .block = 0 ∧ (s.books id).count .holder = 0

namespace BlockInv

variable {s : ControlBlocks} {id : Nat}

/-- Nothing from outside refers to a session that has been deleted. -/
theorem outs_deleted (h : BlockInv s) (hid : id ∈ s.server.deleted) :
    s.server.outs id = outside 0 0 0 ∧ s.Over id := by
  have hmade := h.once id
  have hpos := List.count_pos_iff.mpr hid
  unfold Server.made at hmade
  have hle : s.server.live.count id = 0 ∧ s.server.queue.count (.erase id) = 0 := by
    split at hmade <;> omega
  have hentry : s.server.sessions.count id = 0 := by
    apply List.count_eq_zero_of_not_mem
    cases hg : s.gone with
    | false => exact (h.reg hg).deleted_not_entry hid
    | true =>
      rw [(h.ended hg).1]
      exact List.not_mem_nil
  refine ⟨?_, hid, List.count_eq_zero.mp hle.2⟩
  rw [Server.outs, hle.1, hle.2, hentry]

/-- What is left of a session that has been deleted. -/
theorem left_of_deleted (h : BlockInv s) (hid : id ∈ s.server.deleted) :
    (s.books id).count .block = (if id ∈ s.pointed then 1 else 0) ∧
      (s.books id).count .holder = (if id ∈ s.pointed then 1 else 0) := by
  have hbook := h.book id
  rw [(h.outs_deleted hid).1] at hbook
  split
  · rename_i hp
    exact hbook.count_of_pointed hp
  · rename_i hp
    exact ⟨hbook.count_of_not_pointed hp .block, hbook.count_of_not_pointed hp .holder⟩

theorem nothingLeft_iff (h : BlockInv s) :
    s.NothingLeft ↔ ∀ id ∈ s.server.deleted, id ∉ s.pointed := by
  constructor
  · intro hleft id hid hp
    have hblock := (h.left_of_deleted hid).1
    rw [(hleft id (h.outs_deleted hid).2).1, if_pos hp] at hblock
    cases hblock
  · intro hno id hover
    have hleft := h.left_of_deleted hover.1
    rw [if_neg (hno id hover.1)] at hleft
    exact hleft

/-- A control block stays from the construction of the shared pointer on. -/
theorem block_iff (h : BlockInv s) (id : Nat) :
    0 < (s.books id).count .block ↔ id ∈ s.pointed := by
  constructor
  · intro hpos
    by_contra hp
    rw [(h.book id).count_of_not_pointed hp] at hpos
    exact hp (h.held id hpos)
  · intro hp
    rw [((h.book id).count_of_pointed hp).1]
    exact Nat.succ_pos _

end BlockInv

/-- **What a step does to the sessions**: it runs one deleter to its end, or `OnAccept` deletes the
    session it has just made, or makes a shared pointer to it, or neither. -/
inductive Effect (s t : ControlBlocks) (act : BlockAct) : Prop where
  | deletes (id : Nat) (hlt : id < s.server.nextId) (hiff : ∀ id', s.Deletes id' act ↔ id' = id)
    (hdeleted : t.server.deleted = s.server.deleted ++ [id]) (hpointed : t.pointed = s.pointed)
  | fails (hno : ∀ id, ¬ s.Deletes id act)
    (hdeleted : t.server.deleted = s.server.deleted ++ [s.server.nextId])
    (hpointed : t.pointed = s.pointed)
  | points (hno : ∀ id, ¬ s.Deletes id act) (hdeleted : t.server.deleted = s.server.deleted)
    (hpointed : t.pointed = s.pointed ++ [s.server.nextId])
  | keeps (hno : ∀ id, ¬ s.Deletes id act) (hdeleted : t.server.deleted = s.server.deleted)
    (hpointed : t.pointed = s.pointed)

theorem effect_onAccepted {s : ControlBlocks} {act : BlockAct} {v : Server}
    (hno : ∀ id, ¬ s.Deletes id act) (hnext : v.nextId = s.server.nextId)
    (hdeleted : v.deleted = s.server.deleted) (fault : Option AcceptFault) (made : Bool) :
    Effect s { s.onAccepted fault made with server := v.onAccepted fault } act := by
  cases fault with
  | none => exact .points hno ((Server.startAcceptor_same _).2.2.trans hdeleted) rfl
  | some fault =>
    cases fault with
    | startHandling => exact .points hno hdeleted rfl
    | remoteEndpoint | makeSession => exact .keeps hno hdeleted rfl
    | holder => exact .fails hno (by simp [Server.onAccepted, hdeleted, hnext]) rfl
    | registration =>
      cases made with
      | false => exact .keeps hno hdeleted rfl
      | true => exact .points hno hdeleted rfl

/-- A session that is alive or waits for its deletion has been made. -/
theorem BlockInv.lt_next {s : ControlBlocks} (h : BlockInv s) {id : Nat}
    (hmade : 0 < s.server.made id) : id < s.server.nextId := by
  by_contra hlt
  have hnone := h.once id
  rw [if_neg hlt] at hnone
  omega

theorem step_effect {s t : ControlBlocks} {act : BlockAct} (h : BlockInv s)
    (hstep : s.step act = some t) : Effect s t act := by
  rcases step_cases hstep with ⟨act, made, v, rfl, hg, hv, rfl⟩ | ⟨id, _, rfl, hg, hid, rfl⟩ |
    ⟨rfl, hg, hqueue, rfl⟩
  · cases account_cases hg hv made with
    | quiet hno hu _ _ hdeleted =>
      rw [hu]
      exact .keeps hno hdeleted rfl
    | accept hno hu ht hnext _ hdeleted =>
      rw [hu, ht]
      exact effect_onAccepted hno hnext hdeleted _ _
    | release hno _ hu ht =>
      rw [hu, ht]
      exact .keeps hno rfl rfl
    | clear hno hu ht =>
      rw [hu, ht]
      exact .keeps hno rfl rfl
    | erase htask hiff hu ht =>
      rw [hu, ht]
      refine .deletes _ (h.lt_next ?_) hiff rfl rfl
      have := List.count_pos_iff.mpr (List.mem_of_getElem? htask)
      unfold Server.made
      omega
  · refine .deletes id (h.lt_next ?_) (fun id' => by simp [Deletes, hg, eq_comm]) rfl rfl
    have := List.count_pos_iff.mpr hid
    unfold Server.made
    omega
  · exact .keeps (fun _ hdel => hdel) rfl rfl

/-- **When a step leaves nothing behind**: it deletes no session to which a shared pointer was
    made. -/
theorem nothingLeft_step {s t : ControlBlocks} {act : BlockAct} (h : BlockInv s)
    (hleft : s.NothingLeft) (hstep : s.step act = some t) :
    t.NothingLeft ↔ ∀ id, s.Deletes id act → id ∉ s.pointed := by
  rw [(blockInv_step s act t h hstep).nothingLeft_iff]
  rw [h.nothingLeft_iff] at hleft
  have hfresh : s.server.nextId ∉ s.pointed := fun hm => Nat.lt_irrefl _ (h.known _ hm)
  have hnone : (∀ id, ¬ s.Deletes id act) →
      ((∀ id, s.Deletes id act → id ∉ s.pointed) ↔ True) :=
    fun hno => iff_true_intro fun id hdel => absurd hdel (hno id)
  cases step_effect h hstep with
  | deletes id _ hiff hdeleted hpointed =>
    simp only [hdeleted, hpointed, List.mem_append, List.mem_singleton, hiff]
    constructor
    · rintro hall _ rfl
      exact hall _ (Or.inr rfl)
    · rintro hno id' (hid | rfl)
      · exact hleft id' hid
      · exact hno _ rfl
  | fails hno hdeleted hpointed =>
    simp only [hnone hno, iff_true, hdeleted, hpointed, List.mem_append, List.mem_singleton]
    rintro id (hid | rfl)
    · exact hleft id hid
    · exact hfresh
  | points hno hdeleted hpointed =>
    simp only [hnone hno, iff_true, hdeleted, hpointed, List.mem_append, List.mem_singleton, not_or]
    refine fun id hid => ⟨hleft id hid, ?_⟩
    rintro rfl
    have hpos := List.count_pos_iff.mpr hid
    refine Nat.lt_irrefl _ (h.lt_next (s := s) ?_)
    unfold Server.made
    omega
  | keeps hno hdeleted hpointed =>
    simp only [hnone hno, iff_true, hdeleted, hpointed]
    exact hleft

/-! ## Result -/

/-- **What is left of the sessions that are over.**  Nothing is, in every state of a run, exactly as
    long as the run deletes no session to which `OnAccept` has made a shared pointer.  For such a
    session the holder's weak pointer keeps the control block, and the deleter in it the holder: no
    control block that has been made is ever released. -/
theorem bookkeeping_released_iff {acts : List BlockAct} {s : ControlBlocks}
    (h : Runs.exec step init acts = some s) :
    (Runs.Visits step NothingLeft init acts ↔
      Runs.Takes step (fun s act => ∀ id, s.Deletes id act → id ∉ s.pointed) init acts) ∧
    (∀ id, 0 < (s.books id).count .block ↔ id ∈ s.pointed) ∧
    ∀ id ∈ s.pointed, s.Over id →
      (s.books id).count .block = 1 ∧ (s.books id).count .holder = 1 := by
  have hinv := blockInv_run h
  refine ⟨?_, hinv.block_iff, fun id hp hover => ?_⟩
  · refine Runs.visits_iff_takes blockInv_step (fun s act t hs hleft hstep =>
      nothingLeft_step hs hleft hstep) blockInv_init ?_ h
    rw [blockInv_init.nothingLeft_iff]
    exact fun id hid => absurd hid List.not_mem_nil
  · have hleft := hinv.left_of_deleted hover.1
    rw [if_pos hp] at hleft
    exact hleft

/-- One client is accepted and goes, and the task of the deleter runs. -/
def oneClient : List BlockAct :=
  [.server (.run 0 false none) false, .server (.acceptDone false) false,
    .server (.run 0 false none) false, .server (.release 0) false,
    .server (.run 0 false none) false]

theorem bookkeeping_released_iff_oneClient :
    ∃ s, Runs.exec step init oneClient = some s ∧
      (Runs.Visits step NothingLeft init oneClient ↔
        Runs.Takes step (fun s act => ∀ id, s.Deletes id act → id ∉ s.pointed) init oneClient) := by
  obtain ⟨s, hs⟩ : ∃ s, Runs.exec step init oneClient = some s := ⟨_, rfl⟩
  exact ⟨s, hs, (bookkeeping_released_iff hs).1⟩

/-- **A session that is over keeps its control block**: a weak pointer to it and an owner of the
    holder are left. -/
theorem closed_session_keeps_block :
    ∃ s, Runs.exec step init oneClient = some s ∧ s.Over 0 ∧ s.server.live = [] ∧
      (s.books 0).count .block = 1 ∧ (s.books 0).count .holder = 1 ∧ ¬ s.NothingLeft := by
  have heval : (Runs.exec step init oneClient).map (fun s => (s.server.deleted, s.server.queue,
      s.server.live, (s.books 0).count .block, (s.books 0).count .holder)) =
        some ([0], [], [], 1, 1) := by decide
  obtain ⟨s, hs, heq⟩ := Option.map_eq_some_iff.mp heval
  simp only [Prod.mk.injEq] at heq
  obtain ⟨hdeleted, hqueue, hlive, hblock, hholder⟩ := heq
  have hover : s.Over 0 := by
    refine ⟨by simp [hdeleted], by simp [hqueue]⟩
  refine ⟨s, hs, hover, hlive, hblock, hholder, fun hleft => ?_⟩
  rw [(hleft 0 hover).1] at hblock
  cases hblock

/-- `n` clients have come and gone, and the next accept is in progress. -/
structure Idle (n : Nat) (s : ControlBlocks) : Prop where
  gone : s.gone = false
  stopped : s.server.isStopped = false
  stopping : s.server.stopping = none
  queue : s.server.queue = []
  accepting : s.server.accepting = 1
  nextId : s.server.nextId = n
  live : s.server.live = []
  deleted : s.server.deleted = List.range n
  pointed : s.pointed = List.range n

/-- The next client comes and goes. -/
def client (n : Nat) : List BlockAct :=
  [.server (.acceptDone false) false, .server (.run 0 false none) false,
    .server (.release n) false, .server (.run 0 false none) false]

theorem idle_client {n : Nat} {s : ControlBlocks} (h : Idle n s) :
    ∃ t, Runs.exec step s (client n) = some t ∧ Idle (n + 1) t := by
  obtain ⟨⟨isStopped, acceptorOpen, workGuard, sessions, queue, accepting, retrying, nextId, live,
    deleted, shutdowns, owed, stopping, registered⟩, gone, books, pointed⟩ := s
  obtain ⟨hgone, hstopped, hstopping, hqueue, haccepting, hnext, hlive, hdeleted, hpointed⟩ := h
  simp only at hgone hstopped hstopping hqueue haccepting hnext hlive hdeleted hpointed
  subst hgone hstopped hstopping hqueue haccepting hnext hlive hdeleted hpointed
  refine ⟨_, by
    simp [client, Runs.exec, step, account, Server.step, Server.post, Server.take, Server.runTask,
      Server.onAccept, Server.onAccepted, Server.startAcceptor]
    rfl, ?_⟩
  constructor
  all_goals simp [Server.eraseTask, eraseTask, update, onAccepted, AcceptFault.points,
    List.range_succ]

theorem idle_run (n : Nat) : ∃ acts s, Runs.exec step init acts = some s ∧ Idle n s := by
  induction n with
  | zero =>
    exact ⟨[.server (.run 0 false none) false], _, rfl, rfl, rfl, rfl, rfl, rfl, rfl, rfl, rfl, rfl⟩
  | succ n ih =>
    obtain ⟨acts, s, hs, hidle⟩ := ih
    obtain ⟨t, ht, hnext⟩ := idle_client hidle
    exact ⟨acts ++ client n, t, Runs.exec_trans hs ht, hnext⟩

/-- **What is left grows with the number of clients**: a control block and a holder for each. -/
theorem left_grows (n : Nat) :
    ∃ acts s, Runs.exec step init acts = some s ∧ s.server.live = [] ∧ s.server.queue = [] ∧
      ∀ id < n, s.Over id ∧ (s.books id).count .block = 1 ∧ (s.books id).count .holder = 1 := by
  obtain ⟨acts, s, hs, hidle⟩ := idle_run n
  have hinv := blockInv_run hs
  refine ⟨acts, s, hs, hidle.live, hidle.queue, fun id hid => ?_⟩
  have hdeleted : id ∈ s.server.deleted := by
    rw [hidle.deleted]
    exact List.mem_range.mpr hid
  have hleft := hinv.left_of_deleted hdeleted
  rw [hidle.pointed, if_pos (List.mem_range.mpr hid)] at hleft
  exact ⟨(hinv.outs_deleted hdeleted).2, hleft⟩

end ControlBlocks

end Zem
