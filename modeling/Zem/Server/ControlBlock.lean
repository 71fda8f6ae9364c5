import Zem.Library.RefCount
import Zem.Server.Registry

/-!
# The control blocks of the sessions

Reference model of the pointers in `OnAccept`, in the deleter and in `Stop` of `Base/Server.hpp`.
For each session there are three objects with references: the session, the control block of its
shared pointers, which owns the deleter, and the weak pointer `*wp_holder`.

* `SessionNode`, `Book` — these objects, and the references to them.
* `ControlBlocks.step` — the steps of the server, with what each of them does to the references.
* `BookOf`, `BookOf.drop` — the references of one session, and what is left when one of them goes.
-/

set_option autoImplicit false

namespace Zem

/-- The session, the control block of its shared pointers, and `*wp_holder`.  References to the
    control block are weak pointers, and all shared pointers together are one more of them. -/
inductive SessionNode where
  | session
  | block
  | holder
  deriving DecidableEq, Repr

instance : Fintype SessionNode where
  elems := {.session, .block, .holder}
  complete n := by cases n <;> decide

abbrev Book := RefHeap SessionNode

def ServerTask.isErase : ServerTask → Bool
  | .erase _ => true
  | .startAcceptor | .onAccept _ | .retry | .stop => false

namespace Book

/-- `OnAccept` up to `deleter`: the session, `wp_holder`, and its copy in the deleter. -/
def prepared : Book := ((RefHeap.empty.add .session).add .holder).add .holder

/-- The constructor of `session_ptr`: the control block, which takes the deleter, and the weak
    pointer of `enable_shared_from_this`. -/
def construct (b : Book) : Book :=
  (((b.add .block).own .block .holder).add .block).own .session .block

/-- `*wp_holder = session_ptr`. -/
def assign (b : Book) : Book := (b.add .block).own .holder .block

/-- `m_sessions.emplace(*wp_holder)`. -/
def emplace (b : Book) : Book := b.add .block

/-- `wp_holder` goes out of scope. -/
def leave (b : Book) : Book := b.drop .holder

/-- The deleter posts its task, which takes a copy of `wp_holder`. -/
def postErase (b : Book) : Book := b.add .holder

/-- The last shared pointer goes: the deleter is called, and then the control block let go of. -/
def release (b : Book) : Book := b.postErase.drop .block

/-- The same where the server is gone: the deleter deletes the session itself. -/
def releaseGone (b : Book) : Book := RefHeap.drop (RefHeap.drop b .session) .block

/-- The entry of `m_sessions` goes. -/
def dropEntry (b : Book) (entry : Bool) : Book := if entry then b.drop .block else b

/-- The task of the deleter, and its end. -/
def eraseTask (b : Book) (entry : Bool) : Book :=
  RefHeap.drop (RefHeap.drop (b.dropEntry entry) .session) .holder

/-- What `OnAccept` leaves of a session that it has made.  In a `registration` that throws,
    `pointed` says that the shared pointer has been made, and its entry has not. -/
def accepted (fault : Option AcceptFault) (pointed : Bool) : Book :=
  match fault with
  | some .remoteEndpoint | some .makeSession => .empty
  | some .holder => (RefHeap.empty.add .session).drop .session
  | some .registration =>
    if pointed then prepared.construct.assign.release.leave
    else leave (prepared.postErase.drop .holder)
  | some .startHandling | none => prepared.construct.assign.emplace.leave

end Book

/-- Does `OnAccept` make the shared pointer? -/
def AcceptFault.points (fault : Option AcceptFault) (pointed : Bool) : Bool :=
  match fault with
  | some .remoteEndpoint | some .makeSession | some .holder => false
  | some .registration => pointed
  | some .startHandling | none => true

/-- The server and the books of its sessions.  `gone` is a server that has been deleted; `pointed`
    are all sessions to which a shared pointer has been made. -/
structure ControlBlocks where
  server : Server
  gone : Bool
  books : Nat → Book
  pointed : List Nat

inductive BlockAct where
  | server (act : ServerAct) (pointed : Bool)
  | destroy
  deriving DecidableEq, Repr

namespace ControlBlocks

def init : ControlBlocks :=
  { server := .init, gone := false, books := fun _ => .empty, pointed := [] }

def update (s : ControlBlocks) (id : Nat) (f : Book → Book) : ControlBlocks :=
  { s with books := Function.update s.books id (f (s.books id)) }

/-! ## What the functions of the server do to the books -/

def onAccepted (fault : Option AcceptFault) (pointed : Bool) (s : ControlBlocks) :
    ControlBlocks :=
  let id := s.server.nextId
  { s.update id fun _ => Book.accepted fault pointed with
    pointed := if AcceptFault.points fault pointed then s.pointed ++ [id] else s.pointed }

def eraseTask (id : Nat) (s : ControlBlocks) : ControlBlocks :=
  s.update id fun b => b.eraseTask (id ∈ s.server.sessions)

/-- `m_sessions.clear()`. -/
def clear (s : ControlBlocks) : ControlBlocks :=
  { s with books := fun id => (s.books id).dropEntry (id ∈ s.server.sessions) }

/-- The books after a step of the server. -/
def account (s : ControlBlocks) (pointed : Bool) : ServerAct → ControlBlocks
  | .run i _ fault =>
    match s.server.queue[i]? with
    | some (.onAccept false) => if s.server.isStopped then s else s.onAccepted fault pointed
    | some (.erase id) => s.eraseTask id
    | _ => s
  | .stopFinish => s.clear
  | .release id => s.update id Book.release
  | _ => s

/-- The last reference to a session goes, where the server is gone. -/
def releaseGone (id : Nat) (s : ControlBlocks) : ControlBlocks :=
  { s.update id Book.releaseGone with
    server := { s.server with
      live := s.server.live.erase id
      deleted := s.server.deleted ++ [id] } }

/-- The destructor of the server: it stops, and then its members go, the entries and the tasks that
    have not run among them. -/
def destroy (s : ControlBlocks) : ControlBlocks :=
  { s.clear with
    server := { s.server with
      isStopped := true
      acceptorOpen := false
      workGuard := false
      sessions := []
      queue := [] }
    gone := true }

/-- A step of the server, or its end.  It cannot be deleted while the task of a deleter waits,
    which has a reference to it, nor while it runs the task of `Stop`; once it is gone there are
    only the sessions, which go one after the other. -/
def step (s : ControlBlocks) : BlockAct → Option ControlBlocks
  | .server act pointed =>
    if s.gone then
      match act with
      | .release id => if id ∈ s.server.live then some (s.releaseGone id) else none
      | _ => none
    else
      match s.server.step act with
      | some t => some { s.account pointed act with server := t }
      | none => none
  | .destroy =>
    if s.gone ∨ s.server.stopping ≠ none ∨ s.server.queue.any ServerTask.isErase then none
    else some s.destroy

end ControlBlocks

/-! ## The references of one session -/

/-- So many references from outside to each of the three objects. -/
def outside (session block holder : Nat) : SessionNode → Nat
  | .session => session
  | .block => block
  | .holder => holder

@[simp] theorem update_session (a b c d : Nat) :
    Function.update (outside a b c) .session d = outside d b c := by
  funext n
  cases n <;> rfl

@[simp] theorem update_block (a b c d : Nat) :
    Function.update (outside a b c) .block d = outside a d c := by
  funext n
  cases n <;> rfl

@[simp] theorem update_holder (a b c d : Nat) :
    Function.update (outside a b c) .holder d = outside a b d := by
  funext n
  cases n <;> rfl

/-- The references of a session whose shared pointer has been made, or has not: the deleter in the
    control block refers to the holder, and the holder back to the control block. -/
structure BookOf (pointed : Prop) (out : SessionNode → Nat) (b : Book) : Prop where
  exact : RefHeap.Exact out b
  block : pointed → b.refs .block = [.holder]
  holder : pointed → b.refs .holder = [.block]
  session : pointed → b.refs .session = if 0 < out .session then [.block] else []
  unpointed : ¬ pointed → ∀ n, b.refs n = []

namespace BookOf

variable {pointed : Prop} {out : SessionNode → Nat} {b : Book}

theorem inner_eq (b : Book) (n : SessionNode) :
    b.inner n = (b.refs .session).count n + (b.refs .block).count n + (b.refs .holder).count n := by
  have huniv : (Finset.univ : Finset SessionNode) = {.session, .block, .holder} := rfl
  rw [RefHeap.inner, huniv, Finset.sum_insert (by decide), Finset.sum_insert (by decide),
    Finset.sum_singleton]
  omega

/-- The weak pointers to the control block, and the owners of the holder. -/
theorem count_of_pointed (h : BookOf pointed out b) (hp : pointed) :
    b.count .block = out .block + (if 0 < out .session then 1 else 0) + 1 ∧
      b.count .holder = out .holder + 1 := by
  have hblock := h.exact.count .block
  have hholder := h.exact.count .holder
  rw [inner_eq, h.block hp, h.holder hp, h.session hp] at hblock hholder
  split at hblock
  · rename_i hpos
    rw [if_pos hpos] at hholder ⊢
    exact ⟨hblock, hholder⟩
  · rename_i hpos
    rw [if_neg hpos] at hholder ⊢
    exact ⟨hblock, hholder⟩

theorem count_of_not_pointed (h : BookOf pointed out b) (hp : ¬ pointed) (n : SessionNode) :
    b.count n = out n := by
  rw [h.exact.count, inner_eq, h.unpointed hp, h.unpointed hp, h.unpointed hp]
  rfl

/-- A reference to the control block or the holder is added. -/
theorem add (h : BookOf pointed out b) {n : SessionNode} (hn : n ≠ .session) :
    BookOf pointed (Function.update out n (out n + 1)) (RefHeap.add b n) := by
  refine ⟨h.exact.add n, h.block, h.holder, fun hp => ?_, h.unpointed⟩
  rw [Function.update_of_ne hn.symm]
  exact h.session hp

/-- **One reference from outside goes.**  The control block and the holder stay, since each of them
    refers to the other. -/
theorem drop (h : BookOf pointed out b) {n : SessionNode} (hn : 0 < out n) :
    BookOf pointed (Function.update out n (out n - 1)) (RefHeap.drop b n) := by
  have hexact := h.exact.drop hn
  have hcycle : pointed → ∀ m ∈ ({.block, .holder} : Set SessionNode),
      (RefHeap.drop b n).refs m = b.refs m := by
    intro hp m hm
    have hsustained : RefHeap.Sustained {.block, .holder} b := by
      rintro x (rfl | rfl)
      · exact ⟨.holder, Or.inr rfl, by rw [h.holder hp]; exact List.mem_singleton.mpr rfl⟩
      · exact ⟨.block, Or.inl rfl, by rw [h.block hp]; exact List.mem_singleton.mpr rfl⟩
    exact (RefHeap.Sustained.drop h.exact hn hsustained hm).2
  have hblock : pointed → (RefHeap.drop b n).refs .block = [.holder] := fun hp =>
    (hcycle hp .block (Or.inl rfl)).trans (h.block hp)
  have hholder : pointed → (RefHeap.drop b n).refs .holder = [.block] := fun hp =>
    (hcycle hp .holder (Or.inr rfl)).trans (h.holder hp)
  have hkeep := RefHeap.refs_drop b n .session
  refine ⟨hexact, hblock, hholder, fun hp => ?_, fun hp m => ?_⟩
  · have hcount := hexact.count .session
    have hmono : Function.update out n (out n - 1) .session ≤ out .session := by
      by_cases hns : n = .session
      · subst hns
        rw [Function.update_self]
        exact Nat.sub_le _ 1
      · rw [Function.update_of_ne (Ne.symm hns)]
    split
    · rename_i hpos
      rcases hkeep with hkeep | ⟨h0, _⟩
      · rw [hkeep, h.session hp, if_pos (Nat.lt_of_lt_of_le hpos hmono)]
      · omega
    · rename_i hzero
      apply hexact.freed
      have hnone : (RefHeap.drop b n).inner .session = 0 := by
        rw [inner_eq, hblock hp, hholder hp]
        rcases hkeep with hkeep | ⟨_, hnil⟩
        · rw [hkeep, h.session hp]
          split <;> rfl
        · rw [hnil]
          rfl
      omega
  · rcases RefHeap.refs_drop b n m with hkeep | ⟨_, hnil⟩
    · rw [hkeep, h.unpointed hp]
    · exact hnil

/-! ## What the functions make of them -/

section

variable {session block holder : Nat} {entry : Bool}

theorem drop_session (h : BookOf pointed (outside (session + 1) block holder) b) :
    BookOf pointed (outside session block holder) (RefHeap.drop b .session) := by
  have hdrop := h.drop (n := .session) (Nat.succ_pos session)
  rw [update_session] at hdrop
  exact hdrop

theorem drop_block (h : BookOf pointed (outside session (block + 1) holder) b) :
    BookOf pointed (outside session block holder) (RefHeap.drop b .block) := by
  have hdrop := h.drop (n := .block) (Nat.succ_pos block)
  rw [update_block] at hdrop
  exact hdrop

theorem drop_holder (h : BookOf pointed (outside session block (holder + 1)) b) :
    BookOf pointed (outside session block holder) (RefHeap.drop b .holder) := by
  have hdrop := h.drop (n := .holder) (Nat.succ_pos holder)
  rw [update_holder] at hdrop
  exact hdrop

theorem release (h : BookOf pointed (outside session (block + 1) holder) b) :
    BookOf pointed (outside session block (holder + 1)) b.release := by
  have hpost := h.add (n := .holder) (by decide)
  rw [update_holder] at hpost
  exact hpost.drop_block

theorem releaseGone (h : BookOf pointed (outside (session + 1) (block + 1) holder) b) :
    BookOf pointed (outside session block holder) b.releaseGone :=
  h.drop_session.drop_block

theorem dropEntry (h : BookOf pointed (outside session (block + if entry then 1 else 0) holder) b) :
    BookOf pointed (outside session block holder) (b.dropEntry entry) := by
  cases entry with
  | false => exact h
  | true => exact BookOf.drop_block h

theorem eraseTask
    (h : BookOf pointed (outside (session + 1) (block + if entry then 1 else 0) (holder + 1)) b) :
    BookOf pointed (outside session block holder) (b.eraseTask entry) :=
  h.dropEntry.drop_session.drop_holder

end

/-- The references that `OnAccept` leaves to what it has made. -/
def acceptedOuts : Option AcceptFault → SessionNode → Nat
  | some .remoteEndpoint | some .makeSession | some .holder => outside 0 0 0
  | some .registration => outside 1 0 1
  | some .startHandling | none => outside 1 2 0

/-- Where there are weak pointers, there is a control block. -/
theorem points_of_block {fault : Option AcceptFault} {made : Bool}
    (h : 0 < acceptedOuts fault .block) : AcceptFault.points fault made = true := by
  cases fault with
  | none => rfl
  | some fault =>
    cases fault with
    | startHandling => rfl
    | remoteEndpoint | makeSession | holder | registration => cases h

theorem accepted (fault : Option AcceptFault) (made : Bool) :
    BookOf (AcceptFault.points fault made = true) (acceptedOuts fault)
      (Book.accepted fault made) := by
  have hnone : ∀ fault, (fault = some .remoteEndpoint ∨ fault = some .makeSession ∨
      fault = some .holder) → BookOf (AcceptFault.points fault made = true) (acceptedOuts fault)
        (Book.accepted fault made) := by
    rintro _ (rfl | rfl | rfl)
    all_goals
      refine ⟨⟨?_, ?_⟩, Bool.noConfusion, Bool.noConfusion, Bool.noConfusion, fun _ => ?_⟩
      all_goals simp only [Book.accepted, acceptedOuts]; decide
  have hall : ∀ fault, (fault = none ∨ fault = some .startHandling) →
      BookOf (AcceptFault.points fault made = true) (acceptedOuts fault)
        (Book.accepted fault made) := by
    rintro _ (rfl | rfl)
    all_goals
      refine ⟨⟨?_, ?_⟩, fun _ => ?_, fun _ => ?_, fun _ => ?_, fun h => absurd rfl h⟩
      all_goals simp only [Book.accepted, acceptedOuts]; decide
  cases fault with
  | none => exact hall _ (Or.inl rfl)
  | some fault =>
    cases fault with
    | remoteEndpoint => exact hnone _ (Or.inl rfl)
    | makeSession => exact hnone _ (Or.inr (Or.inl rfl))
    | holder => exact hnone _ (Or.inr (Or.inr rfl))
    | startHandling => exact hall _ (Or.inr rfl)
    | registration =>
      cases made with
      | false =>
        refine ⟨⟨?_, ?_⟩, Bool.noConfusion, Bool.noConfusion, Bool.noConfusion, fun _ => ?_⟩
        all_goals decide
      | true =>
        refine ⟨⟨?_, ?_⟩, fun _ => ?_, fun _ => ?_, fun _ => ?_, fun h => absurd rfl h⟩
        all_goals decide

end BookOf

end Zem
