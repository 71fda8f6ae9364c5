import Mathlib.Data.List.Perm.Basic
import Zem.Library.Runs

/-!
# Server: the strand of the listening side

Reference model of `Base/Server.hpp`: the accept loop, the session registry and `Stop`.  Sessions
are numbered in the order `OnAccept` makes them; what they do is left to the session model, but
for the moment at which the last reference to one goes away.

* `Server` — the members, the operations in progress and the strand's queue.
* `startAcceptor`, `onAccept`, `stopTask`, `stopVisit`, `stopFinish`, `eraseTask` — the functions
  of the source; the task of `Stop` is cut at each entry it visits.
* `Server.step` — one task of the queue, or one event.

`m_is_stopped` is the one member that other threads touch.  `OnAccept` loads it twice, and `raced`
says that another thread's `Stop` set it between the two loads.  Other threads also release
sessions, at any time and between any two entries that `Stop` visits.
-/

set_option autoImplicit false

namespace Zem

/-- The calls of `OnAccept` that can throw; `holder` is the `make_shared` of the holder of the
    weak pointer, and `registration` makes the shared pointer and its entry. -/
inductive AcceptFault where
  | remoteEndpoint
  | makeSession
  | holder
  | registration
  | startHandling
  deriving DecidableEq, Repr

inductive ServerTask where
  | startAcceptor
  | onAccept (ec : Bool)
  | retry
  | stop
  | erase (id : Nat)
  deriving DecidableEq, Repr

/-- `accepting` and `retrying` count the accepts and retry timers in progress; `live` are the
    sessions with a reference left; `owed` is another thread between the two statements of `Stop`;
    `stopping` are the entries that the task of `Stop` has still to visit, while it runs.
    `registered` are all sessions that `OnAccept` has put into `m_sessions`. -/
structure Server where
  isStopped : Bool
  acceptorOpen : Bool
  workGuard : Bool
  sessions : List Nat
  queue : List ServerTask
  accepting : Nat
  retrying : Nat
  nextId : Nat
  live : List Nat
  deleted : List Nat
  shutdowns : List Nat
  owed : Bool
  stopping : Option (List Nat)
  registered : List Nat
  deriving DecidableEq, Repr

/-- `Run` has posted the first `StartAcceptor`. -/
def Server.init : Server :=
  { isStopped := false
    acceptorOpen := true
    workGuard := true
    sessions := []
    queue := [.startAcceptor]
    accepting := 0
    retrying := 0
    nextId := 0
    live := []
    deleted := []
    shutdowns := []
    owed := false
    stopping := none
    registered := [] }

inductive ServerAct where
  | run (i : Nat) (raced : Bool) (fault : Option AcceptFault)
  | stopVisit (id : Nat)
  | stopFinish
  | acceptDone (ec : Bool)
  | timerFires
  | release (id : Nat)
  | stopFlag
  | stopPost
  deriving DecidableEq, Repr

namespace Server

def post (s : Server) (task : ServerTask) : Server := { s with queue := s.queue ++ [task] }

/-! ## Functions -/

/-- `StartAcceptor`. -/
def startAcceptor (s : Server) : Server :=
  if s.isStopped then s else { s with accepting := s.accepting + 1 }

/-- `OnAccept` of an accepted socket.  A call that throws leaves what the calls before it did, and
    the `catch` in the completion handler logs and returns.  On the way out the session that is
    made is deleted by its unique pointer, or given to its deleter by its shared one. -/
def onAccepted (fault : Option AcceptFault) (s : Server) : Server :=
  if fault = some .remoteEndpoint ∨ fault = some .makeSession then s
  else
    let id := s.nextId
    let s := { s with nextId := id + 1 }
    if fault = some .holder then { s with deleted := s.deleted ++ [id] }
    else if fault = some .registration then s.post (.erase id)
    else
      let s := { s with
        live := s.live ++ [id]
        sessions := s.sessions ++ [id]
        registered := s.registered ++ [id] }
      if fault = some .startHandling then s else s.startAcceptor

/-- The completion handler of `async_accept`. -/
def onAccept (ec raced : Bool) (fault : Option AcceptFault) (s : Server) : Server :=
  if s.isStopped then { s with acceptorOpen := false }
  else
    let s := if raced then { s with isStopped := true, owed := true } else s
    if ec then { s with retrying := s.retrying + 1 } else s.onAccepted fault

/-- The task of `Stop`, up to its loop. -/
def stopTask (s : Server) : Server :=
  { s with acceptorOpen := false, stopping := some s.sessions }

/-- The body of the loop: `lock` succeeds if a reference is left. -/
def stopVisit (id : Nat) (rest : List Nat) (s : Server) : Server :=
  { s with
    stopping := some (rest.erase id)
    shutdowns := if id ∈ s.live then s.shutdowns ++ [id] else s.shutdowns }

/-- The task of `Stop`, from its loop on. -/
def stopFinish (s : Server) : Server :=
  { s with stopping := none, sessions := [], workGuard := false }

/-- The task of a session's deleter. -/
def eraseTask (id : Nat) (s : Server) : Server :=
  { s with sessions := s.sessions.erase id, deleted := s.deleted ++ [id] }

/-! ## Steps -/

def runTask (raced : Bool) (fault : Option AcceptFault) (s : Server) : ServerTask → Server
  | .startAcceptor => s.startAcceptor
  | .onAccept ec => s.onAccept ec raced fault
  | .retry => s.startAcceptor
  | .stop => s.stopTask
  | .erase id => s.eraseTask id

def take (s : Server) (i : Nat) : Server := { s with queue := s.queue.eraseIdx i }

/-- One task of the queue, or one event: an accept completes, a retry timer fires, the last
    reference to a session goes away, another thread calls `Stop`.  While the task of `Stop` runs
    it visits its entries, in the order of the set, whatever that is, and no other task runs. -/
def step (s : Server) : ServerAct → Option Server
  | .run i raced fault =>
    match s.stopping, s.queue[i]? with
    | none, some task => some ((s.take i).runTask raced fault task)
    | _, _ => none
  | .stopVisit id =>
    match s.stopping with
    | some rest => if id ∈ rest then some (s.stopVisit id rest) else none
    | none => none
  | .stopFinish => if s.stopping = some [] then some s.stopFinish else none
  | .acceptDone ec =>
    if 0 < s.accepting then some ({ s with accepting := s.accepting - 1 }.post (.onAccept ec))
    else none
  | .timerFires =>
    if 0 < s.retrying then some ({ s with retrying := s.retrying - 1 }.post .retry) else none
  | .release id =>
    if id ∈ s.live then some ({ s with live := s.live.erase id }.post (.erase id)) else none
  | .stopFlag => if s.isStopped then none else some { s with isStopped := true, owed := true }
  | .stopPost => if s.owed then some ({ s with owed := false }.post .stop) else none

/-! ## What the steps of the strand need -/

theorem run_step {s t : Server} {i : Nat} {raced : Bool} {fault : Option AcceptFault}
    (h : s.step (.run i raced fault) = some t) :
    ∃ task, s.stopping = none ∧ s.queue[i]? = some task ∧
      t = (s.take i).runTask raced fault task := by
  simp only [step] at h
  split at h
  · rename_i task hs htask
    cases h
    exact ⟨task, hs, htask, rfl⟩
  · cases h

theorem stopVisit_step {s t : Server} {id : Nat} (h : s.step (.stopVisit id) = some t) :
    ∃ rest, s.stopping = some rest ∧ id ∈ rest ∧ t = s.stopVisit id rest := by
  simp only [step] at h
  split at h
  · rename_i rest hs
    split at h
    · rename_i hid
      cases h
      exact ⟨rest, hs, hid, rfl⟩
    · cases h
  · cases h

theorem stopFinish_step {s t : Server} (h : s.step .stopFinish = some t) :
    s.stopping = some [] ∧ t = s.stopFinish := by
  simp only [step] at h
  split at h
  · rename_i hs
    cases h
    exact ⟨hs, rfl⟩
  · cases h

end Server

end Zem
