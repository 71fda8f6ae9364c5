import Zem.App.Backend

/-!
# From the first client to the end of Run

The server and its database as one system, from `AppContext::Run` to its return.

* `Backend.Due`, `Backend.Served` — what is bound to happen in it, with the timeouts of the leases
  and without them.
* `parts_idle`, `idle_of_parts` — it is at rest exactly if the server is and every call is back.
* `moves_step`, `settles_of_inv` — it comes to rest.
* `answered_from_db` — what a session writes follows from what its own calls have met.
* `requests_served` — every request of an open session is answered, and every call comes back.
* `shutdown_completes` — what the whole system comes to after `Stop`.
* `run_leaves_db_idle` — when `Run` returns the DB threads have nothing to do.
-/

set_option autoImplicit false

namespace Zem

namespace Backend

variable {P : Type} {soci : SlotPool P} {threads : Threads} {handlers : Handlers Bytes DbOutcome}
  {inputs : Nat → Bytes}

/-! ## At rest -/

/-- What is bound to happen. -/
def Due (soci : SlotPool P) (s : Backend P) : BackendAct → Prop
  | .tcp act => TCPServer.Due s.tcp act
  | .db act => Repository.Due soci s.db act
  | .answer _ => True

/-- What of it is left when no lease times out and none throws. -/
def Served (soci : SlotPool P) (s : Backend P) : BackendAct → Prop
  | .tcp act => TCPServer.Due s.tcp act
  | .db act => Repository.Served soci s.db act
  | .answer _ => True

theorem due_of_served (s : Backend P) (act : BackendAct) (h : Served soci s act) :
    Due soci s act := by
  cases act with
  | tcp => exact h
  | db act => exact Repository.due_of_served s.db act h
  | answer => trivial

theorem isCall_caller {s : Backend P} (h : BackendInv s) {c : Nat} {k : GetPasswordCall}
    (hk : s.db.calls[c]? = some k) : ∃ id, s.callers[c]? = some id := by
  obtain ⟨hlt, _⟩ := List.getElem?_eq_some_iff.mp hk
  exact ⟨_, List.getElem?_eq_getElem (h.callers ▸ hlt)⟩

theorem step_db {s : Backend P} {act : RepositoryAct} {d : Repository P} (hcall : act ≠ .call)
    (hresume : ∀ c, act ≠ .resume c) (hd : s.db.step soci threads act = some d) :
    step soci threads handlers inputs s (.db act) = some { s with db := d } := by
  cases act with
  | call => exact absurd rfl hcall
  | resume c => exact absurd rfl (hresume c)
  | enter | lease | timeout | query | giveBack => simp only [step, hd, Option.map_some]

/-- Where every call is back none keeps a strand. -/
theorem not_isBlocked_of_returned {s : Backend P}
    (hback : ∀ k ∈ s.db.calls, k.stage = .returned) (act : TCPServerAct) :
    s.isBlocked act = false := by
  have hfree : ∀ id, s.keepsStrand id = false := by
    intro id
    rw [keepsStrand, List.any_eq_false]
    rintro ⟨caller, k⟩ hmem
    simp [GetPasswordCall.running, hback k (List.of_mem_zip hmem).2]
  rw [isBlocked]
  cases act.strand with
  | none => rfl
  | some id => exact hfree id

/-- What the server can do, but for answers, the system can where no call keeps a strand. -/
theorem step_tcp {s : Backend P} {act : TCPServerAct} {t : TCPServer Bytes DbOutcome}
    {repo : Nat → Nat → Bytes → DbOutcome} (hfree : s.isBlocked act = false)
    (hact : ∀ id, act ≠ .session id .answer)
    (ht : s.tcp.step handlers repo inputs act = some t) :
    ∃ u, step soci threads handlers inputs s (.tcp act) = some u := by
  rw [TCPServer.step_unasked unanswered hact] at ht
  cases act with
  | session id act =>
    have hno : act ≠ .answer := fun h => hact id (by rw [h])
    have hstep : ¬ (act = .answer ∨ s.isBlocked (.session id act)) := by simp [hno, hfree]
    exact ⟨s.goOn id t, by rw [step, if_neg hstep, ht, Option.map_some]⟩
  | server | visitDuring | signal =>
    refine ⟨{ s with tcp := t }, ?_⟩
    simp only [step, hfree, ht, Option.map_some, Bool.false_eq_true, if_false]

/-- What the calls can do, the system can. -/
theorem moves_of_db {s : Backend P} (h : BackendInv s) (hdb : Repository.LeaseInv soci threads s.db)
    {act : RepositoryAct} {d : Repository P} (hserved : Repository.Served soci s.db act)
    (hd : s.db.step soci threads act = some d) :
    ∃ t, Runs.Moves (step soci threads handlers inputs) (Served soci) s t := by
  have hserved' : Served soci s (.db act) := hserved
  cases act with
  | call | timeout => exact hserved.elim
  | enter | lease | query | giveBack => exact ⟨_, _, hserved', step_db (by simp) (by simp) hd⟩
  | resume c =>
    obtain ⟨k, hk, hready, _⟩ := Repository.onCall_eq_some hd
    have hst : k.stage = .settled := by simpa using hready
    obtain ⟨id, hid⟩ := isCall_caller h hk
    have hvalid := hdb.valid k (List.mem_of_getElem? hk)
    simp only [GetPasswordCall.Valid, hst] at hvalid
    obtain ⟨outcome, hmet, _⟩ := hvalid
    have hflight : s.InFlight c id :=
      (isCall_of_getElem hk id _).mpr ⟨hid, by simp [hst]⟩
    obtain ⟨t, ht⟩ := @TCPServer.answer_enabled _ _ handlers (fun _ _ _ => outcome) inputs _ _
      ((h.asks id).mpr ⟨c, hflight⟩)
    refine ⟨s.comeBack c id outcome d t, .answer c, trivial, ?_⟩
    simp only [step, hid, outcomeOf, hk, hmet, hd, ht, Option.bind_some, Option.map_some]

/-- At rest the server is, and every call is back. -/
theorem parts_idle {s : Backend P} (h : BackendInv s)
    (hdb : Repository.LeaseInv soci threads s.db) (hsoci : soci.Lawful) (hsize : 0 < soci.size)
    (hthread : 0 < threads.db) (hio : 0 < threads.io)
    (hidle : Runs.Idle (step soci threads handlers inputs) (Served soci) s)
    (repo : Nat → Nat → Bytes → DbOutcome) :
    Runs.Idle (TCPServer.step handlers repo inputs) TCPServer.Due s.tcp ∧
      ∀ k ∈ s.db.calls, k.stage = .returned := by
  have hback : ∀ k ∈ s.db.calls, k.stage = .returned := by
    refine Repository.returned_of_idle hsoci hsize hthread hio hdb ?_
    rintro d ⟨act, hserved, hd⟩
    obtain ⟨t, ht⟩ := moves_of_db h hdb hserved hd
    exact hidle t ht
  refine ⟨?_, hback⟩
  rintro t ⟨act, hdue, ht⟩
  by_cases hact : ∀ id, act ≠ .session id .answer
  · obtain ⟨u, hu⟩ := step_tcp (not_isBlocked_of_returned hback act) hact ht
    exact hidle u ⟨.tcp act, hdue, hu⟩
  · -- a session that waits has a call that is not back
    simp only [not_forall, not_not] at hact
    obtain ⟨id, rfl⟩ := hact
    obtain ⟨_, hasks, _⟩ := TCPServer.answer_asking ht
    obtain ⟨c, _, k, hk, hst⟩ := (h.asks id).mp hasks
    exact hst (hback k (List.mem_of_getElem? hk))

theorem idle_of_parts {s : Backend P} (repo : Nat → Nat → Bytes → DbOutcome)
    (hserver : Runs.Idle (TCPServer.step handlers repo inputs) TCPServer.Due s.tcp)
    (hback : ∀ k ∈ s.db.calls, k.stage = .returned) :
    Runs.Idle (step soci threads handlers inputs) (Due soci) s := by
  have hdb : Runs.Idle (Repository.step soci threads) (Repository.Due soci) s.db :=
    Repository.idle_of_returned hback
  rintro t ⟨act, hdue, hstep⟩
  cases takes_of_step hstep with
  | @serve act u hno _ hserve =>
    rw [TCPServer.step_unasked repo fun id => hno id .answer] at hserve
    exact hserver u ⟨act, hdue, hserve⟩
  | @session id act u hno _ hrun =>
    rw [TCPServer.step_unasked repo fun x hx => by cases hx; exact hno rfl] at hrun
    exact hserver u ⟨.session id act, hdue, hrun⟩
  | @db act d _ _ hd => exact hdb d ⟨act, hdue, hd⟩
  | @answer c id outcome d u _ _ hd _ => exact hdb d ⟨.resume c, trivial, hd⟩

/-! ## Coming to rest -/

/-- There is room for `n` sessions. -/
structure Below (n : Nat) (s : Backend P) : Prop where
  inv : BackendInv s
  server : TCPServer.Below n s.tcp

theorem goOn_tcp (s : Backend P) (id : Nat) (t : TCPServer Bytes DbOutcome) :
    (s.goOn id t).tcp = t :=
  (goOn_same s id t).1

/-- A due step of the system is one of the server, which takes work from it, or one of a call. -/
theorem moves_step {n : Nat} {s t : Backend P} {act : BackendAct} (h : Below n s)
    (hdue : Due soci s act) (hstep : step soci threads handlers inputs s act = some t) :
    (TCPServer.Below n t.tcp ∧ TCPServer.Work.Less n t.tcp.work s.tcp.work) ∨
      t.tcp = s.tcp ∧
        Runs.Moves (Repository.step soci threads) (Repository.Due soci) s.db t.db := by
  have hserver : ∀ {repo : Nat → Nat → Bytes → DbOutcome} (act : TCPServerAct)
      {u : TCPServer Bytes DbOutcome}, TCPServer.Bounded s.tcp act →
      s.tcp.step handlers repo inputs act = some u →
      TCPServer.Below n u ∧ TCPServer.Work.Less n u.work s.tcp.work := fun act _ hact hu =>
    ⟨TCPServer.below_step n _ act _ h.server hact hu, TCPServer.work_step h.server hact hu⟩
  cases takes_of_step hstep with
  | @serve act u _ _ hserve =>
    exact Or.inl (hserver act (TCPServer.bounded_of_due _ act hdue) hserve)
  | @session id act u _ _ hrun =>
    rw [goOn_tcp]
    exact Or.inl
      (hserver (.session id act) (TCPServer.bounded_of_due _ (.session id act) hdue) hrun)
  | @db act d _ _ hd => exact Or.inr ⟨rfl, act, hdue, hd⟩
  | @answer c id outcome d u _ _ _ hanswer =>
    exact Or.inl (hserver (.session id .answer) (fun _ _ => trivial) hanswer)

/-- **The whole system comes to rest**: a step of the server lessens its work, and one of a call
    leaves it as it is. -/
theorem settles_of_inv {s : Backend P} (h : BackendInv s) :
    Runs.Settles (step soci threads handlers inputs) (Due soci) s := by
  refine Runs.settles_of_layers (I := Below s.tcp.server.room)
    (TCPServer.Work.wellFounded_less s.tcp.server.room) (fun s act t hs hdue hstep => ?_)
    (fun s => s.tcp.work) Backend.db (fun s _ => Repository.settles_calls soci threads s.db)
    (fun s act t hs hdue hstep => ?_) ⟨h, h.tcp, Nat.le_refl _⟩
  · refine ⟨backendInv_step s act t hs.inv hstep, ?_⟩
    rcases moves_step hs hdue hstep with ⟨hbelow, _⟩ | ⟨heq, _⟩
    · exact hbelow
    · exact heq ▸ hs.server
  · exact (moves_step hs hdue hstep).imp And.right fun ⟨heq, hmoves⟩ => ⟨by rw [heq], hmoves⟩

/-! ## What the clients get -/

/-- **What a session writes follows from what its own calls have met.**  In every run in which the
    strands run their tasks in order, whatever the calls meet and in whatever order they go on: the
    frames that a session has written, pings left out, answer the first frames that its own client
    has sent, each login by what the call it has made has met; a session has been answered by each
    of its calls that is back, once, and by no other. -/
theorem answered_from_db {pool : Option P} {acts : List BackendAct} {s : Backend P}
    (hacts : ∀ act ∈ acts, BackendAct.Meets Strand.InOrder act)
    (h : Runs.exec (step soci threads makeSessionHandlers inputs) (init pool) acts = some s)
    (id : Nat) {v : Strand Bytes DbOutcome} (hv : s.tcp.sessions id = some v) :
    (replies (framesOf v.writer.written) <+: responses (s.repoOf id) 0 (framesOf (inputs id)) ∧
      remainderOf v.writer.written = []) ∧
    (s.answers id).length = v.asked ∧ ((s.answers id).map Prod.fst).Nodup ∧
      ∀ x, x ∈ s.answers id ↔ s.Answered id x := by
  have hinv := backendInv_run h
  obtain ⟨acts', hacts', hrun⟩ := server_run trivial hacts h s.repoOf (oracle_repoOf s)
  obtain ⟨acts'', hacts'', hrun'⟩ := TCPServer.session_run trivial hacts' hrun id v hv
  refine ⟨Strand.responses_run hacts'' hrun', ?_, hinv.once id, hinv.answered id⟩
  rw [hinv.asked, TCPServer.askedOf_session hv]

/-- Every client sends a login; there is one slot. -/
abbrev stepLogins : Backend (SlotPool.Flags 1) → BackendAct → Option (Backend (SlotPool.Flags 1)) :=
  step (SlotPool.firstFree 1) ⟨2, 1⟩ makeSessionHandlers fun _ => Strand.loginFrame

/-- A client connects, its login is read, and its handler asks. -/
def asking : List BackendAct :=
  TCPServer.oneClient.map .tcp ++
    [.tcp (.session 0 (.run 0 false 0)), .tcp (.session 0 (.readDone true)),
      .tcp (.session 0 (.run 0 false 0)), .tcp (.session 0 (.readDone true)),
      .tcp (.session 0 (.run 0 false 0))]

/-- The call finds the right password and comes back. -/
def found : List BackendAct :=
  [.db (.enter 0), .db (.lease 0 false), .db (.query 0 (.row .ok [98])), .db (.giveBack 0),
    .answer 0]

/-- The handler sends its response, which is written. -/
def responding : List BackendAct :=
  [.tcp (.session 0 (.run 0 false 0)), .tcp (.session 0 (.run 0 false 0)),
    .tcp (.session 0 (.writeDone (gather [.ofArgs (loginResponse 1 .success)] .empty) false)),
    .tcp (.session 0 (.run 0 false 0))]

theorem inOrder_served : ∀ act ∈ asking ++ found ++ responding,
    BackendAct.Meets Strand.InOrder act := by
  simp [asking, found, responding, TCPServer.oneClient, BackendAct.Meets,
    TCPServer.TCPServerAct.Meets, Strand.InOrder]

/-- The rule at that run. -/
theorem answered_from_db_login :
    ∃ s v, Runs.exec stepLogins (init (some (SlotPool.Flags.allFree 1)))
        (asking ++ found ++ responding) = some s ∧ s.tcp.sessions 0 = some v ∧
      v.writer.written = [0, 0, 0, 2, 0, 0, 0, 4, 0, 1, 0, 0, 0, 0] ∧
      replies (framesOf v.writer.written) <+:
        responses (s.repoOf 0) 0 (framesOf Strand.loginFrame) ∧
      (s.answers 0).length = v.asked := by
  have hrun : Runs.exec stepLogins (init (some (SlotPool.Flags.allFree 1)))
      (asking ++ found ++ responding) = some _ := rfl
  have hrule := answered_from_db inOrder_served hrun 0 rfl
  exact ⟨_, _, hrun, rfl, rfl, hrule.1.1, hrule.2.1⟩

/-- **Every request is served.**  With the sizes that `InitDb` gives the pools and any number of io
    threads, from every state that the system reaches with its tasks run in order, it does not go on
    for ever by itself.  Where nothing is bound to happen any more, even if no lease times out and
    none throws, every call is back, and every session is closed or has answered all that its client
    has sent. -/
theorem requests_served (hsoci : soci.Lawful) (config : AppContext.Config) (reported : UInt32)
    (hcount : config.dbThreadCount.toNat < 2 ^ 32)
    (hsize : soci.size = (AppContext.initDb config reported).slots.length)
    (hthreads : threads.db = (AppContext.initDb config reported).threads.toNat)
    (hio : 0 < threads.io) {pool : Option P} (hfresh : ∀ p, pool = some p → soci.leased p = ∅)
    {acts : List BackendAct} {s : Backend P}
    (hacts : ∀ act ∈ acts, BackendAct.Meets Strand.InOrder act)
    (h : Runs.exec (step soci threads makeSessionHandlers inputs) (init pool) acts = some s) :
    Runs.Settles (step soci threads makeSessionHandlers inputs) (Due soci) s ∧
    ∀ acts' t, (∀ act ∈ acts', BackendAct.Meets Strand.InOrder act) →
      Runs.exec (step soci threads makeSessionHandlers inputs) s acts' = some t →
      Runs.Idle (step soci threads makeSessionHandlers inputs) (Served soci) t →
      (∀ k ∈ t.db.calls, k.stage = .returned) ∧
      ∀ id v, t.tcp.sessions id = some v → v.isClosed = true ∨
        (replies (framesOf v.writer.written) = responses (t.repoOf id) 0 (framesOf (inputs id)) ∧
          remainderOf v.writer.written = []) := by
  obtain ⟨hthread, hslot⟩ := Repository.initDb_pos hcount reported
  rw [← hthreads] at hthread
  rw [← hsize] at hslot
  refine ⟨settles_of_inv (backendInv_run h), fun acts' t hacts' hrun hidle => ?_⟩
  have hall := Runs.exec_trans h hrun
  have hmeets : ∀ act ∈ acts ++ acts', BackendAct.Meets Strand.InOrder act := fun act hact =>
    (List.mem_append.mp hact).elim (hacts act) (hacts' act)
  have hinv := backendInv_run hall
  obtain ⟨hserver, hback⟩ := parts_idle hinv (leaseInv_run hsoci hfresh hall) hsoci hslot hthread
    hio hidle t.repoOf
  refine ⟨hback, fun id v hv => ?_⟩
  obtain ⟨_, hserved, hrun'⟩ := server_run trivial hmeets hall t.repoOf (oracle_repoOf t)
  obtain ⟨_, hordered, hsession⟩ := TCPServer.session_run trivial hserved hrun' id v hv
  exact Strand.responses_of_idle hordered hsession
    (TCPServer.sessionIdle_of_idle hinv.tcp hv hserver)

/-- The rule in the middle of that run, while the handler waits: it will not be for ever, and once
    nothing is bound to happen any more, the client has its answer. -/
theorem requests_served_login :
    ∃ s t v, Runs.exec stepLogins (init (some (SlotPool.Flags.allFree 1))) asking = some s ∧
      (¬ ∃ f : Nat → Backend (SlotPool.Flags 1), f 0 = s ∧
        ∀ n, Runs.Moves stepLogins (Due (SlotPool.firstFree 1)) (f n) (f (n + 1))) ∧
      Runs.exec stepLogins s (found ++ responding) = some t ∧ t.tcp.sessions 0 = some v ∧
      v.isClosed = false ∧
      replies (framesOf v.writer.written) =
        responses (t.repoOf 0) 0 (framesOf Strand.loginFrame) := by
  obtain ⟨s, hrun⟩ : ∃ s, Runs.exec stepLogins (init (some (SlotPool.Flags.allFree 1))) asking =
    some s := ⟨_, rfl⟩
  obtain ⟨hsettles, hall⟩ := requests_served (SlotPool.lawful_firstFree 1)
    { AppContext.createDefault fun _ => none with dbPoolSize := 1 } 1 (by decide) rfl rfl
    (by decide) (Repository.fresh_allFree 1)
    (fun act hact => inOrder_served act (List.mem_append_left _ (List.mem_append_left _ hact))) hrun
  obtain ⟨t, v, hrun', hv, hopen, hrest, hlive, hserver, hback⟩ :
      ∃ t v, Runs.exec stepLogins s (found ++ responding) = some t ∧ t.tcp.sessions 0 = some v ∧
        v.isClosed = false ∧ Strand.Listening v ∧ t.tcp.server.live = [0] ∧
        Server.Waiting t.tcp.server ∧ ∀ k ∈ t.db.calls, k.stage = .returned := by
    cases hrun
    exact ⟨_, _, rfl, rfl, rfl, ⟨rfl, ⟨rfl, rfl, rfl⟩, ⟨rfl, by decide⟩, ⟨_, rfl⟩⟩, rfl,
      ⟨rfl, ⟨rfl, rfl, rfl, rfl⟩, rfl, rfl⟩, fun k hk => by rw [List.mem_singleton.mp hk]⟩
  have hwaiting : TCPServer.Waiting t.tcp := by
    refine ⟨hserver, fun id hid => ?_⟩
    rw [hlive, List.mem_singleton] at hid
    exact ⟨v, hid ▸ hv, Or.inl hrest⟩
  have hidle : Runs.Idle (TCPServer.step makeSessionHandlers unanswered fun _ => Strand.loginFrame)
      TCPServer.Due t.tcp := hwaiting.idle (backendInv_run (Runs.exec_trans hrun hrun')).tcp
  obtain ⟨_, hserved⟩ := hall (found ++ responding) t
    (fun act hact => inOrder_served act (by
      rw [List.append_assoc]
      exact List.mem_append_right _ hact))
    hrun' ((idle_of_parts _ hidle hback).mono due_of_served)
  rcases hserved 0 v hv with hc | ⟨hanswers, _⟩
  · rw [hopen] at hc
    cases hc
  · exact ⟨s, t, v, hrun, hsettles.no_endless_run, hrun', hv, hopen, hanswers⟩

/-! ## The end -/

/-- A server that is stopped stays so. -/
theorem stopped_step (s : Backend P) (act : BackendAct) (t : Backend P)
    (hst : s.tcp.server.isStopped = true)
    (hstep : step soci threads handlers inputs s act = some t) :
    t.tcp.server.isStopped = true := by
  cases takes_of_step hstep with
  | serve _ _ hserve => exact TCPServer.stopped_step _ _ _ hst hserve
  | session _ _ hrun =>
    rw [goOn_tcp]
    exact TCPServer.stopped_step _ _ _ hst hrun
  | db => exact hst
  | answer _ _ _ hanswer => exact TCPServer.stopped_step _ _ _ hst hanswer

/-- **`Stop` is complete, the database included.**  Once it has been called, on whichever thread and
    whatever calls of `GetPassword` are in progress, with any number of io threads, the system does
    not go on for ever, in any interleaving of its strands.  It is at rest exactly when the server
    is at its end and every call is back; then no slot is leased. -/
theorem shutdown_completes (hsoci : soci.Lawful) (config : AppContext.Config) (reported : UInt32)
    (hcount : config.dbThreadCount.toNat < 2 ^ 32)
    (hsize : soci.size = (AppContext.initDb config reported).slots.length)
    (hthreads : threads.db = (AppContext.initDb config reported).threads.toNat)
    (hio : 0 < threads.io) {pool : Option P} (hfresh : ∀ p, pool = some p → soci.leased p = ∅)
    {acts : List BackendAct} {s : Backend P}
    (h : Runs.exec (step soci threads handlers inputs) (init pool) acts = some s)
    (hst : s.tcp.server.isStopped = true) :
    Runs.Settles (step soci threads handlers inputs) (Due soci) s ∧
    ∀ acts' t, Runs.exec (step soci threads handlers inputs) s acts' = some t →
      (Runs.Idle (step soci threads handlers inputs) (Served soci) t ↔
        TCPServer.Over t.tcp ∧ ∀ k ∈ t.db.calls, k.stage = .returned) ∧
      (Runs.Idle (step soci threads handlers inputs) (Served soci) t →
        t.db.leasedSlots soci = ∅) := by
  obtain ⟨hthread, hslot⟩ := Repository.initDb_pos hcount reported
  rw [← hthreads] at hthread
  rw [← hsize] at hslot
  refine ⟨settles_of_inv (backendInv_run h), fun acts' t hrun => ?_⟩
  have hdb := leaseInv_run hsoci hfresh (Runs.exec_trans h hrun)
  have hend := backendInv_run (Runs.exec_trans h hrun)
  have hstopped := Runs.exec_invariant
    (I := fun u : Backend P => u.tcp.server.isStopped = true) stopped_step hst hrun
  have hparts := fun hidle : Runs.Idle (step soci threads handlers inputs) (Served soci) t =>
    parts_idle hend hdb hsoci hslot hthread hio hidle unanswered
  refine ⟨⟨fun hidle => ?_, fun hover => ?_⟩, fun hidle => ?_⟩
  · obtain ⟨hserver, hback⟩ := hparts hidle
    exact ⟨TCPServer.over_of_idle hend.tcp hstopped hserver, hback⟩
  · exact (idle_of_parts unanswered (hover.1.idle hend.tcp) hover.2).mono due_of_served
  · exact Repository.leasedSlots_of_returned hdb (hparts hidle).2

/-- `Stop` comes while the handler waits for its answer. -/
def stopping : List BackendAct :=
  [.tcp .signal, .tcp (.server .stopPost), .tcp (.server (.run 0 false none)),
    .tcp (.server (.stopVisit 0)), .tcp (.server .stopFinish)]

/-- The rule at that moment: the call is not back, so the system is not at rest. -/
theorem shutdown_completes_login :
    ∃ s, Runs.exec stepLogins (init (some (SlotPool.Flags.allFree 1))) (asking ++ stopping) =
        some s ∧
      Runs.Settles stepLogins (Due (SlotPool.firstFree 1)) s ∧
      ¬ Runs.Idle stepLogins (Served (SlotPool.firstFree 1)) s := by
  have hrun : Runs.exec stepLogins (init (some (SlotPool.Flags.allFree 1))) (asking ++ stopping) =
      some _ := rfl
  obtain ⟨hsettles, hall⟩ := shutdown_completes (SlotPool.lawful_firstFree 1)
    { AppContext.createDefault fun _ => none with dbPoolSize := 1 } 1 (by decide) rfl rfl
    (by decide) (Repository.fresh_allFree 1) hrun rfl
  refine ⟨_, hrun, hsettles, fun hidle => ?_⟩
  cases ((hall [] _ rfl).1.mp hidle).2 _ (List.mem_singleton.mpr rfl)

/-- **When `Run` returns the DB threads have nothing to do.**  In every state, a call that is not
    back keeps `Run` from returning: its session waits for it.  So `StopDbThreadPool`, which comes
    after `Run`, breaks off no call, and no slot is leased. -/
theorem run_leaves_db_idle (hsoci : soci.Lawful) {pool : Option P}
    (hfresh : ∀ p, pool = some p → soci.leased p = ∅) {acts : List BackendAct} {s : Backend P}
    (h : Runs.exec (step soci threads handlers inputs) (init pool) acts = some s)
    (hnone : ¬ s.tcp.HasWork) :
    (∀ k ∈ s.db.calls, k.stage = .returned) ∧
      Runs.Idle (Repository.step soci threads) (Repository.Due soci) s.db ∧
      s.db.leasedSlots soci = ∅ := by
  have hinv := backendInv_run h
  have hback : ∀ k ∈ s.db.calls, k.stage = .returned := by
    intro k hmem
    obtain ⟨c, hk⟩ := List.mem_iff_getElem?.mp hmem
    obtain ⟨id, hid⟩ := isCall_caller hinv hk
    by_contra hst
    have hasks := (hinv.asks id).mpr ⟨c, (isCall_of_getElem hk id _).mpr ⟨hid, hst⟩⟩
    obtain ⟨v, hv, ha⟩ := TCPServer.asks_iff.mp hasks
    obtain ⟨q, f, hp⟩ := Strand.asks_iff.mp ha
    refine hnone (Or.inr (Or.inr (Or.inr (Or.inr (Or.inr (Or.inr ⟨id, v, hv, ?_⟩))))))
    exact Or.inr (Or.inr (Or.inl (by simp [hp])))
  exact ⟨hback, Repository.idle_of_returned hback,
    Repository.leasedSlots_of_returned (leaseInv_run hsoci hfresh h) hback⟩

/-- The call is answered, and then the session, the accept and the server end. -/
def ending : List BackendAct :=
  [.tcp (.session 0 .closePost), .tcp (.session 0 (.run 0 false 0)),
    .tcp (.session 0 (.run 0 false 0)), .tcp (.session 0 (.run 0 false 0)),
    .tcp (.session 0 (.run 0 false 0)), .tcp (.session 0 (.readDone false)),
    .tcp (.session 0 (.run 0 false 0)), .tcp (.server (.acceptDone true)),
    .tcp (.server (.run 0 false none)), .tcp (.server (.release 0)),
    .tcp (.server (.run 0 false none))]

/-- The rule at the end of that run. -/
theorem run_leaves_db_idle_login :
    ∃ s, Runs.exec stepLogins (init (some (SlotPool.Flags.allFree 1)))
        (asking ++ stopping ++ found ++ ending) = some s ∧
      s.db.calls.length = 1 ∧ s.db.leasedSlots (SlotPool.firstFree 1) = ∅ := by
  have hrun : Runs.exec stepLogins (init (some (SlotPool.Flags.allFree 1)))
      (asking ++ stopping ++ found ++ ending) = some _ := rfl
  have hnone := TCPServer.not_hasWork (backendInv_run hrun).tcp
    ⟨rfl, rfl, rfl, rfl, rfl, rfl, rfl, rfl⟩ rfl rfl
  have hrule :=
    run_leaves_db_idle (SlotPool.lawful_firstFree 1) (Repository.fresh_allFree 1) hrun hnone
  exact ⟨_, hrun, rfl, hrule.2.2⟩

end Backend

end Zem
