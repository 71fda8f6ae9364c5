import Zem.Library.Runs
import Zem.Library.SlotPool
import Zem.Login.Handler

/-!
# PostgresAccountRepository: calls of GetPassword

Reference model of `Db/PostgresAccountRepository.cpp`: any number of coroutines that post
themselves to the DB threads, lease a session of the pool, query, give it back and post themselves
to their caller.  The pool is a parameter; a slot of it is a session.

What `post` with `use_awaitable` puts on the DB threads is a hop: it dispatches the coroutine to the
executor the coroutine is associated with, which is the strand of its caller.  So all that follows
runs on an io thread, and of the DB threads it takes no more than that hop.

* `Threads` — how many threads of either kind there are.
* `GetPasswordCall` — one coroutine: where it is, and its local variables.
* `Repository.step` — a coroutine starts, or one of them goes on, in any order.
* `Change`, `step_cases` — what a step does to the call it is about, and to the pool.
-/

set_option autoImplicit false

namespace Zem

/-- The threads of the DB pool, and those that run the `io_context` with its strands. -/
structure Threads where
  db : Nat
  io : Nat
  deriving DecidableEq, Repr

/-- Where a coroutine of `GetPassword` is: on its way by the DB threads; on an io thread, in front
    of its `try` block; in `try_lease`, where no slot was free; in front of its query; behind the
    `try` block; behind the give-back; posted to its caller, with its password. -/
inductive Stage where
  | posted
  | entered
  | waiting
  | leased
  | handled
  | settled
  | returned
  deriving DecidableEq, Repr

/-- A coroutine of `GetPassword`.  `met` is no variable of the source: it is what the `try` block
    has met. -/
structure GetPasswordCall where
  stage : Stage
  password : Option Bytes
  leased : Bool
  pos : Nat
  met : Option DbOutcome
  deriving DecidableEq, Repr

namespace GetPasswordCall

/-- At its first suspension. -/
def init : GetPasswordCall :=
  { stage := .posted, password := none, leased := false, pos := 0, met := none }

/-- The coroutine keeps an io thread. -/
def running (k : GetPasswordCall) : Bool :=
  match k.stage with
  | .posted | .returned => false
  | .entered | .waiting | .leased | .handled | .settled => true

/-- The coroutine is past its give-back. -/
def given (k : GetPasswordCall) : Bool :=
  match k.stage with
  | .settled | .returned => true
  | .posted | .entered | .waiting | .leased | .handled => false

/-- The coroutine is between its successful `try_lease` and its give-back. -/
def holds (k : GetPasswordCall) : Bool := k.leased && !k.given

/-- What the variables of a coroutine are where it is. -/
def Valid (k : GetPasswordCall) : Prop :=
  match k.stage with
  | .posted | .entered | .waiting => k.leased = false ∧ k.password = none
  | .leased => k.leased = true ∧ k.password = none
  | .handled | .settled | .returned => ∃ outcome, k.met = some outcome ∧
      k.password = outcome.password ∧ (k.leased = true ↔ ∃ query, outcome = .leased query)

/-- The `try` block ends without a lease. -/
def fail (k : GetPasswordCall) (outcome : DbOutcome) : GetPasswordCall :=
  { k with stage := .handled, met := some outcome }

end GetPasswordCall

/-- `grants` and `returns` are the leases so far and the give-backs so far, each with its call. -/
structure Repository (P : Type) where
  pool : Option P
  calls : List GetPasswordCall
  grants : List (Nat × Nat)
  returns : List (Nat × Nat)
  deriving DecidableEq, Repr

inductive RepositoryAct where
  | call
  | enter (c : Nat)
  | lease (c : Nat) (threw : Bool)
  | timeout (c : Nat)
  | query (c : Nat) (outcome : QueryOutcome)
  | giveBack (c : Nat)
  | resume (c : Nat)
  deriving DecidableEq, Repr

namespace Repository

variable {P : Type}

def init (pool : Option P) : Repository P :=
  { pool := pool, calls := [], grants := [], returns := [] }

def put (s : Repository P) (c : Nat) (k : GetPasswordCall) : Repository P :=
  { s with calls := s.calls.set c k }

/-- The io threads that calls keep. -/
def running (s : Repository P) : Nat := s.calls.countP GetPasswordCall.running

/-! ## The parts of `GetPassword` -/

/-- `!m_pool || !m_pool->try_lease(pos, lease_timeout_ms)`, each time it looks for a slot. -/
def tryLease (soci : SlotPool P) (s : Repository P) (c : Nat) (k : GetPasswordCall)
    (threw : Bool) : Repository P :=
  match s.pool with
  | none => s.put c (k.fail .nullPool)
  | some p =>
    if threw then s.put c (k.fail .leaseThrew)
    else
      match soci.tryLease p with
      | some (pos, p) =>
        { s.put c { k with stage := .leased, leased := true, pos := pos } with
          pool := some p
          grants := s.grants ++ [(c, pos)] }
      | none => s.put c { k with stage := .waiting }

/-- The query, up to the end of the `try` block or in its `catch`. -/
def query (s : Repository P) (c : Nat) (k : GetPasswordCall) (outcome : QueryOutcome) :
    Repository P :=
  let password :=
    match outcome with
    | .threw => k.password
    | .noData => k.password
    | .row ind stored => if ind = .ok then some stored else k.password
  s.put c { k with stage := .handled, password := password, met := some (.leased outcome) }

/-- `if (leased) m_pool->give_back(pos)`; there is no result where `m_pool` is null. -/
def giveBack (soci : SlotPool P) (s : Repository P) (c : Nat) (k : GetPasswordCall) :
    Option (Repository P) :=
  if k.leased then
    match s.pool with
    | some p => some { s.put c { k with stage := .settled } with
        pool := some (soci.giveBack p k.pos)
        returns := s.returns ++ [(c, k.pos)] }
    | none => none
  else some (s.put c { k with stage := .settled })

/-! ## Steps -/

/-- Call `c` goes on, if it is ready to. -/
def onCall (s : Repository P) (c : Nat) (ready : GetPasswordCall → Bool)
    (f : GetPasswordCall → Option (Repository P)) : Option (Repository P) :=
  match s.calls[c]? with
  | some k => if ready k then f k else none
  | none => none

/-- A coroutine starts, or one of them goes on; to enter, it takes a DB thread for the hop and an io
    thread that no other call keeps.  A call that waits in `try_lease` looks again whenever it
    likes, and may run into its timeout. -/
def step (soci : SlotPool P) (threads : Threads) (s : Repository P) :
    RepositoryAct → Option (Repository P)
  | .call => some { s with calls := s.calls ++ [.init] }
  | .enter c => s.onCall c
      (fun k => k.stage = .posted && 0 < threads.db && s.running < threads.io) fun k =>
        some (s.put c { k with stage := .entered })
  | .lease c threw => s.onCall c (fun k => k.stage = .entered || k.stage = .waiting) fun k =>
      some (s.tryLease soci c k threw)
  | .timeout c => s.onCall c (fun k => k.stage = .waiting) fun k =>
      some (s.put c (k.fail .leaseTimeout))
  | .query c outcome => s.onCall c (fun k => k.stage = .leased) fun k =>
      some (s.query c k outcome)
  | .giveBack c => s.onCall c (fun k => k.stage = .handled) fun k => s.giveBack soci c k
  | .resume c => s.onCall c (fun k => k.stage = .settled) fun k =>
      some (s.put c { k with stage := .returned })

theorem onCall_eq_some {s t : Repository P} {c : Nat} {ready : GetPasswordCall → Bool}
    {f : GetPasswordCall → Option (Repository P)} (h : s.onCall c ready f = some t) :
    ∃ k, s.calls[c]? = some k ∧ ready k = true ∧ f k = some t := by
  unfold onCall at h
  split at h
  · rename_i k hk
    split at h
    · rename_i hready
      exact ⟨k, hk, hready, h⟩
    · cases h
  · cases h

theorem onCall_of {s : Repository P} {c : Nat} {ready : GetPasswordCall → Bool}
    {k : GetPasswordCall} (hk : s.calls[c]? = some k) (hready : ready k = true)
    (f : GetPasswordCall → Option (Repository P)) : s.onCall c ready f = f k := by
  simp only [onCall, hk, hready, if_true]

/-! ## What a step does -/

/-- A step of call `c`, which was `k` and is `k'`: it leaves the leases as they are, or is granted a
    slot, or gives its slot back. -/
inductive Change (soci : SlotPool P) (s t : Repository P) (c : Nat) (k k' : GetPasswordCall) :
    Prop where
  | keep (hpool : t.pool = s.pool) (hgrants : t.grants = s.grants)
    (hreturns : t.returns = s.returns) (hleased : k'.leased = k.leased) (hpos : k'.pos = k.pos)
    (hgiven : k.leased = true → k'.given = k.given)
  | grant {p p' : P} {pos : Nat} (hp : s.pool = some p) (htry : soci.tryLease p = some (pos, p'))
    (hpool : t.pool = some p') (hgrants : t.grants = s.grants ++ [(c, pos)])
    (hreturns : t.returns = s.returns) (hfree : k.leased = false)
    (hk' : k'.leased = true ∧ k'.pos = pos ∧ k'.given = false)
  | giveBack {p : P} (hp : s.pool = some p) (hpool : t.pool = some (soci.giveBack p k.pos))
    (hgrants : t.grants = s.grants) (hreturns : t.returns = s.returns ++ [(c, k.pos)])
    (hk : k.leased = true ∧ k.given = false)
    (hk' : k'.leased = true ∧ k'.pos = k.pos ∧ k'.given = true)

/-- The call may wait in `try_lease` now. -/
def Waits (soci : SlotPool P) (s : Repository P) (k : GetPasswordCall) : Prop :=
  ∃ p, s.pool = some p ∧ soci.tryLease p = none ∧ k.running = true ∧ k.holds = false

/-- **What a step does**: a call is added, or one call goes on. -/
theorem step_cases {soci : SlotPool P} {threads : Threads} {s t : Repository P}
    {act : RepositoryAct} (hvalid : ∀ k ∈ s.calls, k.Valid) (h : step soci threads s act = some t) :
    t = { s with calls := s.calls ++ [.init] } ∨
    ∃ c k k', s.calls[c]? = some k ∧ t.calls = s.calls.set c k' ∧ k'.Valid ∧
      (k.running = false → k'.running = true → 0 < threads.db ∧ s.running < threads.io) ∧
      (k'.stage = .waiting → Waits soci s k) ∧ Change soci s t c k k' := by
  cases act with
  | call =>
    cases h
    exact Or.inl rfl
  | enter c =>
    obtain ⟨k, hk, hready, h⟩ := onCall_eq_some h
    simp only [Bool.and_eq_true, decide_eq_true_eq] at hready
    obtain ⟨⟨hst, hdb⟩, hroom⟩ := hready
    cases h
    have hv := hvalid k (List.mem_of_getElem? hk)
    simp only [GetPasswordCall.Valid, hst] at hv
    refine Or.inr ⟨c, k, _, hk, rfl, hv, fun _ _ => ⟨hdb, hroom⟩, by simp, ?_⟩
    exact .keep rfl rfl rfl rfl rfl fun hl => by rw [hv.1] at hl; cases hl
  | lease c threw =>
    obtain ⟨k, hk, hready, h⟩ := onCall_eq_some h
    simp only [Bool.or_eq_true, decide_eq_true_eq] at hready
    cases h
    have hv := hvalid k (List.mem_of_getElem? hk)
    have hv : k.leased = false ∧ k.password = none := by
      rcases hready with hst | hst <;> simpa only [GetPasswordCall.Valid, hst] using hv
    have hrun : k.running = true := by
      rcases hready with hst | hst <;> simp only [GetPasswordCall.running, hst]
    have hfail : ∀ outcome : DbOutcome, outcome.password = none → (∀ q, outcome ≠ .leased q) →
        (k.fail outcome).Valid := by
      intro outcome hnone hno
      refine ⟨outcome, rfl, hv.2.trans hnone.symm, fun hl => ?_, fun ⟨q, hq⟩ => absurd hq (hno q)⟩
      rw [GetPasswordCall.fail, hv.1] at hl
      cases hl
    have hkeep : ∀ k' : GetPasswordCall, k'.leased = k.leased → k'.pos = k.pos →
        Change soci s (s.put c k') c k k' := fun k' hl hp =>
      .keep rfl rfl rfl hl hp fun hl => by rw [hv.1] at hl; cases hl
    unfold tryLease
    split
    · exact Or.inr ⟨c, k, _, hk, rfl, hfail _ rfl (by simp), by simp [hrun],
        by simp [GetPasswordCall.fail], hkeep _ rfl rfl⟩
    rename_i p hp
    split
    · exact Or.inr ⟨c, k, _, hk, rfl, hfail _ rfl (by simp), by simp [hrun],
        by simp [GetPasswordCall.fail], hkeep _ rfl rfl⟩
    split
    · rename_i pos p' htry
      exact Or.inr ⟨c, k, _, hk, rfl, ⟨rfl, hv.2⟩, by simp [hrun], by simp,
        .grant hp htry rfl rfl rfl hv.1 ⟨rfl, rfl, rfl⟩⟩
    · rename_i htry
      exact Or.inr ⟨c, k, _, hk, rfl, hv, by simp [hrun],
        fun _ => ⟨p, hp, htry, hrun, by simp [GetPasswordCall.holds, hv.1]⟩, hkeep _ rfl rfl⟩
  | timeout c =>
    obtain ⟨k, hk, hready, h⟩ := onCall_eq_some h
    have hst : k.stage = .waiting := by simpa using hready
    cases h
    have hv := hvalid k (List.mem_of_getElem? hk)
    simp only [GetPasswordCall.Valid, hst] at hv
    refine Or.inr ⟨c, k, _, hk, rfl, ?_, by simp [GetPasswordCall.running, hst],
      by simp [GetPasswordCall.fail], ?_⟩
    · refine ⟨.leaseTimeout, rfl, hv.2, fun hl => ?_, fun ⟨q, hq⟩ => by cases hq⟩
      rw [GetPasswordCall.fail, hv.1] at hl
      cases hl
    · exact .keep rfl rfl rfl rfl rfl fun hl => by rw [hv.1] at hl; cases hl
  | query c outcome =>
    obtain ⟨k, hk, hready, h⟩ := onCall_eq_some h
    have hst : k.stage = .leased := by simpa using hready
    cases h
    have hv := hvalid k (List.mem_of_getElem? hk)
    simp only [GetPasswordCall.Valid, hst] at hv
    refine Or.inr ⟨c, k, _, hk, rfl, ?_, by simp [GetPasswordCall.running, hst], by simp, ?_⟩
    · refine ⟨.leased outcome, rfl, ?_, fun _ => ⟨outcome, rfl⟩, fun _ => hv.1⟩
      cases outcome <;> simp [DbOutcome.password, hv.2]
    · exact .keep rfl rfl rfl rfl rfl fun _ => by simp [GetPasswordCall.given, hst]
  | giveBack c =>
    obtain ⟨k, hk, hready, h⟩ := onCall_eq_some h
    have hst : k.stage = .handled := by simpa using hready
    have hv := hvalid k (List.mem_of_getElem? hk)
    simp only [GetPasswordCall.Valid, hst] at hv
    have hgiven : k.given = false := by simp only [GetPasswordCall.given, hst]
    unfold giveBack at h
    split at h
    · rename_i hl
      split at h
      · rename_i p hp
        cases h
        exact Or.inr ⟨c, k, _, hk, rfl, hv, by simp [GetPasswordCall.running, hst], by simp,
          .giveBack hp rfl rfl rfl ⟨hl, hgiven⟩ ⟨hl, rfl, rfl⟩⟩
      · cases h
    · rename_i hl
      cases h
      exact Or.inr ⟨c, k, _, hk, rfl, hv, by simp [GetPasswordCall.running, hst], by simp,
        .keep rfl rfl rfl rfl rfl fun hl' => absurd hl' hl⟩
  | resume c =>
    obtain ⟨k, hk, hready, h⟩ := onCall_eq_some h
    have hst : k.stage = .settled := by simpa using hready
    cases h
    have hv := hvalid k (List.mem_of_getElem? hk)
    simp only [GetPasswordCall.Valid, hst] at hv
    exact Or.inr ⟨c, k, _, hk, rfl, hv, by simp [GetPasswordCall.running], by simp,
      .keep rfl rfl rfl rfl rfl fun _ => by simp [GetPasswordCall.given, hst]⟩

end Repository

end Zem
