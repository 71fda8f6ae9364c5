import Zem.Db.Leases
import Zem.Library.Settling

/-!
# The calls of GetPassword come back

A call that waits in `try_lease` keeps the io thread it is on: calls wait for a thread, and the
calls on the threads for a slot.

* `Repository.Due`, `Repository.Served` — what is bound to happen to the calls; what of it is left
  when no lease times out and none throws.
* `GoesOn`, `goesOn_step` — what a step makes of the call it is about.
* `settles_calls` — the calls do not go on for ever.
* `moves_of_running` — of the calls on the threads one can always go on.
* `calls_return` — no interleaving leaves a call behind, with the sizes `InitDb` gives the pools.
* `outcomes`, `MeetsInv`, `meetsInv_run` — what the `try` blocks have met in a run.
* `answered_once` — each call comes back with what the login model makes of what it met.
-/

set_option autoImplicit false

namespace Zem

/-- The stages between the call and its return. -/
def Stage.left : Stage → Nat
  | .posted => 6
  | .entered => 5
  | .waiting => 4
  | .leased => 3
  | .handled => 2
  | .settled => 1
  | .returned => 0

namespace GetPasswordCall

/-- The coroutine is in front of its `try` block, or in it. -/
def pending (k : GetPasswordCall) : Bool :=
  match k.stage with
  | .posted | .entered | .waiting | .leased => true
  | .handled | .settled | .returned => false

/-- What coroutine `c` has met. -/
def hasMet (c : Nat) (k : GetPasswordCall) : List (Nat × DbOutcome) :=
  k.met.toList.map fun outcome => (c, outcome)

theorem met_of_valid {k : GetPasswordCall} (hvalid : k.Valid) (hp : k.pending = false) :
    ∃ outcome, k.met = some outcome ∧ k.password = outcome.password := by
  unfold pending at hp
  unfold Valid at hvalid
  split at hp
  · cases hp
  · cases hp
  · cases hp
  · cases hp
  all_goals
    rename_i hst
    rw [hst] at hvalid
    obtain ⟨outcome, hmet, hpassword, _⟩ := hvalid
    exact ⟨outcome, hmet, hpassword⟩

end GetPasswordCall

namespace Repository

variable {P : Type}

/-- A call that waits looks for a slot, and there is none. -/
def LooksInVain (soci : SlotPool P) (s : Repository P) (c : Nat) : Prop :=
  (∃ p, s.pool = some p ∧ soci.tryLease p = none) ∧
    ∃ k, s.calls[c]? = some k ∧ k.stage = .waiting

/-- What is bound to happen to the calls. -/
def Due (soci : SlotPool P) (s : Repository P) : RepositoryAct → Prop
  | .call => False
  | .lease c threw => threw = true ∨ ¬ LooksInVain soci s c
  | .enter _ | .timeout _ | .query _ _ | .giveBack _ | .resume _ => True

/-- What of it is left when no lease times out and none throws. -/
def Served (soci : SlotPool P) (s : Repository P) : RepositoryAct → Prop
  | .call | .timeout _ => False
  | .lease c threw => threw = false ∧ ¬ LooksInVain soci s c
  | .enter _ | .query _ _ | .giveBack _ | .resume _ => True

theorem due_of_served {soci : SlotPool P} (s : Repository P) (act : RepositoryAct)
    (h : Served soci s act) : Due soci s act := by
  cases act with
  | call | timeout c => exact h.elim
  | lease c threw => exact Or.inr h.2
  | enter c | query c outcome | giveBack c | resume c => trivial

/-- What the `try` block of a call meets in the step; most steps end none. -/
def meets (s : Repository P) : RepositoryAct → Option (Nat × DbOutcome)
  | .lease c threw =>
    match s.pool with
    | none => some (c, .nullPool)
    | some _ => if threw then some (c, .leaseThrew) else none
  | .timeout c => some (c, .leaseTimeout)
  | .query c outcome => some (c, .leased outcome)
  | .call | .enter _ | .giveBack _ | .resume _ => none

/-! ## One call goes on -/

section

variable {soci : SlotPool P} {threads : Threads} {s t : Repository P} {c : Nat}
  {k k' : GetPasswordCall}

/-- What a step makes of the call it is about: it has less to do, unless it has looked for a slot in
    vain; and its `try` block goes on, or is over. -/
structure GoesOn (soci : SlotPool P) (s : Repository P) (act : RepositoryAct) (c : Nat)
    (k k' : GetPasswordCall) : Prop where
  left : k'.stage.left < k.stage.left ∨
    k'.stage = .waiting ∧ act = .lease c false ∧ LooksInVain soci s c
  back : k'.stage = .returned ↔ act = .resume c
  met : s.meets act = none ∧ k'.met = k.met ∧ k'.pending = k.pending ∨
    ∃ outcome, s.meets act = some (c, outcome) ∧ k.pending = true ∧ k'.pending = false ∧
      k'.met = some outcome

/-- A call that is on its way is not back yet. -/
theorem GoesOn.notReturned {act : RepositoryAct} (h : GoesOn soci s act c k k')
    (hk : s.calls[c]? = some k) : k.stage ≠ .returned := by
  intro hst
  rcases h.left with hlt | ⟨_, _, _, k₀, hk₀, hw⟩
  · rw [hst] at hlt
    exact Nat.not_lt_zero _ hlt
  · rw [hk] at hk₀
    cases hk₀
    rw [hst] at hw
    cases hw

/-- A look for a slot. -/
theorem tryLease_spec (soci : SlotPool P) (s : Repository P) (c : Nat) (threw : Bool)
    (hk : s.calls[c]? = some k) (hready : k.stage = .entered ∨ k.stage = .waiting) :
    ∃ k', (s.tryLease soci c k threw).calls = s.calls.set c k' ∧
      GoesOn soci s (.lease c threw) c k k' := by
  have hleft : 3 < k.stage.left := by
    rcases hready with hst | hst
    · rw [hst]
      decide
    · rw [hst]
      decide
  have hpending : k.pending = true := by
    rcases hready with hst | hst
    · simp only [GetPasswordCall.pending, hst]
    · simp only [GetPasswordCall.pending, hst]
  have hfail : ∀ outcome, s.meets (.lease c threw) = some (c, outcome) →
      GoesOn soci s (.lease c threw) c k (k.fail outcome) := fun outcome hmeets =>
    { left := Or.inl (Nat.lt_trans (by decide : 2 < 3) hleft)
      back := by simp [GetPasswordCall.fail]
      met := Or.inr ⟨outcome, hmeets, hpending, rfl, rfl⟩ }
  unfold tryLease
  split
  · rename_i hpool
    exact ⟨_, rfl, hfail .nullPool (by simp only [meets, hpool])⟩
  rename_i p hpool
  split
  · rename_i hthrew
    exact ⟨_, rfl, hfail .leaseThrew (by simp only [meets, hpool, hthrew, if_true])⟩
  rename_i hthrew
  have hnone : s.meets (.lease c threw) = none := by simp only [meets, hpool, if_neg hthrew]
  split
  · exact ⟨_, rfl, Or.inl hleft, by simp, Or.inl ⟨hnone, rfl, hpending.symm⟩⟩
  · rename_i htry
    refine ⟨_, rfl, ?_, by simp, Or.inl ⟨hnone, rfl, hpending.symm⟩⟩
    rcases hready with hst | hst
    · exact Or.inl (by simp [hst, Stage.left])
    · rw [Bool.not_eq_true] at hthrew
      exact Or.inr ⟨rfl, by rw [hthrew], ⟨p, hpool, htry⟩, k, hk, hst⟩

theorem giveBack_calls (h : s.giveBack soci c k = some t) :
    t.calls = s.calls.set c { k with stage := .settled } := by
  unfold giveBack at h
  split at h
  · split at h
    · cases h
      rfl
    · cases h
  · cases h
    rfl

/-- **In every step but a call one call goes on.** -/
theorem goesOn_step {act : RepositoryAct} (hact : act ≠ .call)
    (h : step soci threads s act = some t) :
    ∃ c k k', s.calls[c]? = some k ∧ t.calls = s.calls.set c k' ∧ GoesOn soci s act c k k' := by
  cases act with
  | call => exact absurd rfl hact
  | enter c =>
    obtain ⟨k, hk, hready, h⟩ := onCall_eq_some h
    simp only [Bool.and_eq_true, decide_eq_true_eq] at hready
    cases h
    exact ⟨c, k, _, hk, rfl, Or.inl (by simp [hready.1.1, Stage.left]), by simp,
      Or.inl ⟨rfl, rfl, by simp only [GetPasswordCall.pending, hready.1.1]⟩⟩
  | lease c threw =>
    obtain ⟨k, hk, hready, h⟩ := onCall_eq_some h
    simp only [Bool.or_eq_true, decide_eq_true_eq] at hready
    cases h
    obtain ⟨k', hcalls, hgoes⟩ := tryLease_spec soci s c threw hk hready
    exact ⟨c, k, k', hk, hcalls, hgoes⟩
  | timeout c =>
    obtain ⟨k, hk, hready, h⟩ := onCall_eq_some h
    have hst : k.stage = .waiting := by simpa using hready
    cases h
    exact ⟨c, k, _, hk, rfl, Or.inl (by simp [hst, Stage.left, GetPasswordCall.fail]),
      by simp [GetPasswordCall.fail],
      Or.inr ⟨_, rfl, by simp only [GetPasswordCall.pending, hst], rfl, rfl⟩⟩
  | query c outcome =>
    obtain ⟨k, hk, hready, h⟩ := onCall_eq_some h
    have hst : k.stage = .leased := by simpa using hready
    cases h
    exact ⟨c, k, _, hk, rfl, Or.inl (by simp [hst, Stage.left]), by simp,
      Or.inr ⟨_, rfl, by simp only [GetPasswordCall.pending, hst], rfl, rfl⟩⟩
  | giveBack c =>
    obtain ⟨k, hk, hready, h⟩ := onCall_eq_some h
    have hst : k.stage = .handled := by simpa using hready
    exact ⟨c, k, _, hk, giveBack_calls h, Or.inl (by simp [hst, Stage.left]), by simp,
      Or.inl ⟨rfl, rfl, by simp only [GetPasswordCall.pending, hst]⟩⟩
  | resume c =>
    obtain ⟨k, hk, hready, h⟩ := onCall_eq_some h
    have hst : k.stage = .settled := by simpa using hready
    cases h
    exact ⟨c, k, _, hk, rfl, Or.inl (by simp [hst, Stage.left]), by simp,
      Or.inl ⟨rfl, rfl, by simp only [GetPasswordCall.pending, hst]⟩⟩

end

/-! ## The calls do not go on for ever -/

/-- What call `c` has left to do. -/
def leftOf (s : Repository P) (c : Nat) : Nat :=
  s.calls[c]?.elim 0 fun k => k.stage.left

section

variable {soci : SlotPool P} {threads : Threads} {s t : Repository P} {c : Nat}
  {k k' : GetPasswordCall}

/-- **Every step that is due moves one call on**, and adds none. -/
theorem oneLess_step {act : RepositoryAct} (hdue : Due soci s act)
    (h : step soci threads s act = some t) :
    t.calls.length = s.calls.length ∧
      Runs.OneLess (· < ·) s.calls.length t.leftOf s.leftOf := by
  have hact : act ≠ .call := by
    rintro rfl
    exact hdue
  obtain ⟨c, k, k', hk, hcalls, hgoes⟩ := goesOn_step hact h
  have hlt : k'.stage.left < k.stage.left := by
    rcases hgoes.left with hlt | ⟨_, rfl, hvain⟩
    · exact hlt
    · rcases hdue with hdue | hdue
      · cases hdue
      · exact absurd hvain hdue
  obtain ⟨hc, _⟩ := List.getElem?_eq_some_iff.mp hk
  refine ⟨by rw [hcalls, List.length_set], c, hc, ?_, fun c' hne => ?_⟩
  · simpa only [leftOf, getElem?_change hk hcalls, if_pos, hk, Option.elim_some] using hlt
  · simp only [leftOf, getElem?_change hk hcalls, if_neg hne]

/-- The calls do not go on for ever, in any interleaving of the threads. -/
theorem settles_calls (soci : SlotPool P) (threads : Threads) (s : Repository P) :
    Runs.Settles (step soci threads) (Due soci) s := by
  refine Runs.settles_of_work (Runs.wellFounded_oneLess Nat.lt_wfRel.wf s.calls.length)
    (I := fun t => t.calls.length = s.calls.length) ?_ leftOf ?_ rfl
  · intro t act u ht hdue hstep
    exact (oneLess_step hdue hstep).1.trans ht
  · intro t act u ht hdue hstep
    rw [← ht]
    exact (oneLess_step hdue hstep).2

/-! ## One of the calls goes on -/

theorem moves_of_held (h : LeaseInv soci threads s) {pos : Nat} (hc : s.heldBy c = some pos) :
    ∃ t, Runs.Moves (step soci threads) (Served soci) s t := by
  obtain ⟨_, hrun | hrun, _⟩ := gives_back h hc .noData
  · obtain ⟨t, ht, _⟩ := Runs.exec_cons_some hrun
    exact ⟨t, .query c .noData, trivial, ht⟩
  · obtain ⟨t, ht, _⟩ := Runs.exec_cons_some hrun
    exact ⟨t, .giveBack c, trivial, ht⟩

/-- A call that has a slot, or looks for one the first time, or is done with it, goes on. -/
theorem moves_of_stage (h : LeaseInv soci threads s) (hk : s.calls[c]? = some k)
    (hst : k.stage = .entered ∨ k.stage = .leased ∨ k.stage = .handled ∨ k.stage = .settled) :
    ∃ t, Runs.Moves (step soci threads) (Served soci) s t := by
  rcases hst with hst | hst | hst | hst
  · refine ⟨_, .lease c false, ⟨rfl, ?_⟩, onCall_of hk (by simp [hst]) _⟩
    rintro ⟨_, k₀, hk₀, hw⟩
    rw [hk] at hk₀
    cases hk₀
    rw [hst] at hw
    cases hw
  · exact ⟨_, .query c .noData, trivial, onCall_of hk (by simp [hst]) _⟩
  · cases hl : k.leased with
    | true =>
      refine moves_of_held h ((held_eq_some_iff s c k.pos).mpr ⟨k, hk, ?_, rfl⟩)
      simp [GetPasswordCall.holds, GetPasswordCall.given, hl, hst]
    | false =>
      refine ⟨s.put c { k with stage := .settled }, .giveBack c, trivial, ?_⟩
      refine (onCall_of hk (by simp [hst]) _).trans ?_
      simp [giveBack, hl]
  · exact ⟨_, .resume c, trivial, onCall_of hk (by simp [hst]) _⟩

/-- A call that waits finds a slot, or a call that holds one goes on. -/
theorem moves_of_waiting (hsoci : soci.Lawful) (hsize : 0 < soci.size)
    (h : LeaseInv soci threads s) (hk : s.calls[c]? = some k) (hst : k.stage = .waiting) :
    ∃ t, Runs.Moves (step soci threads) (Served soci) s t := by
  by_cases hvain : LooksInVain soci s c
  · obtain ⟨⟨p, hp, htry⟩, _⟩ := hvain
    have hmem : 0 ∈ s.leasedSlots soci := by
      rw [leasedSlots, hp]
      exact hsoci.refused p htry 0 hsize
    obtain ⟨c', hc'⟩ := (h.holders.slots 0).mp hmem
    exact moves_of_held h hc'
  · exact ⟨_, .lease c false, ⟨rfl, hvain⟩, onCall_of hk (by simp [hst]) _⟩

theorem moves_of_running (hsoci : soci.Lawful) (hsize : 0 < soci.size)
    (h : LeaseInv soci threads s) (hk : s.calls[c]? = some k) (hrun : k.running = true) :
    ∃ t, Runs.Moves (step soci threads) (Served soci) s t := by
  cases hst : k.stage with
  | posted | returned => simp [GetPasswordCall.running, hst] at hrun
  | waiting => exact moves_of_waiting hsoci hsize h hk hst
  | entered | leased | handled | settled => exact moves_of_stage h hk (by simp [hst])

/-- A posted call gets an io thread, or a call that keeps one goes on. -/
theorem moves_of_posted (hsoci : soci.Lawful) (hsize : 0 < soci.size) (hdb : 0 < threads.db)
    (hio : 0 < threads.io) (h : LeaseInv soci threads s) (hk : s.calls[c]? = some k)
    (hst : k.stage = .posted) : ∃ t, Runs.Moves (step soci threads) (Served soci) s t := by
  by_cases hroom : s.running < threads.io
  · exact ⟨_, .enter c, trivial, onCall_of hk (by simp [hst, hdb, hroom]) _⟩
  · have hsome : 0 < s.calls.countP GetPasswordCall.running := by
      have hcount : s.running = s.calls.countP GetPasswordCall.running := rfl
      omega
    obtain ⟨k', hmem, hrun⟩ := List.countP_pos_iff.mp hsome
    obtain ⟨c', hk'⟩ := List.mem_iff_getElem?.mp hmem
    exact moves_of_running hsoci hsize h hk' hrun

/-- **No deadlock**: where nothing can happen any more every call is back. -/
theorem returned_of_idle (hsoci : soci.Lawful) (hsize : 0 < soci.size) (hdb : 0 < threads.db)
    (hio : 0 < threads.io) (h : LeaseInv soci threads s)
    (hidle : Runs.Idle (step soci threads) (Served soci) s) :
    ∀ k ∈ s.calls, k.stage = .returned := by
  intro k hmem
  obtain ⟨c, hk⟩ := List.mem_iff_getElem?.mp hmem
  have hno : ¬ ∃ t, Runs.Moves (step soci threads) (Served soci) s t :=
    fun ⟨t, ht⟩ => hidle t ht
  cases hst : k.stage with
  | returned => rfl
  | posted => exact absurd (moves_of_posted hsoci hsize hdb hio h hk hst) hno
  | entered | waiting | leased | handled | settled =>
    exact absurd (moves_of_running hsoci hsize h hk (by simp [GetPasswordCall.running, hst])) hno

/-- Where every call is back nothing is bound to happen. -/
theorem idle_of_returned (hback : ∀ k ∈ s.calls, k.stage = .returned) :
    Runs.Idle (step soci threads) (Due soci) s := by
  rintro t ⟨act, hdue, hstep⟩
  have hst : ∀ {c : Nat} {k : GetPasswordCall}, s.calls[c]? = some k → k.stage = .returned :=
    fun hk => hback _ (List.mem_of_getElem? hk)
  cases act with
  | call => exact hdue
  | enter c | lease c | timeout c | query c | giveBack c | resume c =>
    obtain ⟨k, hk, hready, _⟩ := onCall_eq_some hstep
    simp [hst hk] at hready

/-- Where every call is back no slot is leased. -/
theorem leasedSlots_of_returned (h : LeaseInv soci threads s)
    (hback : ∀ k ∈ s.calls, k.stage = .returned) : s.leasedSlots soci = ∅ := by
  refine Finset.eq_empty_of_forall_notMem fun pos hpos => ?_
  obtain ⟨c, hc⟩ := (h.holders.slots pos).mp hpos
  obtain ⟨k, hk, hholds, _⟩ := (held_eq_some_iff s c pos).mp hc
  have hst := hback k (List.mem_of_getElem? hk)
  simp [GetPasswordCall.holds, GetPasswordCall.given, hst] at hholds

end

/-! ## The sizes of the pools -/

/-- `InitDb` asks for a thread, unless the number asked for is lost in the cast to `unsigned int`,
    and for a slot. -/
theorem initDb_pos {config : AppContext.Config} (hcount : config.dbThreadCount.toNat < 2 ^ 32)
    (reported : UInt32) :
    0 < (AppContext.initDb config reported).threads.toNat ∧
      0 < (AppContext.initDb config reported).slots.length := by
  constructor
  · have hhonoured := (AppContext.threads_honoured_iff config reported).mpr hcount
    exact Nat.pos_of_ne_zero fun h0 => hhonoured.2 (UInt32.toNat_inj.mp h0)
  · have hbounds := AppContext.concurrency_bounds reported
    simp only [AppContext.initDb, PostgresRepositoryFactory.createAccountRepository,
      List.length_map, List.length_range, PostgresRepositoryFactory.poolSize]
    split
    · rename_i hne
      exact Nat.pos_of_ne_zero fun h0 => hne (UInt64.toNat_inj.mp h0)
    · have htwo : (2 : UInt64).toNat = 2 := rfl
      rw [UInt64.toNat_mul, htwo]
      omega

/-- **Every call comes back.**  With the sizes that `InitDb` gives the two pools, and any number of
    io threads, in any run: the calls do not go on for ever; as long as one of them is not back one
    can go on, although those that wait for a slot keep their io threads, and even if no lease times
    out and none throws; and when all are back nothing is bound to happen and no slot is leased. -/
theorem calls_return {soci : SlotPool P} (hsoci : soci.Lawful) (config : AppContext.Config)
    (reported : UInt32) (hcount : config.dbThreadCount.toNat < 2 ^ 32)
    (hsize : soci.size = (AppContext.initDb config reported).slots.length) {threads : Threads}
    (hdb : threads.db = (AppContext.initDb config reported).threads.toNat)
    (hio : 0 < threads.io) {pool : Option P}
    (hfresh : ∀ p, pool = some p → soci.leased p = ∅) {acts : List RepositoryAct}
    {s : Repository P} (h : Runs.exec (step soci threads) (init pool) acts = some s) :
    Runs.Settles (step soci threads) (Due soci) s ∧
    (Runs.Idle (step soci threads) (Served soci) s ↔ ∀ k ∈ s.calls, k.stage = .returned) ∧
    ((∀ k ∈ s.calls, k.stage = .returned) →
      Runs.Idle (step soci threads) (Due soci) s ∧ s.leasedSlots soci = ∅) := by
  have hinv := leaseInv_run hsoci hfresh h
  obtain ⟨hthread, hslot⟩ := initDb_pos hcount reported
  rw [← hdb] at hthread
  rw [← hsize] at hslot
  refine ⟨settles_calls soci threads s, ⟨?_, ?_⟩, fun hback => ⟨?_, ?_⟩⟩
  · exact returned_of_idle hsoci hslot hthread hio hinv
  · exact fun hback => (idle_of_returned hback).mono due_of_served
  · exact idle_of_returned hback
  · exact leasedSlots_of_returned hinv hback

/-- One slot for two calls on two io threads: the second call waits for the first. -/
def oneSlot : List RepositoryAct :=
  [.call, .call, .enter 0, .enter 1, .lease 0 false, .lease 1 false, .query 0 .noData]

/-- The rule while a call waits: there is something to do. -/
theorem calls_return_oneSlot :
    ∃ s, Runs.exec (step (SlotPool.firstFree 1) ⟨2, 2⟩) (init (some (SlotPool.Flags.allFree 1)))
        oneSlot = some s ∧
      Runs.Settles (step (SlotPool.firstFree 1) ⟨2, 2⟩) (Due (SlotPool.firstFree 1)) s ∧
      ¬ Runs.Idle (step (SlotPool.firstFree 1) ⟨2, 2⟩) (Served (SlotPool.firstFree 1)) s := by
  have hrun : Runs.exec (step (SlotPool.firstFree 1) ⟨2, 2⟩)
      (init (some (SlotPool.Flags.allFree 1))) oneSlot = some _ := rfl
  obtain ⟨hsettles, hidle, _⟩ := calls_return (SlotPool.lawful_firstFree 1)
    { AppContext.createDefault fun _ => none with dbPoolSize := 1 } 1 (by decide) rfl rfl
    (by decide) (fresh_allFree 1) hrun
  refine ⟨_, hrun, hsettles, fun h => ?_⟩
  cases hidle.mp h _ (List.mem_of_getElem? (i := 1) rfl)

/-! ## What the calls have met -/

/-- All that the `try` blocks meet in the run, in order. -/
def outcomes (soci : SlotPool P) (threads : Threads) (pool : Option P) (acts : List RepositoryAct) :
    List (Nat × DbOutcome) :=
  Runs.observe (step soci threads) (fun s act _ log => log ++ (s.meets act).toList) (init pool) []
    acts

section

variable {soci : SlotPool P} {threads : Threads} {s t : Repository P}

theorem valid_step {act : RepositoryAct} (hvalid : ∀ k ∈ s.calls, k.Valid)
    (h : step soci threads s act = some t) : ∀ k ∈ t.calls, k.Valid := by
  intro x hx
  rcases step_cases hvalid h with rfl | ⟨c, k, k', _, hcalls, hk', _⟩
  · rcases List.mem_append.mp hx with hx | hx
    · exact hvalid x hx
    · rw [List.mem_singleton.mp hx]
      exact ⟨rfl, rfl⟩
  · rw [hcalls] at hx
    rcases List.mem_or_eq_of_mem_set hx with hx | rfl
    · exact hvalid x hx
    · exact hk'

/-- A call that is past its `try` block has met one outcome there, and the others none. -/
structure MeetsInv (s : Repository P) (log : List (Nat × DbOutcome)) : Prop where
  valid : ∀ k ∈ s.calls, k.Valid
  pending : ∀ k ∈ s.calls, k.pending = true → k.met = none
  log : ∀ c, log.filter (·.1 = c) = s.calls[c]?.elim [] (GetPasswordCall.hasMet c)

theorem meetsInv_step (s : Repository P) (act : RepositoryAct) (t : Repository P)
    (log : List (Nat × DbOutcome)) (h : MeetsInv s log) (hstep : step soci threads s act = some t) :
    MeetsInv t (log ++ (s.meets act).toList) := by
  have hvalid := valid_step h.valid hstep
  by_cases hcall : act = .call
  · subst hcall
    cases hstep
    refine ⟨hvalid, fun k hk => ?_, fun c => ?_⟩
    · rcases List.mem_append.mp hk with hk | hk
      · exact h.pending k hk
      · rw [List.mem_singleton.mp hk]
        exact fun _ => rfl
    · rw [meets, Option.toList_none, List.append_nil, h.log]
      exact (elim_call [] (GetPasswordCall.hasMet c) rfl s.calls c).symm
  obtain ⟨c, k, k', hk, hcalls, hgoes⟩ := goesOn_step hcall hstep
  have hmem := h.pending k (List.mem_of_getElem? hk)
  have hpending : (k'.pending = true → k'.met = none) →
      ∀ x ∈ t.calls, x.pending = true → x.met = none := by
    intro hk' x hx
    rw [hcalls] at hx
    rcases List.mem_or_eq_of_mem_set hx with hx | rfl
    · exact h.pending x hx
    · exact hk'
  rcases hgoes.met with ⟨hnone, hsame, hp⟩ | ⟨outcome, hsome, hp, hp', hmet⟩
  · refine ⟨hvalid, hpending (by rw [hsame, hp]; exact hmem), ?_⟩
    exact log_change _ hk hcalls rfl (by simp [hnone])
      (by simp [GetPasswordCall.hasMet, hsame, hnone]) h.log
  · refine ⟨hvalid, hpending (by simp [hp']), ?_⟩
    exact log_change _ hk hcalls rfl (by simp [hsome])
      (by simp [GetPasswordCall.hasMet, hmem hp, hmet, hsome]) h.log

theorem meetsInv_run {pool : Option P} {acts : List RepositoryAct}
    (h : Runs.exec (step soci threads) (init pool) acts = some s) :
    MeetsInv s (outcomes soci threads pool acts) := by
  have hinit : MeetsInv (init pool) [] :=
    ⟨fun _ hk => absurd hk List.not_mem_nil, fun _ hk => absurd hk List.not_mem_nil, fun _ => rfl⟩
  exact Runs.observe_invariant (G := fun _ => True)
    (fun s act t log hs _ hstep => meetsInv_step s act t log hs hstep) hinit (fun _ _ => trivial) h

end

/-- **Every call is answered once, with its own answer.**  In any interleaving of the calls, one
    that is past its `try` block has met one outcome in the whole run, in a step of its own, and
    comes back with what the coroutine of the login model does for that outcome; one that is not
    has met none. -/
theorem answered_once {soci : SlotPool P} {threads : Threads} {pool : Option P}
    {acts : List RepositoryAct} {s : Repository P}
    (h : Runs.exec (step soci threads) (init pool) acts = some s) {c : Nat}
    {k : GetPasswordCall} (hk : s.calls[c]? = some k) :
    (k.pending = true → (outcomes soci threads pool acts).filter (·.1 = c) = []) ∧
    (k.pending = false →
      ∃ outcome, (outcomes soci threads pool acts).filter (·.1 = c) = [(c, outcome)] ∧
        ∀ id, (getPassword id).resolve (fun _ => outcome) = ([], .returned k.password)) := by
  have hmem := List.mem_of_getElem? hk
  have hmeets := meetsInv_run h
  rw [hmeets.log c, hk]
  constructor
  · intro hp
    simp [GetPasswordCall.hasMet, hmeets.pending k hmem hp]
  · intro hp
    obtain ⟨outcome, hmet, hpassword⟩ := GetPasswordCall.met_of_valid (hmeets.valid k hmem) hp
    refine ⟨outcome, by simp [GetPasswordCall.hasMet, hmet], fun id => ?_⟩
    rw [getPassword_resolve, hpassword]

/-- The rule for the call that is served in that run. -/
theorem answered_once_oneSlot :
    ∃ s k, Runs.exec (step (SlotPool.firstFree 1) ⟨2, 2⟩) (init (some (SlotPool.Flags.allFree 1)))
        oneSlot = some s ∧ s.calls[0]? = some k ∧
      ∃ outcome, (outcomes (SlotPool.firstFree 1) ⟨2, 2⟩ (some (SlotPool.Flags.allFree 1))
          oneSlot).filter (·.1 = 0) = [(0, outcome)] ∧
        ∀ id, (getPassword id).resolve (fun _ => outcome) = ([], .returned k.password) := by
  have hrun : Runs.exec (step (SlotPool.firstFree 1) ⟨2, 2⟩)
      (init (some (SlotPool.Flags.allFree 1))) oneSlot = some _ := rfl
  exact ⟨_, _, hrun, rfl, (answered_once hrun rfl).2 rfl⟩

end Repository

end Zem
