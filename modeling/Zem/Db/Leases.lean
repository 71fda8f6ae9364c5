import Zem.App.AppContext
import Zem.Db.PostgresAccountRepository

/-!
# The leases of the connection pool

`GetPassword` gives its session back by hand, behind a `try` block.

* `Repository.heldBy` — the slot that a call holds.
* `LeaseInv`, `leaseInv_step`, `leaseInv_run` — which slots are leased and which leases there
  were, after one step and after every run.
* `no_wait_run` — with a slot for each io thread no call waits for one.
* `leases_reach` — with no more than one io thread and one slot for each of them, any number of
  calls hold a slot at once.
* `leases_conserved_iff` — what is conserved in every run, with the default sizes no call waits;
  and when the DB threads bound the leases, which is left to the io threads.
-/

set_option autoImplicit false

namespace Zem

namespace GetPasswordCall

/-- The slot that the coroutine holds. -/
def held (k : GetPasswordCall) : Option Nat := if k.holds then some k.pos else none

/-- What coroutine `c` has been granted. -/
def grants (c : Nat) (k : GetPasswordCall) : List (Nat × Nat) :=
  if k.leased then [(c, k.pos)] else []

/-- What coroutine `c` has given back. -/
def returns (c : Nat) (k : GetPasswordCall) : List (Nat × Nat) :=
  if k.leased && k.given then [(c, k.pos)] else []

/-- A coroutine holds what it has been granted and not given back. -/
theorem count_grants (c : Nat) (k : GetPasswordCall) (pos : Nat) :
    (k.grants c).count (c, pos) =
      (k.returns c).count (c, pos) + if k.held = some pos then 1 else 0 := by
  cases hl : k.leased with
  | false => simp [grants, returns, held, holds, hl]
  | true =>
    cases hg : k.given with
    | true => simp [grants, returns, held, holds, hl, hg]
    | false =>
      by_cases heq : k.pos = pos
      · simp [grants, returns, held, holds, hl, hg, heq]
      · simp [grants, returns, held, holds, hl, hg, heq]

end GetPasswordCall

namespace Repository

variable {P : Type}

def leasedSlots (soci : SlotPool P) (s : Repository P) : Finset Nat :=
  match s.pool with
  | some p => soci.leased p
  | none => ∅

/-- The slot that call `c` holds. -/
def heldBy (s : Repository P) (c : Nat) : Option Nat :=
  s.calls[c]?.elim none GetPasswordCall.held

structure LeaseInv (soci : SlotPool P) (threads : Threads) (s : Repository P) : Prop where
  valid : ∀ k ∈ s.calls, k.Valid
  io : s.running ≤ threads.io
  db : threads.db = 0 → s.running = 0
  slots : ∀ pos ∈ s.leasedSlots soci, pos < soci.size
  holders : SlotPool.Holders (s.leasedSlots soci) s.heldBy
  grants : ∀ c, s.grants.filter (·.1 = c) = s.calls[c]?.elim [] (GetPasswordCall.grants c)
  returns : ∀ c, s.returns.filter (·.1 = c) = s.calls[c]?.elim [] (GetPasswordCall.returns c)

theorem leaseInv_init {soci : SlotPool P} (threads : Threads) {pool : Option P}
    (hfresh : ∀ p, pool = some p → soci.leased p = ∅) :
    LeaseInv soci threads (init pool) := by
  have hempty : (init pool).leasedSlots soci = ∅ := by
    cases pool with
    | none => rfl
    | some p => exact hfresh p rfl
  refine ⟨?_, Nat.zero_le _, fun _ => rfl, ?_, ⟨fun pos => ?_, ?_⟩, fun c => rfl, fun c => rfl⟩
  · intro k hk
    cases hk
  · intro pos hpos
    rw [hempty] at hpos
    exact absurd hpos (Finset.notMem_empty pos)
  · rw [hempty]
    simp [heldBy, init]
  · intro c c' pos h
    cases h

/-! ## One step -/

/-- What is known of a call without a lease is known of the one that is added. -/
theorem elim_call {α : Type} (d : α) (f : GetPasswordCall → α) (hf : f .init = d)
    (calls : List GetPasswordCall) (c : Nat) :
    (calls ++ [.init])[c]?.elim d f = calls[c]?.elim d f := by
  rw [List.getElem?_append]
  split
  · rfl
  · rename_i hlt
    rw [List.getElem?_eq_none (Nat.le_of_not_lt hlt)]
    cases c - calls.length with
    | zero => exact hf
    | succ n => rfl

/-- A call is added at the end, and holds nothing. -/
theorem LeaseInv.call {soci : SlotPool P} {threads : Threads} {s : Repository P}
    (h : LeaseInv soci threads s) :
    LeaseInv soci threads { s with calls := s.calls ++ [.init] } := by
  have hheld : heldBy ({ s with calls := s.calls ++ [.init] } : Repository P) = s.heldBy := by
    funext c
    exact elim_call none GetPasswordCall.held rfl s.calls c
  have hrun : running ({ s with calls := s.calls ++ [.init] } : Repository P) = s.running := by
    simp [running, GetPasswordCall.running, GetPasswordCall.init]
  refine ⟨fun k hk => ?_, ?_, ?_, h.slots, ?_, fun c => ?_, fun c => ?_⟩
  · rcases List.mem_append.mp hk with hk | hk
    · exact h.valid k hk
    · rw [List.mem_singleton.mp hk]
      exact ⟨rfl, rfl⟩
  · rw [hrun]
    exact h.io
  · rw [hrun]
    exact h.db
  · rw [hheld]
    exact h.holders
  · exact (h.grants c).trans (elim_call [] (GetPasswordCall.grants c) rfl s.calls c).symm
  · exact (h.returns c).trans (elim_call [] (GetPasswordCall.returns c) rfl s.calls c).symm

section

variable {soci : SlotPool P} {threads : Threads} {s t : Repository P} {c : Nat}
  {k k' : GetPasswordCall}

theorem getElem?_change (hk : s.calls[c]? = some k) (hcalls : t.calls = s.calls.set c k')
    (c' : Nat) : t.calls[c']? = if c' = c then some k' else s.calls[c']? := by
  obtain ⟨hlt, _⟩ := List.getElem?_eq_some_iff.mp hk
  rw [hcalls, List.getElem?_set]
  by_cases heq : c = c'
  · subst heq
    simp [hlt]
  · rw [if_neg heq, if_neg fun h => heq h.symm]

theorem heldBy_change (hk : s.calls[c]? = some k) (hcalls : t.calls = s.calls.set c k') :
    t.heldBy = Function.update s.heldBy c k'.held := by
  funext c'
  rw [heldBy, getElem?_change hk hcalls, Function.update_apply]
  split
  · rfl
  · rfl

/-- The calls that keep a thread stay within a bound, if a call enters only below it. -/
theorem running_change {n : Nat} (hk : s.calls[c]? = some k)
    (hcalls : t.calls = s.calls.set c k')
    (henter : k.running = false → k'.running = true → s.running < n)
    (hle : s.running ≤ n) : t.running ≤ n := by
  obtain ⟨hlt, hget⟩ := List.getElem?_eq_some_iff.mp hk
  have hcount := List.countP_set (p := GetPasswordCall.running) (a := k') hlt
  have hpos : k.running = true → 0 < s.running := fun hr =>
    List.countP_pos_iff.mpr ⟨k, List.mem_of_getElem? hk, hr⟩
  rw [hget, ← hcalls] at hcount
  have hcount : t.running = s.running - (if k.running then 1 else 0) +
      if k'.running then 1 else 0 := hcount
  rw [hcount]
  cases hr : k.running with
  | true =>
    have := hpos hr
    cases k'.running <;> simp only [if_true, Bool.false_eq_true, if_false] <;> omega
  | false =>
    cases hr' : k'.running with
    | true => exact henter hr hr'
    | false => exact hle

/-- The logs of a step that appends `new`, which is the only difference of call `c`. -/
theorem log_change {α : Type} (new : List (Nat × α)) {log log' : List (Nat × α)}
    {f : Nat → GetPasswordCall → List (Nat × α)} (hk : s.calls[c]? = some k)
    (hcalls : t.calls = s.calls.set c k') (hlog : log' = log ++ new)
    (hnew : ∀ g ∈ new, g.1 = c) (hf : f c k' = f c k ++ new)
    (h : ∀ c', log.filter (·.1 = c') = s.calls[c']?.elim [] (f c')) (c' : Nat) :
    log'.filter (·.1 = c') = t.calls[c']?.elim [] (f c') := by
  rw [hlog, List.filter_append, h, getElem?_change hk hcalls]
  by_cases heq : c' = c
  · subst heq
    have hall : new.filter (·.1 = c') = new :=
      List.filter_eq_self.mpr fun g hg => by simpa using hnew g hg
    rw [if_pos rfl, hk, hall]
    exact hf.symm
  · have hnone : new.filter (·.1 = c') = [] :=
      List.filter_eq_nil_iff.mpr fun g hg => by simpa [hnew g hg] using fun h => heq h.symm
    rw [if_neg heq, hnone, List.append_nil]

end

/-- **Every step preserves the invariant.** -/
theorem leaseInv_step {soci : SlotPool P} (hsoci : soci.Lawful) (threads : Threads)
    (s : Repository P) (act : RepositoryAct) (t : Repository P) (h : LeaseInv soci threads s)
    (hstep : step soci threads s act = some t) : LeaseInv soci threads t := by
  rcases step_cases h.valid hstep with rfl | ⟨c, k, k', hk, hcalls, hvalid, henter, _, hchange⟩
  · exact h.call
  have hget := getElem?_change hk hcalls
  have hheld := heldBy_change hk hcalls
  have hwas : s.heldBy c = k.held := by rw [heldBy, hk]; rfl
  have hall : ∀ x ∈ t.calls, x.Valid := by
    intro x hx
    rw [hcalls] at hx
    rcases List.mem_or_eq_of_mem_set hx with hx | rfl
    · exact h.valid x hx
    · exact hvalid
  have hrun := running_change hk hcalls (fun hr hr' => (henter hr hr').2) h.io
  have hnoDb : threads.db = 0 → t.running = 0 := by
    intro hdb
    apply Nat.le_zero.mp
    refine running_change hk hcalls (fun hr hr' => ?_) (Nat.le_of_eq (h.db hdb))
    exact absurd hdb (Nat.ne_of_gt (henter hr hr').1)
  cases hchange with
  | keep hpool hgrants hreturns hleased hpos hgiven =>
    have hsame : k'.held = k.held ∧ k'.grants c = k.grants c ∧ k'.returns c = k.returns c := by
      cases hl : k.leased with
      | false =>
        rw [hl] at hleased
        simp [GetPasswordCall.held, GetPasswordCall.holds, GetPasswordCall.grants,
          GetPasswordCall.returns, hl, hleased]
      | true =>
        rw [hl] at hleased
        simp [GetPasswordCall.held, GetPasswordCall.holds, GetPasswordCall.grants,
          GetPasswordCall.returns, hl, hleased, hpos, hgiven hl]
    obtain ⟨hh, hg, hr⟩ := hsame
    refine ⟨hall, hrun, hnoDb, ?_, ?_, ?_, ?_⟩
    · rw [leasedSlots, hpool]
      exact h.slots
    · rw [hheld, hh, ← hwas, Function.update_eq_self, leasedSlots, hpool]
      exact h.holders
    · exact log_change [] hk hcalls (by rw [hgrants, List.append_nil])
        (by simp) (by rw [hg, List.append_nil]) h.grants
    · exact log_change [] hk hcalls (by rw [hreturns, List.append_nil])
        (by simp) (by rw [hr, List.append_nil]) h.returns
  | grant hp htry hpool hgrants hreturns hfree hk' =>
    rename_i p p' pos
    obtain ⟨hlt, hnew, hleased⟩ := hsoci.granted p pos p' htry
    obtain ⟨hl', rfl, hg'⟩ := hk'
    have hnone : s.heldBy c = none := by
      simp [hwas, GetPasswordCall.held, GetPasswordCall.holds, hfree]
    have hsome : k'.held = some k'.pos := by
      simp [GetPasswordCall.held, GetPasswordCall.holds, hl', hg']
    refine ⟨hall, hrun, hnoDb, ?_, ?_, ?_, ?_⟩
    · have hslots := h.slots
      rw [leasedSlots, hp] at hslots
      rw [leasedSlots, hpool]
      simp only
      rw [hleased]
      exact fun q hq => (Finset.mem_insert.mp hq).elim (fun heq => heq ▸ hlt) (hslots q)
    · have hholders := h.holders
      rw [leasedSlots, hp] at hholders
      rw [hheld, hsome, leasedSlots, hpool]
      simp only
      rw [hleased]
      exact hholders.grant hnew hnone
    · exact log_change _ hk hcalls hgrants (by simp)
        (by simp [GetPasswordCall.grants, hfree, hl']) h.grants
    · exact log_change [] hk hcalls (by rw [hreturns, List.append_nil])
        (by simp) (by simp [GetPasswordCall.returns, hfree, hg']) h.returns
  | giveBack hp hpool hgrants hreturns hk₀ hk' =>
    rename_i p
    obtain ⟨hl, hg⟩ := hk₀
    obtain ⟨hl', hpos, hg'⟩ := hk'
    have hsome : s.heldBy c = some k.pos := by
      simp [hwas, GetPasswordCall.held, GetPasswordCall.holds, hl, hg]
    have hnone : k'.held = none := by
      simp [GetPasswordCall.held, GetPasswordCall.holds, hg']
    have hholders := h.holders
    rw [leasedSlots, hp] at hholders
    have hmem : k.pos ∈ soci.leased p := (hholders.slots _).mpr ⟨c, hsome⟩
    refine ⟨hall, hrun, hnoDb, ?_, ?_, ?_, ?_⟩
    · have hslots := h.slots
      rw [leasedSlots, hp] at hslots
      rw [leasedSlots, hpool]
      simp only
      rw [hsoci.givenBack p k.pos hmem]
      exact fun q hq => hslots q (Finset.mem_of_mem_erase hq)
    · rw [hheld, hnone, leasedSlots, hpool]
      simp only
      rw [hsoci.givenBack p k.pos hmem]
      exact hholders.giveBack hsome
    · exact log_change [] hk hcalls (by rw [hgrants, List.append_nil])
        (by simp) (by simp [GetPasswordCall.grants, hl, hl', hpos]) h.grants
    · exact log_change _ hk hcalls hreturns (by simp)
        (by simp [GetPasswordCall.returns, hl, hl', hg, hg', hpos]) h.returns

theorem leaseInv_run {soci : SlotPool P} (hsoci : soci.Lawful) {threads : Threads} {pool : Option P}
    (hfresh : ∀ p, pool = some p → soci.leased p = ∅) {acts : List RepositoryAct}
    {s : Repository P} (h : Runs.exec (step soci threads) (init pool) acts = some s) :
    LeaseInv soci threads s :=
  Runs.exec_invariant (leaseInv_step hsoci threads) (leaseInv_init threads hfresh) h

/-! ## Leases and threads -/

section

variable {soci : SlotPool P} {threads : Threads} {s : Repository P} {c : Nat} {k : GetPasswordCall}

/-- A call that holds a slot is in front of its query or of its give-back. -/
theorem stage_of_holds (hvalid : k.Valid) (hh : k.holds = true) :
    k.stage = .leased ∨ k.stage = .handled := by
  obtain ⟨stage, password, leased, pos, met⟩ := k
  simp only [GetPasswordCall.holds, Bool.and_eq_true, Bool.not_eq_true'] at hh
  obtain ⟨hl, hg⟩ := hh
  cases stage with
  | leased => exact Or.inl rfl
  | handled => exact Or.inr rfl
  | posted | entered | waiting =>
    have hno : leased = false := hvalid.1
    rw [hno] at hl
    cases hl
  | settled | returned => cases hg

theorem running_of_holds (hvalid : k.Valid) (hh : k.holds = true) : k.running = true := by
  rcases stage_of_holds hvalid hh with hst | hst
  · simp only [GetPasswordCall.running, hst]
  · simp only [GetPasswordCall.running, hst]

theorem held_eq_some_iff (s : Repository P) (c pos : Nat) :
    s.heldBy c = some pos ↔ ∃ k, s.calls[c]? = some k ∧ k.holds = true ∧ k.pos = pos := by
  unfold heldBy
  cases hk : s.calls[c]? with
  | none => simp
  | some k => cases hh : k.holds <;> simp [GetPasswordCall.held, hh]

/-- No more slots are leased than calls hold one. -/
theorem card_le_holding (h : LeaseInv soci threads s) :
    (s.leasedSlots soci).card ≤ s.calls.countP GetPasswordCall.holds := by
  have hsub : s.leasedSlots soci ⊆
      ((s.calls.filter GetPasswordCall.holds).map GetPasswordCall.pos).toFinset := by
    intro pos hpos
    obtain ⟨c, hc⟩ := (h.holders.slots pos).mp hpos
    obtain ⟨k, hk, hh, rfl⟩ := (held_eq_some_iff s c pos).mp hc
    rw [List.mem_toFinset]
    apply List.mem_map_of_mem
    exact List.mem_filter.mpr ⟨List.mem_of_getElem? hk, hh⟩
  calc (s.leasedSlots soci).card
      ≤ ((s.calls.filter GetPasswordCall.holds).map GetPasswordCall.pos).toFinset.card :=
        Finset.card_le_card hsub
    _ ≤ ((s.calls.filter GetPasswordCall.holds).map GetPasswordCall.pos).length :=
        List.toFinset_card_le _
    _ = s.calls.countP GetPasswordCall.holds := by
        rw [List.length_map, List.countP_eq_length_filter]

/-- The calls that keep a thread are those that hold a slot and those that do not. -/
theorem running_eq (h : LeaseInv soci threads s) :
    s.running = s.calls.countP GetPasswordCall.holds +
      s.calls.countP fun k => k.running && !k.holds := by
  have hsplit := List.countP_eq_countP_filter_add s.calls GetPasswordCall.running
    GetPasswordCall.holds
  rw [List.countP_filter, List.countP_filter] at hsplit
  have hholds : s.calls.countP (fun k => k.running && k.holds) =
      s.calls.countP GetPasswordCall.holds := by
    apply List.countP_congr
    intro k hk
    rw [Bool.and_eq_true]
    exact ⟨And.right, fun hh => ⟨running_of_holds (h.valid k hk) hh, hh⟩⟩
  rw [running, hsplit, hholds]

theorem card_le_running (h : LeaseInv soci threads s) :
    (s.leasedSlots soci).card ≤ s.running := by
  rw [running_eq h]
  exact Nat.le_trans (card_le_holding h) (Nat.le_add_right _ _)

theorem card_le_size (h : LeaseInv soci threads s) : (s.leasedSlots soci).card ≤ soci.size := by
  calc (s.leasedSlots soci).card
      ≤ (Finset.range soci.size).card :=
        Finset.card_le_card fun pos hpos => Finset.mem_range.mpr (h.slots pos hpos)
    _ = soci.size := Finset.card_range _

/-- With a slot for each io thread, a call on a thread that holds none finds one. -/
theorem not_waits (hsoci : soci.Lawful) (hsize : threads.io ≤ soci.size)
    (h : LeaseInv soci threads s) (hk : s.calls[c]? = some k) : ¬ Waits soci s k := by
  rintro ⟨p, hp, htry, hrun, hh⟩
  have hone : 0 < s.calls.countP fun k => k.running && !k.holds :=
    List.countP_pos_iff.mpr ⟨k, List.mem_of_getElem? hk, by simp [hrun, hh]⟩
  have hcard := card_le_holding h
  have hsplit := running_eq h
  have hthreads := h.io
  have hslots : s.leasedSlots soci = soci.leased p := by rw [leasedSlots, hp]
  rw [hslots] at hcard
  obtain ⟨pos, p', hsome⟩ := SlotPool.lease_of_card_lt hsoci (p := p) (by omega)
  rw [htry] at hsome
  cases hsome

theorem no_wait_run (hsoci : soci.Lawful) (hsize : threads.io ≤ soci.size) {pool : Option P}
    (hfresh : ∀ p, pool = some p → soci.leased p = ∅) {acts : List RepositoryAct}
    (h : Runs.exec (step soci threads) (init pool) acts = some s) :
    ∀ k ∈ s.calls, k.stage ≠ .waiting := by
  refine (Runs.exec_invariant
    (I := fun s => LeaseInv soci threads s ∧ ∀ k ∈ s.calls, k.stage ≠ .waiting)
    ?_ ⟨leaseInv_init threads hfresh, by simp [init]⟩ h).2
  rintro s act t ⟨hinv, hno⟩ hstep
  refine ⟨leaseInv_step hsoci threads s act t hinv hstep, fun x hx => ?_⟩
  rcases step_cases hinv.valid hstep with rfl | ⟨c, k, k', hk, hcalls, _, _, hwaits, _⟩
  · rcases List.mem_append.mp hx with hx | hx
    · exact hno x hx
    · rw [List.mem_singleton.mp hx]
      exact Stage.noConfusion
  · rw [hcalls] at hx
    rcases List.mem_or_eq_of_mem_set hx with hx | rfl
    · exact hno x hx
    · exact fun hst => not_waits hsoci hsize hinv hk (hwaits hst)

/-- There is a pool from the start, or never. -/
theorem pool_none_run (hsoci : soci.Lawful) {acts : List RepositoryAct}
    (h : Runs.exec (step soci threads) (init none) acts = some s) : s.pool = none := by
  have hfresh : ∀ p : P, none = some p → soci.leased p = ∅ := fun _ hp => by cases hp
  refine (Runs.exec_invariant (I := fun s => LeaseInv soci threads s ∧ s.pool = none)
    ?_ ⟨leaseInv_init threads hfresh, rfl⟩ h).2
  rintro s act t ⟨hinv, hnone⟩ hstep
  refine ⟨leaseInv_step hsoci threads s act t hinv hstep, ?_⟩
  rcases step_cases hinv.valid hstep with rfl | ⟨c, k, k', _, _, _, _, _, hchange⟩
  · exact hnone
  · cases hchange with
    | keep hpool => exact hpool.trans hnone
    | grant hp => exact absurd (hp.symm.trans hnone) (Option.some_ne_none _)
    | giveBack hp => exact absurd (hp.symm.trans hnone) (Option.some_ne_none _)

/-- A call that is in front of its give-back with a lease gives its slot back. -/
theorem step_giveBack {p : P} (hp : s.pool = some p) (hk : s.calls[c]? = some k)
    (hst : k.stage = .handled) (hl : k.leased = true) :
    ∃ t, step soci threads s (.giveBack c) = some t ∧ (c, k.pos) ∈ t.returns := by
  have hgive : step soci threads s (.giveBack c) = s.giveBack soci c k :=
    onCall_of hk (by simpa using hst) _
  have hsome : s.giveBack soci c k = some { s.put c { k with stage := .settled } with
      pool := some (soci.giveBack p k.pos), returns := s.returns ++ [(c, k.pos)] } := by
    simp only [giveBack, hl, hp, if_true]
  exact ⟨_, hgive.trans hsome, by simp⟩

/-- A call that holds a slot can give it back, whatever the others do and its query meets. -/
theorem gives_back (h : LeaseInv soci threads s) {pos : Nat} (hc : s.heldBy c = some pos)
    (outcome : QueryOutcome) :
    ∃ t, (Runs.exec (step soci threads) s [.query c outcome, .giveBack c] = some t ∨
        Runs.exec (step soci threads) s [.giveBack c] = some t) ∧ (c, pos) ∈ t.returns := by
  obtain ⟨k, hk, hh, rfl⟩ := (held_eq_some_iff s c pos).mp hc
  obtain ⟨hlt, _⟩ := List.getElem?_eq_some_iff.mp hk
  have hl : k.leased = true := by
    rw [GetPasswordCall.holds, Bool.and_eq_true] at hh
    exact hh.1
  obtain ⟨p, hp⟩ : ∃ p, s.pool = some p := by
    have hmem := (h.holders.slots k.pos).mpr ⟨c, hc⟩
    cases hp : s.pool with
    | some p => exact ⟨p, rfl⟩
    | none =>
      rw [leasedSlots, hp] at hmem
      exact absurd hmem (Finset.notMem_empty _)
  rcases stage_of_holds (h.valid k (List.mem_of_getElem? hk)) hh with hst | hst
  · have hquery : step soci threads s (.query c outcome) = some (s.query c k outcome) := by
      rw [step, onCall_of hk (by simpa using hst)]
    obtain ⟨k', hk', hst', hl', hpos⟩ : ∃ k', (s.query c k outcome).calls[c]? = some k' ∧
        k'.stage = .handled ∧ k'.leased = true ∧ k'.pos = k.pos :=
      ⟨_, List.getElem?_set_self hlt, rfl, hl, rfl⟩
    obtain ⟨t, ht, hmem⟩ := step_giveBack (s := s.query c k outcome) (p := p) hp hk' hst' hl'
    rw [hpos] at hmem
    exact ⟨t, Or.inl ((Runs.exec_cons hquery _).trans (Runs.exec_single ht)), hmem⟩
  · obtain ⟨t, ht, hmem⟩ := step_giveBack hp hk hst hl
    exact ⟨t, Or.inr (Runs.exec_single ht), hmem⟩

end

/-- A call comes back with what the login model takes for the answer to what it met. -/
theorem password_run {soci : SlotPool P} (hsoci : soci.Lawful) {threads : Threads} {pool : Option P}
    (hfresh : ∀ p, pool = some p → soci.leased p = ∅) {acts : List RepositoryAct}
    {s : Repository P} (h : Runs.exec (step soci threads) (init pool) acts = some s) :
    ∀ k ∈ s.calls, k.stage = .returned →
      ∃ outcome, k.met = some outcome ∧ k.password = outcome.password := by
  intro k hk hst
  have hvalid := (leaseInv_run hsoci hfresh h).valid k hk
  simp only [GetPasswordCall.Valid, hst] at hvalid
  obtain ⟨outcome, hmet, hpassword, _⟩ := hvalid
  exact ⟨outcome, hmet, hpassword⟩

/-! ## The leases of a run -/

/-- What is conserved: the leased slots are those of the calls that hold one, and of every lease
    there is one give-back, by its call, or there will be. -/
structure Conserved (soci : SlotPool P) (threads : Threads) (s : Repository P) : Prop where
  leased_iff : ∀ pos, pos ∈ s.leasedSlots soci ↔ ∃ c, s.heldBy c = some pos
  one_holder : ∀ c c' pos, s.heldBy c = some pos → s.heldBy c' = some pos → c = c'
  one_grant : ∀ c, (s.grants.filter (·.1 = c)).length ≤ 1
  given_back : ∀ c pos, s.grants.count (c, pos) =
    s.returns.count (c, pos) + if s.heldBy c = some pos then 1 else 0
  settled : ∀ c k, s.calls[c]? = some k → k.given = true →
    s.returns.filter (·.1 = c) = s.grants.filter (·.1 = c)
  progress : ∀ c pos, s.heldBy c = some pos → ∀ outcome,
    ∃ t, (Runs.exec (step soci threads) s [.query c outcome, .giveBack c] = some t ∨
      Runs.exec (step soci threads) s [.giveBack c] = some t) ∧ (c, pos) ∈ t.returns

theorem LeaseInv.count_grants {soci : SlotPool P} {threads : Threads} {s : Repository P}
    (h : LeaseInv soci threads s) (c pos : Nat) :
    s.grants.count (c, pos) =
      s.returns.count (c, pos) + if s.heldBy c = some pos then 1 else 0 := by
  have hcount : ∀ log : List (Nat × Nat),
      log.count (c, pos) = (log.filter (·.1 = c)).count (c, pos) :=
    fun log => (List.count_filter (by simp)).symm
  rw [hcount, hcount s.returns, h.grants, h.returns, heldBy]
  cases s.calls[c]? with
  | none => simp
  | some k => exact k.count_grants c pos

theorem LeaseInv.conserved {soci : SlotPool P} {threads : Threads} {s : Repository P}
    (h : LeaseInv soci threads s) : Conserved soci threads s where
  leased_iff := h.holders.slots
  one_holder := h.holders.distinct
  one_grant := by
    intro c
    rw [h.grants]
    cases s.calls[c]? with
    | none => exact Nat.zero_le 1
    | some k => cases hl : k.leased <;> simp [GetPasswordCall.grants, hl]
  given_back := h.count_grants
  settled := by
    intro c k hk hg
    rw [h.grants, h.returns, hk]
    simp [GetPasswordCall.grants, GetPasswordCall.returns, hg]
  progress := fun _ _ hc outcome => gives_back h hc outcome

/-! ## The number of leases -/

/-- `n` calls hold a slot at once, and there are no others. -/
structure Holding (soci : SlotPool P) (n : Nat) (s : Repository P) : Prop where
  calls : s.calls.length = n
  leased : ∀ k ∈ s.calls, k.stage = .leased
  pool : ∃ p, s.pool = some p ∧ (soci.leased p).card = n

/-- One more call starts, enters and is granted a slot. -/
theorem Holding.next {soci : SlotPool P} (hsoci : soci.Lawful) {threads : Threads}
    {s : Repository P} {n : Nat} (h : Holding soci n s) (hdb : 0 < threads.db)
    (hio : n < threads.io) (hsize : n < soci.size) :
    ∃ t, Runs.exec (step soci threads) s [.call, .enter n, .lease n false] = some t ∧
      Holding soci (n + 1) t := by
  obtain ⟨p, hp, hcard⟩ := h.pool
  obtain ⟨pos, p', htry⟩ := SlotPool.lease_of_card_lt hsoci (p := p) (hcard ▸ hsize)
  obtain ⟨_, hnew, hleased⟩ := hsoci.granted p pos p' htry
  have hlast : ∀ k : GetPasswordCall, (s.calls ++ [k])[n]? = some k := by
    intro k
    rw [← h.calls, List.getElem?_append_right (Nat.le_refl _), Nat.sub_self]
    rfl
  have hput : ∀ k k' : GetPasswordCall, (s.calls ++ [k]).set n k' = s.calls ++ [k'] := by
    intro k k'
    rw [← h.calls, List.set_append_right _ _ (Nat.le_refl _), Nat.sub_self]
    rfl
  let s₁ : Repository P := { s with calls := s.calls ++ [.init] }
  let k₁ : GetPasswordCall := { GetPasswordCall.init with stage := .entered }
  have hroom : s₁.running < threads.io := by
    have hle : s.calls.countP GetPasswordCall.running ≤ s.calls.length := List.countP_le_length
    have hrun : s₁.running = s.calls.countP GetPasswordCall.running := by
      simp [s₁, running, GetPasswordCall.running, GetPasswordCall.init]
    have hlen := h.calls
    omega
  have henter : step soci threads s₁ (.enter n) = some (s₁.put n k₁) :=
    onCall_of (hlast .init) (by simp [GetPasswordCall.init, hdb, hroom]) _
  have hk₁ : (s₁.put n k₁).calls[n]? = some k₁ := by
    rw [put, hput]
    exact hlast k₁
  have hlease : step soci threads (s₁.put n k₁) (.lease n false) =
      some ((s₁.put n k₁).tryLease soci n k₁ false) := onCall_of hk₁ rfl _
  have hgrant : (s₁.put n k₁).tryLease soci n k₁ false =
      { s with
        pool := some p'
        calls := s.calls ++ [{ k₁ with stage := .leased, leased := true, pos := pos }]
        grants := s.grants ++ [(n, pos)] } := by
    simp only [tryLease, put, s₁, hp, htry, hput, Bool.false_eq_true, if_false]
  rw [hgrant] at hlease
  refine ⟨_, (Runs.exec_cons (show step soci threads s .call = some s₁ from rfl) _).trans
    ((Runs.exec_cons henter _).trans (Runs.exec_single hlease)), ?_, ?_, p', rfl, ?_⟩
  · exact List.length_append.trans (congrArg (· + 1) h.calls)
  · intro k hk
    rcases List.mem_append.mp hk with hk | hk
    · exact h.leased k hk
    · rw [List.mem_singleton.mp hk]
  · rw [hleased, Finset.card_insert_of_notMem hnew, hcard]

/-- **As many calls hold a slot at once** as there are io threads and slots for them, whatever the
    number of DB threads. -/
theorem leases_reach {soci : SlotPool P} (hsoci : soci.Lawful) {threads : Threads} {p : P}
    (hfresh : soci.leased p = ∅) (hdb : 0 < threads.db) :
    ∀ n, n ≤ threads.io → n ≤ soci.size → ∃ acts s,
      Runs.exec (step soci threads) (init (some p)) acts = some s ∧
        (s.leasedSlots soci).card = n := by
  have hreach : ∀ n, n ≤ threads.io → n ≤ soci.size → ∃ acts s,
      Runs.exec (step soci threads) (init (some p)) acts = some s ∧ Holding soci n s := by
    intro n
    induction n with
    | zero =>
      intro _ _
      refine ⟨[], _, rfl, rfl, ?_, p, rfl, by rw [hfresh, Finset.card_empty]⟩
      intro k hk
      cases hk
    | succ n ih =>
      intro hio hsize
      obtain ⟨acts, s, hrun, hholding⟩ := ih (by omega) (by omega)
      obtain ⟨t, hnext, hholding'⟩ := hholding.next hsoci hdb hio hsize
      exact ⟨_, t, Runs.exec_trans hrun hnext, hholding'⟩
  intro n hio hsize
  obtain ⟨acts, s, hrun, hholding⟩ := hreach n hio hsize
  obtain ⟨q, hq, hcard⟩ := hholding.pool
  exact ⟨acts, s, hrun, by rw [leasedSlots, hq]; exact hcard⟩

/-! ## The sizes of the program -/

/-- The threads that `InitDb` and `BuildServer` ask for. -/
def programThreads (config : AppContext.Config) (reported : UInt32) : Threads :=
  { db := (AppContext.initDb config reported).threads.toNat
    io := (AppContext.buildServer reported).toNat }

theorem toNat_buildServer (reported : UInt32) :
    (AppContext.buildServer reported).toNat = (concurrency reported).toNat := by
  unfold AppContext.buildServer AppContext.serverThreads concurrency
  rw [if_pos rfl]
  split
  · exact (UInt32.toNat_toUInt64 reported).symm
  · rfl

/-- With both sizes at their defaults there is a slot for each io thread, and there is a DB thread
    for each of them. -/
theorem program_defaults {config : AppContext.Config} (hpool : config.dbPoolSize = 0)
    (hthreads : config.dbThreadCount = 0) (reported : UInt32) :
    (programThreads config reported).io ≤ (AppContext.initDb config reported).slots.length ∧
      (programThreads config reported).io ≤ (programThreads config reported).db := by
  have hbounds := AppContext.concurrency_bounds reported
  have hio : (programThreads config reported).io = (concurrency reported).toNat :=
    toNat_buildServer reported
  have hcount := AppContext.toNat_threadCount config reported
  rw [if_pos hthreads] at hcount
  have hdb : (programThreads config reported).db = max 2 (concurrency reported).toNat := by
    rw [programThreads, AppContext.initDb, UInt64.toNat_toUInt32, hcount,
      Nat.mod_eq_of_lt (by omega)]
  have hslots : (AppContext.initDb config reported).slots.length =
      2 * (concurrency reported).toNat := by
    have hsize : PostgresRepositoryFactory.poolSize (AppContext.postgresDbConfig config) reported =
        2 * concurrency reported := by
      simp [PostgresRepositoryFactory.poolSize, AppContext.postgresDbConfig, hpool]
    have htwo : (2 : UInt64).toNat = 2 := rfl
    simp only [AppContext.initDb, PostgresRepositoryFactory.createAccountRepository,
      List.length_map, List.length_range, hsize, UInt64.toNat_mul, htwo]
    exact Nat.mod_eq_of_lt (by omega)
  rw [hio, hdb, hslots]
  omega

/-! ## Results -/

/-- **Leases are conserved** in every run, and with the default sizes no call waits for one and the
    leases are never more than the DB threads.  In general they are never more in any run if and
    only if there is a DB thread for each io thread or for each slot, or there are no leases at
    all. -/
theorem leases_conserved_iff {soci : SlotPool P} (hsoci : soci.Lawful) {threads : Threads}
    {pool : Option P} (hfresh : ∀ p, pool = some p → soci.leased p = ∅) :
    (∀ acts s, Runs.exec (step soci threads) (init pool) acts = some s →
      Conserved soci threads s ∧
      ∀ (config : AppContext.Config) (reported : UInt32),
        config.dbPoolSize = 0 → config.dbThreadCount = 0 →
        soci.size = (AppContext.initDb config reported).slots.length →
        threads = programThreads config reported →
        (∀ k ∈ s.calls, k.stage ≠ .waiting) ∧ (s.leasedSlots soci).card ≤ threads.db) ∧
    ((∀ acts s, Runs.exec (step soci threads) (init pool) acts = some s →
        (s.leasedSlots soci).card ≤ threads.db) ↔
      pool = none ∨ threads.db = 0 ∨ threads.io ≤ threads.db ∨ soci.size ≤ threads.db) := by
  refine ⟨fun acts s h => ?_, fun hall => ?_, fun hcond acts s h => ?_⟩
  · have hinv := leaseInv_run hsoci hfresh h
    refine ⟨hinv.conserved, fun config reported hpool hthreads hsize hprogram => ?_⟩
    obtain ⟨hslots, hdb⟩ := program_defaults hpool hthreads reported
    rw [← hprogram] at hslots hdb
    exact ⟨no_wait_run hsoci (hsize ▸ hslots) hfresh h,
      Nat.le_trans (card_le_running hinv) (Nat.le_trans hinv.io hdb)⟩
  · cases pool with
    | none => exact Or.inl rfl
    | some p =>
      by_contra hno
      simp only [reduceCtorEq, false_or, not_or, not_le] at hno
      obtain ⟨hdb, hio, hsize⟩ := hno
      obtain ⟨acts, s, hrun, hcard⟩ := leases_reach hsoci (hfresh p rfl)
        (Nat.pos_of_ne_zero hdb) (threads.db + 1) hio hsize
      have hle := hall acts s hrun
      omega
  · have hinv := leaseInv_run hsoci hfresh h
    have hrunning := card_le_running hinv
    rcases hcond with hnone | hdb | hio | hsize
    · have hpool : s.pool = none := pool_none_run hsoci (hnone ▸ h)
      rw [leasedSlots, hpool]
      exact Nat.zero_le _
    · rw [hinv.db hdb] at hrunning
      exact Nat.le_trans hrunning (Nat.zero_le _)
    · exact Nat.le_trans hrunning (Nat.le_trans hinv.io hio)
    · exact Nat.le_trans (card_le_size hinv) hsize

/-- Two calls on two io threads; the second is served first, and its query throws. -/
def twoCalls : List RepositoryAct :=
  [.call, .call, .enter 1, .enter 0, .lease 1 false, .lease 0 false, .query 1 .threw, .giveBack 1]

theorem fresh_allFree (n : Nat) : ∀ p, some (SlotPool.Flags.allFree n) = some p →
    (SlotPool.firstFree n).leased p = ∅ := by
  rintro p ⟨⟩
  exact SlotPool.leased_allFree n

/-- The rule at that run, with the sizes of a machine of two cores. -/
theorem leases_conserved_iff_twoCalls :
    ∃ s, Runs.exec (step (SlotPool.firstFree 4) ⟨2, 2⟩) (init (some (SlotPool.Flags.allFree 4)))
        twoCalls = some s ∧
      Conserved (SlotPool.firstFree 4) ⟨2, 2⟩ s ∧ (∀ k ∈ s.calls, k.stage ≠ .waiting) ∧
      (s.leasedSlots (SlotPool.firstFree 4)).card ≤ 2 := by
  obtain ⟨s, hs⟩ : ∃ s, Runs.exec (step (SlotPool.firstFree 4) ⟨2, 2⟩)
      (init (some (SlotPool.Flags.allFree 4))) twoCalls = some s := ⟨_, rfl⟩
  obtain ⟨hconserved, hdefaults⟩ :=
    (leases_conserved_iff (SlotPool.lawful_firstFree 4) (fresh_allFree 4)).1 twoCalls s hs
  obtain ⟨hwait, hcard⟩ := hdefaults (AppContext.createDefault fun _ => none) 2 rfl rfl rfl rfl
  exact ⟨s, hs, hconserved, hwait, hcard⟩

/-- `ZEM_DB_THREAD_COUNT=1` on a machine of four cores. -/
def oneDbThread : AppContext.Config :=
  { AppContext.createDefault fun _ => none with dbThreadCount := 1 }

/-- **Two leases with one DB thread.**  Both calls leave the DB thread with the hop, and look for
    their slots on two of the four io threads. -/
theorem more_leases_than_db_threads :
    (AppContext.initDb oneDbThread 4).slots.length = 8 ∧
    ¬ ∀ acts s, Runs.exec (step (SlotPool.firstFree 8) (programThreads oneDbThread 4))
        (init (some (SlotPool.Flags.allFree 8))) acts = some s →
      (s.leasedSlots (SlotPool.firstFree 8)).card ≤
        (AppContext.initDb oneDbThread 4).threads.toNat := by
  refine ⟨rfl, fun hall => ?_⟩
  have hrun : Runs.exec (step (SlotPool.firstFree 8) (programThreads oneDbThread 4))
      (init (some (SlotPool.Flags.allFree 8)))
      [.call, .call, .enter 0, .enter 1, .lease 0 false, .lease 1 false] = some _ := rfl
  exact absurd (hall _ _ hrun) (by decide)

end Repository

end Zem
