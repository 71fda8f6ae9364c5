import Mathlib.Data.Finset.Card
import Mathlib.Data.Fintype.Basic
import Mathlib.Logic.Function.Basic

/-!
# Pools of numbered slots

A pool hands out its slots for a while.  Its state is of any type; what is known of it is which
slots are leased.

* `SlotPool` — the operations of a pool; `SlotPool.Lawful` — a lease is a free slot, there is one
  whenever a slot is free, and a slot that is given back is free again.
* `SlotPool.lease_of_card_lt` — a pool with fewer leases than slots has one more to give.
* `SlotPool.Holders` — each leased slot has one holder; `Holders.grant`, `Holders.giveBack`.
* `SlotPool.firstFree` — a pool that looks for the first free slot.
-/

set_option autoImplicit false

/-- The operations of a pool of `size` slots; `tryLease` finds no slot where it is `none`. -/
structure SlotPool (P : Type*) where
  size : Nat
  leased : P → Finset Nat
  tryLease : P → Option (Nat × P)
  giveBack : P → Nat → P

namespace SlotPool

variable {P : Type*}

/-- What a user of the pool relies on. -/
structure Lawful (pool : SlotPool P) : Prop where
  granted : ∀ p pos p', pool.tryLease p = some (pos, p') →
    pos < pool.size ∧ pos ∉ pool.leased p ∧ pool.leased p' = insert pos (pool.leased p)
  refused : ∀ p, pool.tryLease p = none → ∀ pos < pool.size, pos ∈ pool.leased p
  givenBack : ∀ p pos, pos ∈ pool.leased p →
    pool.leased (pool.giveBack p pos) = (pool.leased p).erase pos

/-- With fewer leases than slots there is a slot to lease. -/
theorem lease_of_card_lt {pool : SlotPool P} (h : pool.Lawful) {p : P}
    (hlt : (pool.leased p).card < pool.size) : ∃ pos p', pool.tryLease p = some (pos, p') := by
  cases htry : pool.tryLease p with
  | some r => exact ⟨r.1, r.2, rfl⟩
  | none =>
    have hall : Finset.range pool.size ⊆ pool.leased p :=
      fun pos hpos => h.refused p htry pos (Finset.mem_range.mp hpos)
    have hcard := Finset.card_le_card hall
    rw [Finset.card_range] at hcard
    omega

/-! ## Holders -/

variable {ι : Type*} [DecidableEq ι] {leased : Finset Nat} {held : ι → Option Nat}

/-- The leased slots are those that are held, each by one holder. -/
structure Holders (leased : Finset Nat) (held : ι → Option Nat) : Prop where
  slots : ∀ pos, pos ∈ leased ↔ ∃ c, held c = some pos
  distinct : ∀ c c' pos, held c = some pos → held c' = some pos → c = c'

theorem Holders.grant (h : Holders leased held) {c : ι} {pos : Nat} (hfree : pos ∉ leased)
    (hnone : held c = none) :
    Holders (insert pos leased) (Function.update held c (some pos)) := by
  have hnew : ∀ c', held c' ≠ some pos := fun c' hc' => hfree ((h.slots pos).mpr ⟨c', hc'⟩)
  refine ⟨fun q => ?_, fun c₁ c₂ q h₁ h₂ => ?_⟩
  · rw [Finset.mem_insert, h.slots]
    constructor
    · rintro (rfl | ⟨c', hc'⟩)
      · exact ⟨c, Function.update_self ..⟩
      · refine ⟨c', ?_⟩
        have hne : c' ≠ c := by
          rintro rfl
          rw [hnone] at hc'
          cases hc'
        rwa [Function.update_of_ne hne]
    · rintro ⟨c', hc'⟩
      by_cases heq : c' = c
      · subst heq
        rw [Function.update_self, Option.some.injEq] at hc'
        exact Or.inl hc'.symm
      · rw [Function.update_of_ne heq] at hc'
        exact Or.inr ⟨c', hc'⟩
  · by_cases heq₁ : c₁ = c
    · by_cases heq₂ : c₂ = c
      · rw [heq₁, heq₂]
      · rw [heq₁, Function.update_self] at h₁
        rw [Function.update_of_ne heq₂, ← h₁] at h₂
        exact absurd h₂ (hnew c₂)
    · rw [Function.update_of_ne heq₁] at h₁
      by_cases heq₂ : c₂ = c
      · rw [heq₂, Function.update_self] at h₂
        rw [← h₂] at h₁
        exact absurd h₁ (hnew c₁)
      · rw [Function.update_of_ne heq₂] at h₂
        exact h.distinct c₁ c₂ q h₁ h₂

theorem Holders.giveBack (h : Holders leased held) {c : ι} {pos : Nat}
    (hheld : held c = some pos) :
    Holders (leased.erase pos) (Function.update held c none) := by
  have hother : ∀ {c' q}, Function.update held c none c' = some q → c' ≠ c ∧ held c' = some q := by
    intro c' q hc'
    by_cases heq : c' = c
    · rw [heq, Function.update_self] at hc'
      cases hc'
    · rw [Function.update_of_ne heq] at hc'
      exact ⟨heq, hc'⟩
  refine ⟨fun q => ?_, fun c₁ c₂ q h₁ h₂ => h.distinct c₁ c₂ q (hother h₁).2 (hother h₂).2⟩
  rw [Finset.mem_erase, h.slots]
  constructor
  · rintro ⟨hne, c', hc'⟩
    refine ⟨c', ?_⟩
    rwa [Function.update_of_ne]
    rintro rfl
    rw [hheld, Option.some.injEq] at hc'
    exact hne hc'.symm
  · rintro ⟨c', hc'⟩
    obtain ⟨hne, hc'⟩ := hother hc'
    refine ⟨?_, c', hc'⟩
    rintro rfl
    exact hne (h.distinct c' c q hc' hheld)

/-! ## A pool that looks for the first free slot -/

/-- The slots of the pool, `true` for the free ones. -/
abbrev Flags (n : Nat) := Fin n → Bool

def Flags.allFree (n : Nat) : Flags n := fun _ => true

def firstFree (n : Nat) : SlotPool (Flags n) where
  size := n
  leased free := (Finset.univ.filter fun i => free i = false).map Fin.valEmbedding
  tryLease free :=
    ((List.finRange n).find? fun i => free i).map fun i => (i.val, Function.update free i false)
  giveBack free pos := if h : pos < n then Function.update free ⟨pos, h⟩ true else free

theorem mem_leased_firstFree {n : Nat} (free : Flags n) (pos : Nat) :
    pos ∈ (firstFree n).leased free ↔ ∃ h : pos < n, free ⟨pos, h⟩ = false := by
  simp only [firstFree, Finset.mem_map, Finset.mem_filter, Finset.mem_univ, true_and,
    Fin.valEmbedding_apply]
  constructor
  · rintro ⟨i, hi, rfl⟩
    exact ⟨i.isLt, hi⟩
  · rintro ⟨h, hi⟩
    exact ⟨⟨pos, h⟩, hi, rfl⟩

theorem mem_leased_update {n : Nat} (free : Flags n) (i : Fin n) (b : Bool) (pos : Nat) :
    pos ∈ (firstFree n).leased (Function.update free i b) ↔
      pos = i.val ∧ b = false ∨ pos ≠ i.val ∧ pos ∈ (firstFree n).leased free := by
  rw [mem_leased_firstFree, mem_leased_firstFree]
  by_cases heq : pos = i.val
  · subst heq
    simp
  · have hne : ∀ h : pos < n, (⟨pos, h⟩ : Fin n) ≠ i := fun h hi => heq (congrArg Fin.val hi)
    simp [heq, hne]

theorem leased_allFree (n : Nat) : (firstFree n).leased (Flags.allFree n) = ∅ := by
  simp [firstFree, Flags.allFree]

theorem lawful_firstFree (n : Nat) : (firstFree n).Lawful := by
  refine ⟨fun free pos free' h => ?_, fun free h pos hpos => ?_, fun free pos hpos => ?_⟩
  · obtain ⟨i, hfind, heq⟩ := Option.map_eq_some_iff.mp h
    cases heq
    have hfree : free i = true := by simpa using List.find?_some hfind
    have hnew : i.val ∉ (firstFree n).leased free := by
      simp [mem_leased_firstFree, hfree]
    refine ⟨i.isLt, hnew, Finset.ext fun pos => ?_⟩
    rw [mem_leased_update, Finset.mem_insert]
    by_cases heq : pos = i.val
    · simp [heq]
    · simp [heq]
  · have hnone := Option.map_eq_none_iff.mp h
    have hall := List.find?_eq_none.mp hnone ⟨pos, hpos⟩ (List.mem_finRange _)
    exact (mem_leased_firstFree free pos).mpr ⟨hpos, by simpa using hall⟩
  · obtain ⟨hlt, _⟩ := (mem_leased_firstFree free pos).mp hpos
    have hback : (firstFree n).giveBack free pos = Function.update free ⟨pos, hlt⟩ true :=
      dif_pos hlt
    apply Finset.ext
    intro q
    rw [hback, mem_leased_update, Finset.mem_erase]
    simp

end SlotPool
