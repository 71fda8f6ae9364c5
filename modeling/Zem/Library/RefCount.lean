import Mathlib.Algebra.BigOperators.Group.Finset.Piecewise
import Mathlib.Algebra.Order.BigOperators.Group.Finset
import Mathlib.Data.Fintype.Basic

/-!
# Counted references

Objects whose references are counted.  An object may own references to others, and lets go of them
when the last reference to it goes.  What happens to an object is a heap operation; who holds the
references from outside is left to the user of the heap.

* `RefHeap` — how many references there are, and which of them objects own; `add`, `own`, `drop`.
* `RefHeap.Exact` — every reference is counted; `Exact.add`, `Exact.own`, `Exact.drop`.
* `RefHeap.refs_drop` — an object keeps its references, or has none left.
* `RefHeap.Sustained` — objects that are referred to from among themselves; `Sustained.drop`:
  they stay, whatever references from outside go.
-/

set_option autoImplicit false

/-- How many references there are to each object, and the references that each object owns. -/
structure RefHeap (ν : Type*) where
  count : ν → Nat
  refs : ν → List ν

namespace RefHeap

variable {ν : Type*} [DecidableEq ν]

def empty : RefHeap ν := ⟨fun _ => 0, fun _ => []⟩

/-- A new reference from outside; the first one makes the object. -/
def add (h : RefHeap ν) (n : ν) : RefHeap ν :=
  { h with count := Function.update h.count n (h.count n + 1) }

/-- A reference to `n` from outside is given to `m`. -/
def own (h : RefHeap ν) (m n : ν) : RefHeap ν :=
  { h with refs := Function.update h.refs m (n :: h.refs m) }

def lower (h : RefHeap ν) (n : ν) : RefHeap ν :=
  { h with count := Function.update h.count n (h.count n - 1) }

def free (h : RefHeap ν) (n : ν) : RefHeap ν := { h with refs := Function.update h.refs n [] }

@[simp] theorem add_count (h : RefHeap ν) (n : ν) :
    (h.add n).count = Function.update h.count n (h.count n + 1) := rfl

@[simp] theorem add_refs (h : RefHeap ν) (n : ν) : (h.add n).refs = h.refs := rfl

@[simp] theorem own_count (h : RefHeap ν) (m n : ν) : (h.own m n).count = h.count := rfl

@[simp] theorem own_refs (h : RefHeap ν) (m n : ν) :
    (h.own m n).refs = Function.update h.refs m (n :: h.refs m) := rfl

@[simp] theorem lower_count (h : RefHeap ν) (n : ν) :
    (h.lower n).count = Function.update h.count n (h.count n - 1) := rfl

@[simp] theorem lower_refs (h : RefHeap ν) (n : ν) : (h.lower n).refs = h.refs := rfl

@[simp] theorem free_count (h : RefHeap ν) (n : ν) : (h.free n).count = h.count := rfl

@[simp] theorem free_refs (h : RefHeap ν) (n : ν) :
    (h.free n).refs = Function.update h.refs n [] := rfl

/-- The references go one after the other; the last one to an object is followed by those that the
    object owns. -/
def dropAll : Nat → List ν → RefHeap ν → RefHeap ν
  | 0, _, h => h
  | _ + 1, [], h => h
  | fuel + 1, n :: ns, h =>
    if h.count n = 1 then dropAll fuel (h.refs n ++ ns) ((h.lower n).free n)
    else dropAll fuel ns (h.lower n)

variable [Fintype ν]

def total (h : RefHeap ν) : Nat := ∑ n, h.count n

/-- A reference from outside goes; no more can go than there are. -/
def drop (h : RefHeap ν) (n : ν) : RefHeap ν := dropAll h.total [n] h

/-! ## Exact counts -/

/-- The references to `n` that objects own. -/
def inner (h : RefHeap ν) (n : ν) : Nat := ∑ m, (h.refs m).count n

/-- The counts are those of the references: `out` of them from outside, the others owned. -/
structure Exact (out : ν → Nat) (h : RefHeap ν) : Prop where
  count : ∀ n, h.count n = out n + h.inner n
  freed : ∀ n, h.count n = 0 → h.refs n = []

theorem exact_empty : Exact (fun _ => 0) (empty : RefHeap ν) :=
  ⟨fun n => by simp [empty, inner], fun _ _ => rfl⟩

theorem inner_update (refs : ν → List ν) (n : ν) (l : List ν) (x : ν) :
    (∑ m, (Function.update refs n l m).count x) + (refs n).count x =
      (∑ m, (refs m).count x) + l.count x := by
  have hcomp : ∀ m, (Function.update refs n l m).count x =
      Function.update (fun m => (refs m).count x) n (l.count x) m := by
    intro m
    by_cases hm : m = n
    · subst hm
      simp
    · simp [hm]
  have hsum := Finset.add_sum_erase Finset.univ (fun m => (refs m).count x) (Finset.mem_univ n)
  simp only [hcomp]
  rw [Finset.sum_update_of_mem (Finset.mem_univ n), Finset.sdiff_singleton_eq_erase]
  omega

theorem inner_pos {h : RefHeap ν} {m n : ν} (hn : n ∈ h.refs m) : 0 < h.inner n :=
  Nat.lt_of_lt_of_le (List.count_pos_iff.mpr hn)
    (Finset.single_le_sum (f := fun m => (h.refs m).count n) (fun _ _ => Nat.zero_le _)
      (Finset.mem_univ m))

theorem Exact.add {out : ν → Nat} {h : RefHeap ν} (hx : Exact out h) (n : ν) :
    Exact (Function.update out n (out n + 1)) (h.add n) := by
  have hinner : ∀ x, (h.add n).inner x = h.inner x := fun _ => rfl
  refine ⟨fun x => ?_, fun x h0 => ?_⟩
  · have hcount := hx.count x
    rw [hinner, add_count]
    by_cases hxn : x = n
    · subst hxn
      simp only [Function.update_self]
      omega
    · simpa only [Function.update_of_ne hxn] using hcount
  · rw [add_count] at h0
    by_cases hxn : x = n
    · subst hxn
      simp at h0
    · rw [Function.update_of_ne hxn] at h0
      exact hx.freed x h0

theorem Exact.own {out : ν → Nat} {h : RefHeap ν} (hx : Exact out h) {m n : ν}
    (hm : 0 < h.count m) (hn : 0 < out n) :
    Exact (Function.update out n (out n - 1)) (h.own m n) := by
  refine ⟨fun x => ?_, fun x h0 => ?_⟩
  · have hcount := hx.count x
    have hinner : (h.own m n).inner x + (h.refs m).count x =
        h.inner x + (n :: h.refs m).count x := inner_update h.refs m (n :: h.refs m) x
    rw [own_count]
    by_cases hxn : x = n
    · subst hxn
      rw [List.count_cons_self] at hinner
      rw [Function.update_self]
      omega
    · rw [List.count_cons_of_ne fun h => hxn h.symm] at hinner
      rw [Function.update_of_ne hxn]
      omega
  · have hxm : x ≠ m := by
      rintro rfl
      exact Nat.ne_of_gt hm h0
    rw [own_refs, Function.update_of_ne hxm]
    exact hx.freed x h0

/-- One reference goes. -/
theorem Exact.step {out : ν → Nat} {h : RefHeap ν} {n : ν} {ns : List ν}
    (hx : Exact (fun x => out x + (n :: ns).count x) h) :
    if h.count n = 1 then
      Exact (fun x => out x + (h.refs n ++ ns).count x) ((h.lower n).free n)
    else Exact (fun x => out x + ns.count x) (h.lower n) := by
  have hself : h.count n = out n + (ns.count n + 1) + h.inner n := by
    rw [hx.count n, List.count_cons_self]
  have hother : ∀ x, x ≠ n → h.count x = out x + ns.count x + h.inner x := by
    intro x hxn
    rw [hx.count x, List.count_cons_of_ne fun h => hxn h.symm]
  split
  · rename_i hone
    refine ⟨fun x => ?_, fun x h0 => ?_⟩
    · have hinner : ((h.lower n).free n).inner x + (h.refs n).count x =
          h.inner x + ([] : List ν).count x := inner_update h.refs n [] x
      rw [List.count_nil] at hinner
      rw [free_count, lower_count, List.count_append]
      by_cases hxn : x = n
      · subst hxn
        rw [Function.update_self]
        omega
      · rw [Function.update_of_ne hxn, hother x hxn]
        omega
    · rw [free_count, lower_count] at h0
      rw [free_refs, lower_refs]
      by_cases hxn : x = n
      · subst hxn
        exact Function.update_self ..
      · rw [Function.update_of_ne hxn] at *
        exact hx.freed x h0
  · rename_i hmany
    have hinner : ∀ x, (h.lower n).inner x = h.inner x := fun _ => rfl
    refine ⟨fun x => ?_, fun x h0 => ?_⟩
    · rw [lower_count, hinner]
      by_cases hxn : x = n
      · subst hxn
        rw [Function.update_self]
        omega
      · rw [Function.update_of_ne hxn]
        exact hother x hxn
    · rw [lower_count] at h0
      by_cases hxn : x = n
      · subst hxn
        rw [Function.update_self] at h0
        omega
      · rw [Function.update_of_ne hxn] at h0
        exact hx.freed x h0

theorem total_lower {h : RefHeap ν} {n : ν} (hn : 0 < h.count n) :
    (h.lower n).total + 1 = h.total := by
  have hsum := Finset.add_sum_erase Finset.univ h.count (Finset.mem_univ n)
  simp only [total, lower_count]
  rw [Finset.sum_update_of_mem (Finset.mem_univ n), Finset.sdiff_singleton_eq_erase]
  omega

/-- With fuel for all references that there are, all that should go are gone. -/
theorem Exact.dropAll {out : ν → Nat} (fuel : Nat) : ∀ (ns : List ν) (h : RefHeap ν),
    Exact (fun x => out x + ns.count x) h → h.total ≤ fuel → Exact out (dropAll fuel ns h) := by
  induction fuel with
  | zero =>
    intro ns h hx hfuel
    have hzero : ∀ n, h.count n = 0 := fun n =>
      Finset.sum_eq_zero_iff.mp (Nat.le_zero.mp hfuel) n (Finset.mem_univ n)
    have hns : ∀ n, ns.count n = 0 := by
      intro n
      have := hx.count n
      have := hzero n
      omega
    refine ⟨fun n => ?_, hx.freed⟩
    have := hx.count n
    have := hns n
    simp only [RefHeap.dropAll]
    omega
  | succ fuel ih =>
    intro ns h hx hfuel
    cases ns with
    | nil => simpa [RefHeap.dropAll] using hx
    | cons n ns =>
      have hpos : 0 < h.count n := by
        rw [hx.count n, List.count_cons_self]
        omega
      have htotal := total_lower hpos
      have hstep := hx.step
      simp only [RefHeap.dropAll]
      split
      · rename_i hone
        rw [if_pos hone] at hstep
        apply ih _ _ hstep
        show (h.lower n).total ≤ fuel
        omega
      · rename_i hmany
        rw [if_neg hmany] at hstep
        apply ih _ _ hstep
        omega

/-- A reference from outside may be taken for one that is about to go. -/
theorem Exact.pending {out : ν → Nat} {h : RefHeap ν} (hx : Exact out h) {n : ν}
    (hn : 0 < out n) :
    Exact (fun x => Function.update out n (out n - 1) x + [n].count x) h := by
  convert hx using 1
  funext x
  by_cases hxn : x = n
  · subst hxn
    rw [Function.update_self, List.count_singleton_self]
    omega
  · have hne : (n == x) = false := beq_false_of_ne fun h => hxn h.symm
    simp [Function.update_of_ne hxn, List.count_singleton, hne]

theorem Exact.drop {out : ν → Nat} {h : RefHeap ν} (hx : Exact out h) {n : ν} (hn : 0 < out n) :
    Exact (Function.update out n (out n - 1)) (h.drop n) :=
  Exact.dropAll _ _ _ (hx.pending hn) (Nat.le_refl _)

/-! ## What stays -/

omit [Fintype ν] in
theorem refs_dropAll (x : ν) (l : List ν) (fuel : Nat) : ∀ (ns : List ν) (h : RefHeap ν),
    h.refs x = l ∨ h.count x = 0 ∧ h.refs x = [] →
    (dropAll fuel ns h).refs x = l ∨
      (dropAll fuel ns h).count x = 0 ∧ (dropAll fuel ns h).refs x = [] := by
  induction fuel with
  | zero => exact fun _ _ h => h
  | succ fuel ih =>
    intro ns h hx
    cases ns with
    | nil => exact hx
    | cons n ns =>
      simp only [RefHeap.dropAll]
      split
      · rename_i hone
        apply ih
        by_cases hxn : x = n
        · subst hxn
          right
          simp [hone]
        · simpa [Function.update_of_ne hxn] using hx
      · apply ih
        by_cases hxn : x = n
        · subst hxn
          rcases hx with hx | ⟨h0, hx⟩
          · exact Or.inl hx
          · exact Or.inr ⟨by simp [h0], hx⟩
        · simpa [Function.update_of_ne hxn] using hx

/-- An object keeps what it owns, or is freed. -/
theorem refs_drop (h : RefHeap ν) (n x : ν) :
    (h.drop n).refs x = h.refs x ∨ (h.drop n).count x = 0 ∧ (h.drop n).refs x = [] :=
  refs_dropAll x _ _ _ _ (Or.inl rfl)

/-- Each of the objects is referred to by one of them. -/
def Sustained (S : Set ν) (h : RefHeap ν) : Prop := ∀ n ∈ S, ∃ m ∈ S, n ∈ h.refs m

theorem Sustained.dropAll {S : Set ν} {out : ν → Nat} (fuel : Nat) :
    ∀ (ns : List ν) (h : RefHeap ν), Exact (fun x => out x + ns.count x) h →
      Sustained S h → Sustained S (dropAll fuel ns h) := by
  induction fuel with
  | zero => exact fun _ _ _ hS => hS
  | succ fuel ih =>
    intro ns h hx hS
    cases ns with
    | nil => exact hS
    | cons n ns =>
      have hstep := hx.step
      simp only [RefHeap.dropAll]
      split
      · rename_i hone
        rw [if_pos hone] at hstep
        -- the last reference to `n` comes from outside, so `n` is none of them
        have hout : n ∉ S := by
          intro hn
          obtain ⟨m, _, hm⟩ := hS n hn
          have hpos := inner_pos hm
          have hcount := hx.count n
          rw [List.count_cons_self] at hcount
          omega
        refine ih _ _ hstep fun x hxS => ?_
        obtain ⟨m, hmS, hm⟩ := hS x hxS
        have hne : m ≠ n := by
          rintro rfl
          exact hout hmS
        refine ⟨m, hmS, ?_⟩
        rwa [free_refs, Function.update_of_ne hne]
      · rename_i hmany
        rw [if_neg hmany] at hstep
        exact ih _ _ hstep hS

/-- **A cycle is never freed**: objects that are referred to from among themselves stay, whatever
    references from outside go. -/
theorem Sustained.drop {S : Set ν} {out : ν → Nat} {h : RefHeap ν} (hx : Exact out h) {n : ν}
    (hn : 0 < out n) (hS : Sustained S h) {m : ν} (hm : m ∈ S) :
    0 < (h.drop n).count m ∧ (h.drop n).refs m = h.refs m := by
  have hafter := hx.drop hn
  have hkept : Sustained S (h.drop n) := Sustained.dropAll _ _ _ (hx.pending hn) hS
  obtain ⟨m', _, hm'⟩ := hkept m hm
  have hpos : 0 < (h.drop n).count m := by
    rw [hafter.count m]
    exact Nat.add_pos_right _ (inner_pos hm')
  refine ⟨hpos, (refs_drop h n m).resolve_right fun h0 => ?_⟩
  exact Nat.ne_of_gt hpos h0.1

end RefHeap
