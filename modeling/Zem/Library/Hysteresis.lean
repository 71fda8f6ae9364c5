import Mathlib.Order.Lattice
import Zem.Library.Runs

/-!
# A switch with two thresholds

A flag that follows a level: it goes on above `high`, off at or below `low`, and keeps its value
in between.

* `next` — the flag after a new level; `steady_iff` — the flags a level leaves as they are.
* `next_rise`, `next_fall` — a level that rises can only put the flag on, one that falls off.
* `exec_next` — a system whose steps set the flag so has, after every run, the fold of `next` over
  the levels passed.
-/

set_option autoImplicit false

namespace Hysteresis

variable {α : Type*} [LinearOrder α] {low high : α}

/-- The flag after the level has become `p`. -/
def next (low high : α) (flag : Bool) (p : α) : Bool :=
  if high < p then true else if p ≤ low then false else flag

/-- The level `p` leaves the flag as it is. -/
def Steady (low high : α) (flag : Bool) (p : α) : Prop := next low high flag p = flag

theorem next_above {p : α} (h : high < p) (flag : Bool) : next low high flag p = true := by
  simp [next, h]

theorem next_below {p : α} (h : p ≤ low) (hlt : low < high) (flag : Bool) :
    next low high flag p = false := by
  have : ¬ high < p := not_lt.mpr (le_of_lt (lt_of_le_of_lt h hlt))
  simp [next, this, h]

theorem next_between {p : α} (hhigh : p ≤ high) (hlow : low < p) (flag : Bool) :
    next low high flag p = flag := by
  simp [next, not_lt.mpr hhigh, not_le.mpr hlow]

/-- A flag is steady if it is on above `high` and off at or below `low`. -/
theorem steady_iff (hlt : low < high) {flag : Bool} {p : α} :
    Steady low high flag p ↔ (high < p → flag = true) ∧ (flag = true → low < p) := by
  unfold Steady
  rcases lt_or_ge high p with hp | hp
  · rw [next_above hp]
    exact ⟨fun h => ⟨fun _ => h.symm, fun _ => lt_trans hlt hp⟩, fun h => (h.1 hp).symm⟩
  · rcases le_or_gt p low with hp' | hp'
    · rw [next_below hp' hlt]
      refine ⟨fun h => ⟨fun hp'' => absurd hp'' (not_lt.mpr hp), fun h' => ?_⟩, fun h => ?_⟩
      · rw [← h] at h'
        cases h'
      · cases flag with
        | false => rfl
        | true => exact absurd (h.2 rfl) (not_lt.mpr hp')
    · rw [next_between hp hp']
      exact ⟨fun _ => ⟨fun hp'' => absurd hp'' (not_lt.mpr hp), fun _ => hp'⟩, fun _ => rfl⟩

/-- Every flag is steady once it has followed the level. -/
theorem steady_next (flag : Bool) (p : α) : Steady low high (next low high flag p) p := by
  unfold Steady next
  split
  · rfl
  · split
    · rfl
    · rfl

/-- A level that rises only has to be compared with `high`. -/
theorem next_rise (hlt : low < high) {flag : Bool} {p q : α} (h : Steady low high flag p)
    (hpq : p ≤ q) : next low high flag q = (flag || decide (high < q)) := by
  obtain ⟨_, hon⟩ := (steady_iff hlt).mp h
  rcases lt_or_ge high q with hq | hq
  · rw [next_above hq, decide_eq_true hq, Bool.or_true]
  · rw [decide_eq_false (not_lt.mpr hq), Bool.or_false]
    rcases le_or_gt q low with hq' | hq'
    · rw [next_below hq' hlt]
      cases flag with
      | false => rfl
      | true => exact absurd (hon rfl) (not_lt.mpr (le_trans hpq hq'))
    · exact next_between hq hq' flag

/-- A level that falls only has to be compared with `low`. -/
theorem next_fall (hlt : low < high) {flag : Bool} {p q : α} (h : Steady low high flag p)
    (hpq : q ≤ p) : next low high flag q = (flag && !decide (q ≤ low)) := by
  obtain ⟨hoff, _⟩ := (steady_iff hlt).mp h
  rcases le_or_gt q low with hq | hq
  · rw [next_below hq hlt, decide_eq_true hq, Bool.not_true, Bool.and_false]
  · rw [decide_eq_false (not_le.mpr hq), Bool.not_false, Bool.and_true]
    rcases lt_or_ge high q with hq' | hq'
    · rw [next_above hq', hoff (lt_of_lt_of_le hq' hpq)]
    · exact next_between hq' hq flag

/-- **The flag after a run** is the fold over the levels passed. -/
theorem exec_next {σ ι : Type*} {step : σ → ι → Option σ} {I : σ → Prop} (flag : σ → Bool)
    (level : σ → α) (hI : ∀ s a t, I s → step s a = some t → I t)
    (hstep : ∀ s a t, I s → step s a = some t → flag t = next low high (flag s) (level t))
    {as : List ι} {s t : σ} (hs : I s) (h : Runs.exec step s as = some t) :
    flag t = ((Runs.trace step s as).map level).foldl (next low high) (flag s) := by
  rw [List.foldl_map]
  exact Runs.exec_fold hI hstep hs h

end Hysteresis
