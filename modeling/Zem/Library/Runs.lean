import Mathlib.Logic.Basic

/-!
# Runs of a step function

A system is a step function `step : σ → ι → Option σ`: `none` says that the action is not
enabled.  A run is a list of actions.

* `exec` — the state a run ends in; `Reaches` — some run ends there.
* `exec_invariant`, `Reaches.invariant` — what every step preserves holds after every run.
* `exec_simulation` — if every step is matched by a run of a second system, so is every run.
* `trace` — the states passed; `exec_fold` — a value that every step recomputes from the state it
  reaches is the fold of that function over them.
* `observe`, `observe_invariant` — what an observer of the run keeps.
* `Visits`, `Takes` — a property of every state passed, and of every step taken;
  `visits_of_invariant`, `takes_of_invariant`.
* `visits_iff_takes` — where an invariant makes one step keep the property exactly when the
  step meets a condition, a run keeps it exactly when all its steps meet the condition.
-/

set_option autoImplicit false

namespace Runs

variable {σ τ ι κ : Type*}

/-- The state after the actions; `none` if one of them is not enabled. -/
def exec (step : σ → ι → Option σ) : σ → List ι → Option σ
  | s, [] => some s
  | s, a :: as =>
    match step s a with
    | some t => exec step t as
    | none => none

variable {step : σ → ι → Option σ}

@[simp] theorem exec_nil (s : σ) : exec step s [] = some s := rfl

theorem exec_cons {s t : σ} {a : ι} (h : step s a = some t) (as : List ι) :
    exec step s (a :: as) = exec step t as := by
  simp only [exec, h]

/-- A run of at least one action starts with an enabled step. -/
theorem exec_cons_some {s u : σ} {a : ι} {as : List ι} (h : exec step s (a :: as) = some u) :
    ∃ t, step s a = some t ∧ exec step t as = some u := by
  simp only [exec] at h
  split at h
  · rename_i t ht
    exact ⟨t, ht, h⟩
  · cases h

theorem exec_append (s : σ) (as bs : List ι) :
    exec step s (as ++ bs) = (exec step s as).bind fun t => exec step t bs := by
  induction as generalizing s with
  | nil => rfl
  | cons a as ih =>
    simp only [List.cons_append, exec]
    split
    · exact ih _
    · rfl

theorem exec_trans {s t u : σ} {as bs : List ι} (h : exec step s as = some t)
    (h' : exec step t bs = some u) : exec step s (as ++ bs) = some u := by
  rw [exec_append, h]
  exact h'

theorem exec_single {s t : σ} {a : ι} (h : step s a = some t) : exec step s [a] = some t := by
  rw [exec_cons h, exec_nil]

/-- `t` is the end of a run from `s`. -/
def Reaches (step : σ → ι → Option σ) (s t : σ) : Prop := ∃ as, exec step s as = some t

theorem Reaches.refl (s : σ) : Reaches step s s := ⟨[], rfl⟩

theorem Reaches.trans {s t u : σ} : Reaches step s t → Reaches step t u → Reaches step s u := by
  rintro ⟨as, h⟩ ⟨bs, h'⟩
  exact ⟨as ++ bs, exec_trans h h'⟩

theorem Reaches.single {s t : σ} {a : ι} (h : step s a = some t) : Reaches step s t :=
  ⟨[a], exec_single h⟩

/-- **Invariant rule**, for runs all of whose actions meet `G`. -/
theorem exec_invariant_of {I : σ → Prop} {G : ι → Prop}
    (hstep : ∀ s a t, I s → G a → step s a = some t → I t) :
    ∀ {as : List ι} {s t : σ}, I s → (∀ a ∈ as, G a) → exec step s as = some t → I t := by
  intro as
  induction as with
  | nil =>
    intro s t hs _ h
    cases h
    exact hs
  | cons a as ih =>
    intro s t hs hG h
    obtain ⟨u, hu, h⟩ := exec_cons_some h
    exact ih (hstep s a u hs (hG a (by simp)) hu) (fun b hb => hG b (by simp [hb])) h

/-- **Invariant rule.** -/
theorem exec_invariant {I : σ → Prop} (hstep : ∀ s a t, I s → step s a = some t → I t)
    {as : List ι} {s t : σ} (hs : I s) (h : exec step s as = some t) : I t :=
  exec_invariant_of (G := fun _ => True) (fun s a t hs _ => hstep s a t hs) hs
    (fun _ _ => trivial) h

theorem Reaches.invariant {I : σ → Prop} (hstep : ∀ s a t, I s → step s a = some t → I t)
    {s t : σ} (hs : I s) (h : Reaches step s t) : I t := by
  obtain ⟨as, h⟩ := h
  exact exec_invariant hstep hs h

/-- **Simulation rule**: under an invariant, each step is matched by a run of the second
    system. -/
theorem exec_simulation {I : σ → Prop} {step' : τ → κ → Option τ} {f : σ → τ}
    (hI : ∀ s a t, I s → step s a = some t → I t)
    (hstep : ∀ s a t, I s → step s a = some t → Reaches step' (f s) (f t)) :
    ∀ {as : List ι} {s t : σ}, I s → exec step s as = some t → Reaches step' (f s) (f t) := by
  intro as
  induction as with
  | nil =>
    intro s t _ h
    cases h
    exact .refl _
  | cons a as ih =>
    intro s t hs h
    obtain ⟨u, hu, h⟩ := exec_cons_some h
    exact (hstep s a u hs hu).trans (ih (hI s a u hs hu) h)

/-! ## The states passed -/

/-- The states the actions lead to, one after each; the run ends at an action not enabled. -/
def trace (step : σ → ι → Option σ) : σ → List ι → List σ
  | _, [] => []
  | s, a :: as =>
    match step s a with
    | some t => t :: trace step t as
    | none => []

theorem trace_cons {s t : σ} {a : ι} (h : step s a = some t) (as : List ι) :
    trace step s (a :: as) = t :: trace step t as := by
  simp only [trace, h]

/-- **Fold rule**: `f` gives a value of the next state from the value of the last one. -/
theorem exec_fold {I : σ → Prop} {val : σ → τ} {f : τ → σ → τ}
    (hI : ∀ s a t, I s → step s a = some t → I t)
    (hval : ∀ s a t, I s → step s a = some t → val t = f (val s) t) :
    ∀ {as : List ι} {s t : σ}, I s → exec step s as = some t →
      val t = (trace step s as).foldl f (val s) := by
  intro as
  induction as with
  | nil =>
    intro s t _ h
    cases h
    rfl
  | cons a as ih =>
    intro s t hs h
    obtain ⟨u, hu, h⟩ := exec_cons_some h
    rw [trace_cons hu, List.foldl_cons, ← hval s a u hs hu]
    exact ih (hI s a u hs hu) h

/-! ## Observers -/

/-- What an observer knows after the run, who takes note of every step. -/
def observe (step : σ → ι → Option σ) (note : σ → ι → σ → τ → τ) : σ → τ → List ι → τ
  | _, m, [] => m
  | s, m, a :: as =>
    match step s a with
    | some t => observe step note t (note s a t m) as
    | none => m

/-- **Invariant rule**, for a state and what is known of the run that leads to it. -/
theorem observe_invariant {note : σ → ι → σ → τ → τ} {I : σ → τ → Prop} {G : ι → Prop}
    (hstep : ∀ s a t m, I s m → G a → step s a = some t → I t (note s a t m)) :
    ∀ {as : List ι} {s t : σ} {m : τ}, I s m → (∀ a ∈ as, G a) → exec step s as = some t →
      I t (observe step note s m as) := by
  intro as
  induction as with
  | nil =>
    intro s t m hs _ h
    cases h
    exact hs
  | cons a as ih =>
    intro s t m hs hG h
    obtain ⟨u, hu, h⟩ := exec_cons_some h
    simp only [observe, hu]
    exact ih (hstep s a u m hs (hG a (by simp)) hu) (fun b hb => hG b (by simp [hb])) h

/-! ## Properties along a run -/

/-- `P` holds in every state the run passes, its first and its last included. -/
def Visits (step : σ → ι → Option σ) (P : σ → Prop) : σ → List ι → Prop
  | s, [] => P s
  | s, a :: as => P s ∧ ∀ t, step s a = some t → Visits step P t as

/-- Every step of the run is taken from a state, by an action, that meet `Q`. -/
def Takes (step : σ → ι → Option σ) (Q : σ → ι → Prop) : σ → List ι → Prop
  | _, [] => True
  | s, a :: as => Q s a ∧ ∀ t, step s a = some t → Takes step Q t as

/-- **Invariant rule**, for every state passed. -/
theorem visits_of_invariant {I P : σ → Prop} {G : ι → Prop}
    (hI : ∀ s a t, I s → G a → step s a = some t → I t) (hP : ∀ s, I s → P s) :
    ∀ {as : List ι} {s : σ}, I s → (∀ a ∈ as, G a) → Visits step P s as := by
  intro as
  induction as with
  | nil => exact fun hs _ => hP _ hs
  | cons a as ih =>
    intro s hs hG
    refine ⟨hP s hs, fun t ht => ?_⟩
    exact ih (hI s a t hs (hG a (by simp)) ht) fun b hb => hG b (by simp [hb])

/-- **Invariant rule**, for every step taken. -/
theorem takes_of_invariant {I : σ → Prop} {Q : σ → ι → Prop} {G : ι → Prop}
    (hI : ∀ s a t, I s → G a → step s a = some t → I t) (hQ : ∀ s a, I s → G a → Q s a) :
    ∀ {as : List ι} {s : σ}, I s → (∀ a ∈ as, G a) → Takes step Q s as := by
  intro as
  induction as with
  | nil => exact fun _ _ => trivial
  | cons a as ih =>
    intro s hs hG
    refine ⟨hQ s a hs (hG a (by simp)), fun t ht => ?_⟩
    exact ih (hI s a t hs (hG a (by simp)) ht) fun b hb => hG b (by simp [hb])

/-- **Exact condition along a run.**  `I` is an invariant under which a step from a state with
    `P` leads to a state with `P` exactly when the step meets `Q`. -/
theorem visits_iff_takes {I P : σ → Prop} {Q : σ → ι → Prop}
    (hI : ∀ s a t, I s → step s a = some t → I t)
    (hPQ : ∀ s a t, I s → P s → step s a = some t → (P t ↔ Q s a)) :
    ∀ {as : List ι} {s u : σ}, I s → P s → exec step s as = some u →
      (Visits step P s as ↔ Takes step Q s as) := by
  intro as
  induction as with
  | nil => intro s u _ hP _; exact ⟨fun _ => trivial, fun _ => hP⟩
  | cons a as ih =>
    intro s u hs hP h
    obtain ⟨t, ht, h⟩ := exec_cons_some h
    have hfirst : ∀ {as}, Visits step P t as → P t := by
      intro as
      cases as with
      | nil => exact id
      | cons b as => exact fun hv => hv.1
    have hkeep := hPQ s a t hs hP ht
    have hI' := hI s a t hs ht
    constructor
    · intro hv
      have hPt := hfirst (hv.2 t ht)
      refine ⟨hkeep.mp hPt, fun t' ht' => ?_⟩
      rw [ht] at ht'
      cases ht'
      exact (ih hI' hPt h).mp (hv.2 t ht)
    · intro hq
      have hPt := hkeep.mpr hq.1
      refine ⟨hP, fun t' ht' => ?_⟩
      rw [ht] at ht'
      cases ht'
      exact (ih hI' hPt h).mpr (hq.2 t ht)

end Runs
