import Mathlib.Algebra.Ring.Nat
import Mathlib.Logic.Relation

/-!
# Coroutines with effects and awaited questions

A coroutine performs effects `E`, and may suspend to await the answer `A` to a question `Q`.
It ends by returning a value or by throwing.

* `segment` — the effects up to the next suspension point, and what comes there.
* `resolve` — the effects and the end of the whole coroutine when every question is answered
  by a function.
* `resolve_eq_segment` — running to the end is running segment by segment.
* `Spends`, `Performs` — bounds on what a coroutine does on every path, segment by segment.
* `Left` — what is left of a coroutine later on; `wellFounded_left`, `left_of_suspended`.
-/

set_option autoImplicit false

/-- What is left to run of a coroutine. -/
inductive Coroutine (Q A E α : Type) where
  | ret (x : α)
  | throw
  | perform (e : E) (k : Coroutine Q A E α)
  | await (q : Q) (k : A → Coroutine Q A E α)

namespace Coroutine

variable {Q A E α β : Type}

/-- `co_await` of a coroutine by another. -/
def bind : Coroutine Q A E α → (α → Coroutine Q A E β) → Coroutine Q A E β
  | ret x, f => f x
  | throw, _ => throw
  | perform e k, f => perform e (bind k f)
  | await q k, f => await q fun a => bind (k a) f

/-- Where a segment ends. -/
inductive Stop (Q A E α : Type) where
  | returned (x : α)
  | threw
  | suspended (q : Q) (k : A → Coroutine Q A E α)

/-- Run up to the next suspension point. -/
def segment : Coroutine Q A E α → List E × Stop Q A E α
  | ret x => ([], .returned x)
  | throw => ([], .threw)
  | perform e k => (e :: (segment k).1, (segment k).2)
  | await q k => ([], .suspended q k)

/-- How a coroutine ends. -/
inductive End (α : Type) where
  | returned (x : α)
  | threw
  deriving DecidableEq, Repr

/-- Run to the end with `answer` for every question. -/
def resolve (answer : Q → A) : Coroutine Q A E α → List E × End α
  | ret x => ([], .returned x)
  | throw => ([], .threw)
  | perform e k => (e :: (resolve answer k).1, (resolve answer k).2)
  | await q k => resolve answer (k (answer q))

/-- Run to the end from where a segment stopped. -/
def Stop.resolve (answer : Q → A) : Stop Q A E α → List E × End α
  | returned x => ([], .returned x)
  | threw => ([], .threw)
  | suspended q k => (k (answer q)).resolve answer

theorem resolve_eq_segment (answer : Q → A) (c : Coroutine Q A E α) :
    c.resolve answer =
      (c.segment.1 ++ (c.segment.2.resolve answer).1, (c.segment.2.resolve answer).2) := by
  induction c with
  | ret x => rfl
  | throw => rfl
  | perform e k ih => simp only [resolve, segment, List.cons_append, ih]
  | await q k ih => rfl

/-! ## Bounds on every path -/

/-- On every path the effects cost at most `n`. -/
def Spends (cost : E → Nat) : Nat → Coroutine Q A E α → Prop
  | _, ret _ => True
  | _, throw => True
  | n, perform e k => cost e ≤ n ∧ Spends cost (n - cost e) k
  | n, await _ k => ∀ a, Spends cost n (k a)

/-- On every path every effect meets `P`. -/
def Performs (P : E → Prop) : Coroutine Q A E α → Prop
  | ret _ => True
  | throw => True
  | perform e k => P e ∧ Performs P k
  | await _ k => ∀ a, Performs P (k a)

/-- **Budget rule**: what a segment costs is taken from the budget of the rest. -/
theorem Spends.segment {cost : E → Nat} {c : Coroutine Q A E α} : ∀ {n : Nat}, c.Spends cost n →
    (c.segment.1.map cost).sum ≤ n ∧ ∀ q k, c.segment.2 = .suspended q k →
      ∀ a, (k a).Spends cost (n - (c.segment.1.map cost).sum) := by
  induction c with
  | ret x => exact fun _ => ⟨Nat.zero_le _, fun _ _ h => (nomatch h)⟩
  | throw => exact fun _ => ⟨Nat.zero_le _, fun _ _ h => (nomatch h)⟩
  | perform e k ih =>
    intro n h
    obtain ⟨hle, hrest⟩ := h
    obtain ⟨hsum, hsusp⟩ := ih hrest
    have hcost : ((perform e k).segment.1.map cost).sum = cost e + (k.segment.1.map cost).sum :=
      rfl
    rw [hcost]
    refine ⟨by omega, fun q k' hk a => ?_⟩
    rw [← Nat.sub_sub]
    exact hsusp q k' hk a
  | await q k _ =>
    intro n h
    refine ⟨Nat.zero_le _, fun q' k' hk a => ?_⟩
    cases hk
    exact h a

theorem Performs.segment {P : E → Prop} {c : Coroutine Q A E α} (h : c.Performs P) :
    (∀ e ∈ c.segment.1, P e) ∧ ∀ q k, c.segment.2 = .suspended q k → ∀ a, (k a).Performs P := by
  induction c with
  | ret x => exact ⟨fun _ h => (nomatch h), fun _ _ h => (nomatch h)⟩
  | throw => exact ⟨fun _ h => (nomatch h), fun _ _ h => (nomatch h)⟩
  | perform e k ih =>
    obtain ⟨he, hrest⟩ := h
    obtain ⟨hall, hsusp⟩ := ih hrest
    refine ⟨fun e' he' => ?_, hsusp⟩
    rcases List.mem_cons.mp he' with rfl | he'
    · exact he
    · exact hall e' he'
  | await q k _ =>
    refine ⟨fun _ h => (nomatch h), fun q' k' hk a => ?_⟩
    cases hk
    exact h a

/-! ## What is left -/

/-- What is left after one effect, or after one answer. -/
inductive Next : Coroutine Q A E α → Coroutine Q A E α → Prop where
  | perform (e : E) (k : Coroutine Q A E α) : Next k (perform e k)
  | await (q : Q) (k : A → Coroutine Q A E α) (a : A) : Next (k a) (await q k)

/-- What is left after some effects and answers, at least one of them. -/
abbrev Left : Coroutine Q A E α → Coroutine Q A E α → Prop := Relation.TransGen Next

theorem wellFounded_next : WellFounded (Next : Coroutine Q A E α → Coroutine Q A E α → Prop) := by
  refine ⟨fun c => ?_⟩
  induction c with
  | ret x => exact ⟨_, fun _ h => (nomatch h)⟩
  | throw => exact ⟨_, fun _ h => (nomatch h)⟩
  | perform e k ih =>
    refine ⟨_, fun _ h => ?_⟩
    cases h
    exact ih
  | await q k ih =>
    refine ⟨_, fun _ h => ?_⟩
    cases h
    exact ih _

/-- A coroutine has no endless path. -/
theorem wellFounded_left : WellFounded (Left : Coroutine Q A E α → Coroutine Q A E α → Prop) :=
  wellFounded_next.transGen

/-- Where a segment is suspended, as a coroutine of its own. -/
theorem left_of_suspended {c : Coroutine Q A E α} {q : Q} {k : A → Coroutine Q A E α}
    (h : c.segment.2 = .suspended q k) : await q k = c ∨ Left (await q k) c := by
  induction c with
  | ret x => cases h
  | throw => cases h
  | perform e c ih =>
    rcases ih h with rfl | hleft
    · exact Or.inr (.single (.perform e _))
    · exact Or.inr (hleft.tail (.perform e _))
  | await q' k' _ =>
    cases h
    exact Or.inl rfl

end Coroutine
