import Mathlib.Data.List.Infix
import Zem.Library.Runs

/-!
# An in-order, lossless outbox

The abstract view of a sender: it accepts messages one at a time and delivers them in the order
of acceptance, several at once if it likes.

* `History` — the messages accepted so far and how many of them are delivered; the count never
  exceeds the number of messages, by construction.
* `output_prefix` — what is delivered is a prefix of what is accepted.
* `run_extends` — a run only appends to what is accepted and to what is delivered.
-/

set_option autoImplicit false

namespace Outbox

structure History (α : Type*) where
  accepted : List α
  delivered : Nat
  le : delivered ≤ accepted.length

inductive Act (α : Type*) where
  | accept (a : α)
  | deliver (k : Nat)

variable {α : Type*}

/-- The messages delivered so far. -/
def History.output (h : History α) : List α := h.accepted.take h.delivered

theorem output_prefix (h : History α) : h.output <+: h.accepted := List.take_prefix _ _

def step (h : History α) : Act α → Option (History α)
  | .accept a => some
      { accepted := h.accepted ++ [a]
        delivered := h.delivered
        le := by
          have := h.le
          rw [List.length_append]
          omega }
  | .deliver k =>
    if hk : h.delivered + k ≤ h.accepted.length then
      some { accepted := h.accepted, delivered := h.delivered + k, le := hk }
    else none

theorem step_extends {h h' : History α} {act : Act α} (hs : step h act = some h') :
    h.accepted <+: h'.accepted ∧ h.delivered ≤ h'.delivered := by
  cases act with
  | accept a =>
    cases hs
    exact ⟨List.prefix_append _ _, Nat.le_refl _⟩
  | deliver k =>
    simp only [step] at hs
    split at hs
    · cases hs
      exact ⟨List.prefix_rfl, Nat.le_add_right _ _⟩
    · cases hs

theorem output_mono {h h' : History α} (ha : h.accepted <+: h'.accepted)
    (hd : h.delivered ≤ h'.delivered) : h.output <+: h'.output := by
  obtain ⟨new, hnew⟩ := ha
  have htake : h.output = h'.accepted.take h.delivered := by
    rw [← hnew, List.take_append_of_le_length h.le]
    rfl
  rw [htake]
  exact List.take_prefix_take_left hd

theorem run_extends {h h' : History α} (hr : Runs.Reaches step h h') :
    h.accepted <+: h'.accepted ∧ h.output <+: h'.output := by
  obtain ⟨hacc, hdel⟩ := hr.invariant
    (I := fun t : History α => h.accepted <+: t.accepted ∧ h.delivered ≤ t.delivered)
    (fun _ _ _ ht hs =>
      ⟨ht.1.trans (step_extends hs).1, Nat.le_trans ht.2 (step_extends hs).2⟩)
    ⟨List.prefix_rfl, Nat.le_refl _⟩
  exact ⟨hacc, output_mono hacc hdel⟩

end Outbox
