import Mathlib.Data.List.Basic

/-!
# Self-delimiting codes and the streams made of them

A `Code` encodes a message as a string that can be cut off the front of any longer string.

* `decodeAll` — the messages at the front of a stream, as many as there are, and the rest.
* `Decomposes` — a stream is the encoding of valid messages followed by a remainder that does
  not begin with a message.
* `decodeAll_decomposes`, `decomposes_unique` — every stream has exactly one decomposition.
* `encodeAll_injective` — different lists of valid messages have different encodings.
-/

set_option autoImplicit false

namespace Framing

/-- A self-delimiting code for the messages `α` over the symbols `β`. -/
structure Code (α β : Type*) where
  /-- The messages the receiver accepts. -/
  Valid : α → Prop
  encode : α → List β
  decode : List β → Option (α × List β)
  decode_encode : ∀ a rest, Valid a → decode (encode a ++ rest) = some (a, rest)
  decode_sound : ∀ bs a rest, decode bs = some (a, rest) → Valid a ∧ bs = encode a ++ rest
  encode_ne_nil : ∀ a, Valid a → encode a ≠ []

variable {α β : Type*} (C : Code α β)

theorem Code.decode_shorter {bs rest : List β} {a : α} (h : C.decode bs = some (a, rest)) :
    rest.length < bs.length := by
  obtain ⟨hv, rfl⟩ := C.decode_sound _ _ _ h
  have := List.length_pos_iff.mpr (C.encode_ne_nil a hv)
  rw [List.length_append]
  omega

/-- `decode` fails exactly on the strings that do not begin with a valid message. -/
theorem Code.decode_none_iff (bs : List β) :
    C.decode bs = none ↔ ∀ a rest, C.Valid a → bs ≠ C.encode a ++ rest := by
  constructor
  · rintro h a rest hv rfl
    rw [C.decode_encode a rest hv] at h
    cases h
  · intro h
    cases hd : C.decode bs with
    | none => rfl
    | some p =>
      obtain ⟨a, rest⟩ := p
      obtain ⟨hv, hbs⟩ := C.decode_sound _ _ _ hd
      exact absurd hbs (h a rest hv)

/-- Decode messages off the front for as long as there is one. -/
def decodeAll (bs : List β) : List α × List β :=
  match _h : C.decode bs with
  | none => ([], bs)
  | some (a, rest) => (a :: (decodeAll rest).1, (decodeAll rest).2)
termination_by bs.length
decreasing_by all_goals exact C.decode_shorter _h

theorem decodeAll_of_none {bs : List β} (h : C.decode bs = none) :
    decodeAll C bs = ([], bs) := by
  rw [decodeAll]
  split
  · rfl
  · rename_i h'
    rw [h] at h'
    cases h'

theorem decodeAll_of_some {bs rest : List β} {a : α} (h : C.decode bs = some (a, rest)) :
    decodeAll C bs = (a :: (decodeAll C rest).1, (decodeAll C rest).2) := by
  rw [decodeAll]
  split
  · rename_i h'
    rw [h] at h'
    cases h'
  · rename_i h'
    rw [h] at h'
    cases h'
    rfl

/-- The encodings of several messages, one after the other. -/
def encodeAll (as : List α) : List β := as.flatMap C.encode

@[simp] theorem encodeAll_cons (a : α) (as : List α) :
    encodeAll C (a :: as) = C.encode a ++ encodeAll C as := rfl

/-- `bs` is the encoding of the valid messages `as` and then `rest`, where no message begins. -/
structure Decomposes (bs : List β) (as : List α) (rest : List β) : Prop where
  valid : ∀ a ∈ as, C.Valid a
  eq : bs = encodeAll C as ++ rest
  stop : C.decode rest = none

theorem decodeAll_decomposes (bs : List β) :
    Decomposes C bs (decodeAll C bs).1 (decodeAll C bs).2 := by
  induction bs using decodeAll.induct (C := C) with
  | case1 bs h =>
    rw [decodeAll_of_none C h]
    exact ⟨by simp, rfl, h⟩
  | case2 bs a rest h ih =>
    rw [decodeAll_of_some C h]
    obtain ⟨hv, hbs⟩ := C.decode_sound _ _ _ h
    refine ⟨?_, ?_, ih.stop⟩
    · intro b hb
      rcases List.mem_cons.mp hb with rfl | hb
      · exact hv
      · exact ih.valid b hb
    · rw [encodeAll_cons, List.append_assoc, ← ih.eq]
      exact hbs

theorem decodeAll_encodeAll {as : List α} (hv : ∀ a ∈ as, C.Valid a) (rest : List β) :
    decodeAll C (encodeAll C as ++ rest) = (as ++ (decodeAll C rest).1, (decodeAll C rest).2) := by
  induction as with
  | nil => rfl
  | cons a as ih =>
    have hd := C.decode_encode a (encodeAll C as ++ rest) (hv a (by simp))
    rw [encodeAll_cons, List.append_assoc, decodeAll_of_some C hd,
      ih fun b hb => hv b (by simp [hb])]
    rfl

theorem Decomposes.eq_decodeAll {bs rest : List β} {as : List α} (h : Decomposes C bs as rest) :
    decodeAll C bs = (as, rest) := by
  rw [h.eq, decodeAll_encodeAll C h.valid, decodeAll_of_none C h.stop, List.append_nil]

/-- **A stream has exactly one decomposition.** -/
theorem decomposes_unique {bs rest rest' : List β} {as as' : List α}
    (h : Decomposes C bs as rest) (h' : Decomposes C bs as' rest') :
    as = as' ∧ rest = rest' := by
  have := h.eq_decodeAll.symm.trans h'.eq_decodeAll
  cases this
  exact ⟨rfl, rfl⟩

/-- **Different lists of valid messages have different encodings.** -/
theorem encodeAll_injective {as as' : List α} (hv : ∀ a ∈ as, C.Valid a)
    (hv' : ∀ a ∈ as', C.Valid a) (h : encodeAll C as = encodeAll C as') : as = as' := by
  have hnil : C.decode [] = none := (C.decode_none_iff []).mpr fun a rest hva hbs =>
    C.encode_ne_nil a hva (List.append_eq_nil_iff.mp hbs.symm).1
  have hd : ∀ {bs : List α}, (∀ a ∈ bs, C.Valid a) →
      Decomposes C (encodeAll C bs) bs [] := fun hb => ⟨hb, (List.append_nil _).symm, hnil⟩
  exact (decomposes_unique C (hd hv) (h ▸ hd hv')).1

end Framing
