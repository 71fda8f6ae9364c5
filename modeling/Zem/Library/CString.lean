import Mathlib.Data.List.GetD
import Mathlib.Data.List.TakeWhile
import Mathlib.Tactic.Ring

/-!
# C strings and `strtoul`

* `CString` — a string of the C library: bytes none of which is the terminating null; `charAt`
  reads the null behind them as well.
* `isSpace`, `isDigit` — `isspace` and `isdigit` of the C locale.
* `strtoul` — the function of the C library in base 10, for an `unsigned long` of 64 bits.
* `Numeral` — the decimal numerals in the form that `strtoul` takes, with the integer they denote.
* `strtoul_of_numeral`, `strtoul_whole_iff` — `strtoul` takes a whole string exactly if it is a
  numeral, and what its value then is.
* `wrap_cases` — that value, where the integer fits 64 bits and where it does not.
-/

set_option autoImplicit false

/-- A string that ends at its first null. -/
structure CString where
  bytes : List UInt8
  no_null : ∀ b ∈ bytes, b ≠ 0
  deriving DecidableEq, Repr

namespace CString

/-- `p[i]`, for `i` up to the terminating null. -/
def charAt (s : CString) (i : Nat) : UInt8 := s.bytes.getD i 0

/-- What a function of the C library sees of a text: nothing behind the first null. -/
def ofText (text : List UInt8) : CString :=
  ⟨text.takeWhile (· != 0), fun b hb => by
    have := List.mem_takeWhile_imp hb
    simpa using this⟩

theorem ofText_start (text : List UInt8) : (ofText text).bytes <+: text :=
  List.takeWhile_prefix _

theorem ofText_of_ne_null {text : List UInt8} (h : ∀ b ∈ text, b ≠ 0) :
    (ofText text).bytes = text :=
  List.takeWhile_eq_self_iff.mpr fun b hb => by simpa using h b hb

theorem charAt_eq_null_iff (s : CString) (i : Nat) : s.charAt i = 0 ↔ s.bytes.length ≤ i := by
  unfold charAt
  constructor
  · intro h
    by_contra hlt
    rw [Nat.not_le] at hlt
    rw [List.getD_eq_getElem _ _ hlt] at h
    exact s.no_null _ (List.getElem_mem hlt) h
  · exact List.getD_eq_default _ _

/-- The bytes of an ASCII literal. -/
def ascii (literal : String) : List UInt8 := literal.toList.map fun c => UInt8.ofNat c.toNat

/-- `isspace`: the blank, and the controls from tab to carriage return. -/
def isSpace (b : UInt8) : Bool := b == 32 || (9 ≤ b && b ≤ 13)

/-- `isdigit`. -/
def isDigit (b : UInt8) : Bool := 48 ≤ b && b ≤ 57

/-- The number that digits denote. -/
def ofDigits (ds : List UInt8) : Nat := ds.foldl (fun v d => v * 10 + (d.toNat - 48)) 0

/-! ## Numerals -/

inductive Sign where
  | none
  | plus
  | minus
  deriving DecidableEq, Repr

namespace Sign

def bytes : Sign → List UInt8
  | none => []
  | plus => [43]
  | minus => [45]

def apply : Sign → Nat → Int
  | none, v => v
  | plus, v => v
  | minus, v => -v

end Sign

/-- White space, a sign, and digits; `n` is the integer denoted. -/
def Numeral (s : List UInt8) (n : Int) : Prop :=
  ∃ blanks sign ds, s = blanks ++ (Sign.bytes sign ++ ds) ∧ (∀ b ∈ blanks, isSpace b = true) ∧
    ds ≠ [] ∧ (∀ d ∈ ds, isDigit d = true) ∧ n = sign.apply (ofDigits ds)

/-! ## `strtoul` -/

/-- `ULONG_MAX`. -/
def ulongMax : Nat := 2 ^ 64 - 1

/-- The optional sign in front of the digits, and what is behind it. -/
def readSign : List UInt8 → Sign × List UInt8
  | 43 :: s => (.plus, s)
  | 45 :: s => (.minus, s)
  | s => (.none, s)

/-- The value of a sign and digits: a number past `ULONG_MAX` is replaced by it, and a minus sign
    negates modulo `2 ^ 64`. -/
def signedValue (sign : Sign) (v : Nat) : UInt64 :=
  if v > ulongMax then UInt64.ofNat ulongMax
  else
    match sign with
    | .minus => - UInt64.ofNat v
    | .none | .plus => UInt64.ofNat v

/-- `strtoul(s, &end, 10)`: the value, and how far `end` is from `s`.  Without a digit there is no
    conversion, and `end` is `s`. -/
def strtoul (s : List UInt8) : UInt64 × Nat :=
  let blanks := s.takeWhile isSpace
  let (sign, rest) := readSign (s.dropWhile isSpace)
  let ds := rest.takeWhile isDigit
  if ds = [] then (0, 0)
  else (signedValue sign (ofDigits ds), blanks.length + sign.bytes.length + ds.length)

/-- The value of `strtoul` for a numeral that denotes `n`. -/
def wrap (n : Int) : UInt64 :=
  if n.natAbs > ulongMax then UInt64.ofNat ulongMax else UInt64.ofInt n

theorem isSpace_of_isDigit {b : UInt8} (h : isDigit b = true) : isSpace b = false := by
  simp only [isDigit, Bool.and_eq_true, decide_eq_true_eq, UInt8.le_iff_toNat_le] at h
  simp only [isSpace, Bool.or_eq_false_iff, beq_eq_false_iff_ne, ne_eq, Bool.and_eq_false_iff,
    decide_eq_false_iff_not, UInt8.le_iff_toNat_le, ← UInt8.toNat_inj]
  simp only [UInt8.reduceToNat] at h ⊢
  omega

theorem readSign_append (sign : Sign) {ds : List UInt8} (hne : ds ≠ [])
    (hds : ∀ d ∈ ds, isDigit d = true) : readSign (sign.bytes ++ ds) = (sign, ds) := by
  cases sign with
  | plus => rfl
  | minus => rfl
  | none =>
    obtain ⟨d, ds, rfl⟩ := List.exists_cons_of_ne_nil hne
    have hd := hds d (by simp)
    simp only [Sign.bytes, List.nil_append]
    unfold readSign
    split
    · rename_i heq
      cases heq
      cases hd
    · rename_i heq
      cases heq
      cases hd
    · rfl

theorem readSign_eq {s rest : List UInt8} {sign : Sign} (h : readSign s = (sign, rest)) :
    s = sign.bytes ++ rest := by
  unfold readSign at h
  split at h
  · cases h
    rfl
  · cases h
    rfl
  · cases h
    rfl

/-- A sign or a digit is behind the white space of a numeral. -/
theorem head_not_space (sign : Sign) {ds : List UInt8} (hne : ds ≠ [])
    (hds : ∀ d ∈ ds, isDigit d = true) :
    (sign.bytes ++ ds).takeWhile isSpace = [] ∧
      (sign.bytes ++ ds).dropWhile isSpace = sign.bytes ++ ds := by
  obtain ⟨d, ds, rfl⟩ := List.exists_cons_of_ne_nil hne
  have hd := isSpace_of_isDigit (hds d (by simp))
  cases sign with
  | none => simp [Sign.bytes, hd]
  | plus => exact ⟨rfl, rfl⟩
  | minus => exact ⟨rfl, rfl⟩

theorem signedValue_eq (sign : Sign) (v : Nat) : signedValue sign v = wrap (sign.apply v) := by
  have habs : (sign.apply v).natAbs = v := by cases sign <;> simp [Sign.apply]
  rw [signedValue.eq_def, wrap, habs]
  split
  · rfl
  · rename_i hle
    have hcast : UInt64.ofInt v = UInt64.ofNat v := by
      unfold UInt64.ofInt ulongMax at *
      congr 1
      omega
    cases sign with
    | none => exact hcast.symm
    | plus => exact hcast.symm
    | minus => rw [Sign.apply, UInt64.ofInt_neg, hcast]

/-- A numeral denotes one integer. -/
theorem numeral_unique {s : List UInt8} {n m : Int} (h : Numeral s n) (h' : Numeral s m) :
    n = m := by
  have hvalue : ∀ {n : Int}, Numeral s n →
      n = (readSign (s.dropWhile isSpace)).1.apply
        (ofDigits (readSign (s.dropWhile isSpace)).2) := by
    rintro n ⟨blanks, sign, ds, rfl, hblanks, hne, hds, rfl⟩
    rw [List.dropWhile_append_of_pos hblanks, (head_not_space sign hne hds).2,
      readSign_append sign hne hds]
  rw [hvalue h, hvalue h']

/-- **`strtoul` of a numeral** goes to its end. -/
theorem strtoul_of_numeral {s : List UInt8} {n : Int} (h : Numeral s n) :
    strtoul s = (wrap n, s.length) := by
  obtain ⟨blanks, sign, ds, rfl, hblanks, hne, hds, rfl⟩ := h
  obtain ⟨htake, hdrop⟩ := head_not_space sign hne hds
  have hrest : ds.takeWhile isDigit = ds := List.takeWhile_eq_self_iff.mpr hds
  simp only [strtoul, List.takeWhile_append_of_pos hblanks, List.dropWhile_append_of_pos hblanks,
    htake, hdrop, readSign_append sign hne hds, hrest, if_neg hne, signedValue_eq,
    List.append_nil, List.length_append, Nat.add_assoc]

/-- **`strtoul` takes the whole string** exactly if it is a numeral. -/
theorem strtoul_whole_iff (s : List UInt8) :
    (strtoul s).2 ≠ 0 ∧ s.length ≤ (strtoul s).2 ↔ ∃ n, Numeral s n := by
  constructor
  · rintro ⟨hconv, hend⟩
    rcases hsign : readSign (s.dropWhile isSpace) with ⟨sign, rest⟩
    simp only [strtoul, hsign] at hconv hend
    split at hconv
    · exact absurd rfl hconv
    rename_i hne
    rw [if_neg hne] at hend
    have hs : s = s.takeWhile isSpace ++ (sign.bytes ++ rest) := by
      rw [← readSign_eq hsign, List.takeWhile_append_dropWhile]
    have hlen := congrArg List.length hs
    have hrest : rest.takeWhile isDigit = rest := by
      apply (List.takeWhile_prefix isDigit).eq_of_length_le
      simp only [List.length_append] at hlen
      simp only at hend
      omega
    refine ⟨_, s.takeWhile isSpace, sign, rest, hs, fun b => List.mem_takeWhile_imp,
      hrest ▸ hne, List.takeWhile_eq_self_iff.mp hrest, rfl⟩
  · rintro ⟨n, hn⟩
    have heq := strtoul_of_numeral hn
    obtain ⟨blanks, sign, ds, rfl, _, hne, _, _⟩ := hn
    have hpos := List.length_pos_iff.mpr hne
    rw [heq]
    simp only [List.length_append]
    omega

/-! ## The value of a numeral -/

theorem wrap_fits {n : Int} (h0 : 0 ≤ n) (hlt : n < 2 ^ 64) : ((wrap n).toNat : Int) = n := by
  have habs : ¬ n.natAbs > ulongMax := by
    unfold ulongMax
    omega
  rw [wrap, if_neg habs, UInt64.ofInt, UInt64.toNat_ofNat']
  omega

theorem wrap_negative {n : Int} (h0 : n < 0) (hlt : -2 ^ 64 < n) :
    ((wrap n).toNat : Int) = n + 2 ^ 64 := by
  have habs : ¬ n.natAbs > ulongMax := by
    unfold ulongMax
    omega
  rw [wrap, if_neg habs, UInt64.ofInt, UInt64.toNat_ofNat']
  omega

theorem wrap_overflow {n : Int} (h : n ≤ -2 ^ 64 ∨ 2 ^ 64 ≤ n) :
    ((wrap n).toNat : Int) = 2 ^ 64 - 1 := by
  have habs : n.natAbs > ulongMax := by
    unfold ulongMax
    omega
  rw [wrap, if_pos habs, UInt64.toNat_ofNat']
  rfl

/-- What becomes of an integer: it fits, or is negated into the range, or is past it. -/
theorem wrap_cases (n : Int) :
    (0 ≤ n ∧ n < 2 ^ 64) ∧ ((wrap n).toNat : Int) = n ∨
    (-2 ^ 64 < n ∧ n < 0) ∧ ((wrap n).toNat : Int) = n + 2 ^ 64 ∨
    (n ≤ -2 ^ 64 ∨ 2 ^ 64 ≤ n) ∧ ((wrap n).toNat : Int) = 2 ^ 64 - 1 := by
  by_cases hfits : 0 ≤ n ∧ n < 2 ^ 64
  · exact Or.inl ⟨hfits, wrap_fits hfits.1 hfits.2⟩
  by_cases hneg : -2 ^ 64 < n ∧ n < 0
  · exact Or.inr (Or.inl ⟨hneg, wrap_negative hneg.2 hneg.1⟩)
  · have hout : n ≤ -2 ^ 64 ∨ 2 ^ 64 ≤ n := by omega
    exact Or.inr (Or.inr ⟨hout, wrap_overflow hout⟩)

end CString
