import Mathlib.Data.List.Induction
import Mathlib.Data.Nat.Bitwise
import Mathlib.Tactic.Ring

/-!
# Big-endian byte strings of a fixed width

* `toBytes w n` — the `w` bytes of `n`, most significant first; higher bits are dropped.
* `ofBytes bs` — the number a byte string denotes.
* `ofBytes_toBytes`, `toBytes_ofBytes` — the two round trips.
* `toBytes_eq_range`, `ofBytes_eq_foldl_or` — the shift-and-mask loops that write and read such
  fields compute these functions.
-/

set_option autoImplicit false

namespace BigEndian

/-- The `w` big-endian bytes of `n`. -/
def toBytes : Nat → Nat → List UInt8
  | 0, _ => []
  | w + 1, n => toBytes w (n / 256) ++ [UInt8.ofNat n]

/-- The number denoted by big-endian bytes. -/
def ofBytes (bs : List UInt8) : Nat := bs.foldl (fun v b => v * 256 + b.toNat) 0

@[simp] theorem length_toBytes (w n : Nat) : (toBytes w n).length = w := by
  induction w generalizing n with
  | zero => rfl
  | succ w ih => simp [toBytes, ih]

@[simp] theorem ofBytes_nil : ofBytes [] = 0 := rfl

theorem ofBytes_concat (bs : List UInt8) (b : UInt8) :
    ofBytes (bs ++ [b]) = ofBytes bs * 256 + b.toNat := by
  simp [ofBytes, List.foldl_append]

theorem ofBytes_toBytes (w n : Nat) : ofBytes (toBytes w n) = n % 256 ^ w := by
  induction w generalizing n with
  | zero => simp [toBytes, Nat.mod_one]
  | succ w ih =>
    have hlow : (UInt8.ofNat n).toNat = n % 256 := UInt8.toNat_ofNat'
    rw [toBytes, ofBytes_concat, ih, hlow, pow_succ', Nat.mod_mul]
    ring

theorem ofBytes_toBytes_of_lt {w n : Nat} (h : n < 256 ^ w) : ofBytes (toBytes w n) = n := by
  rw [ofBytes_toBytes, Nat.mod_eq_of_lt h]

theorem toBytes_ofBytes (bs : List UInt8) : toBytes bs.length (ofBytes bs) = bs := by
  induction bs using List.reverseRecOn with
  | nil => rfl
  | append_singleton bs b ih =>
    have hb : b.toNat < 256 := b.toNat_lt
    have hdiv : (ofBytes bs * 256 + b.toNat) / 256 = ofBytes bs := by omega
    have hlow : UInt8.ofNat (ofBytes bs * 256 + b.toNat) = b := by
      apply UInt8.toNat_inj.mp
      rw [UInt8.toNat_ofNat']
      omega
    rw [List.length_append, List.length_singleton, toBytes, ofBytes_concat, hdiv, ih, hlow]

theorem toBytes_ofBytes_of_length {bs : List UInt8} {w : Nat} (h : bs.length = w) :
    toBytes w (ofBytes bs) = bs := by
  subst h
  exact toBytes_ofBytes bs

theorem ofBytes_lt (bs : List UInt8) : ofBytes bs < 256 ^ bs.length := by
  induction bs using List.reverseRecOn with
  | nil => simp
  | append_singleton bs b ih =>
    have hb : b.toNat < 256 := b.toNat_lt
    rw [ofBytes_concat, List.length_append, List.length_singleton, pow_succ]
    omega

/-! ## The loops that write and read the fields -/

/-- Writing byte `i` as `(n >> (w - 1 - i) * 8) & 0xFF`, for `i = 0 … w - 1`. -/
theorem toBytes_eq_range (w n : Nat) :
    toBytes w n = (List.range w).map fun i => UInt8.ofNat (n >>> ((w - 1 - i) * 8) &&& 0xFF) := by
  have hlow : ∀ m : Nat, UInt8.ofNat (m &&& 0xFF) = UInt8.ofNat m := by
    intro m
    apply UInt8.toNat_inj.mp
    rw [UInt8.toNat_ofNat', UInt8.toNat_ofNat', show (0xFF : Nat) = 2 ^ 8 - 1 from rfl,
      Nat.and_two_pow_sub_one_eq_mod, Nat.mod_mod]
  induction w generalizing n with
  | zero => rfl
  | succ w ih =>
    rw [toBytes, ih, List.range_succ, List.map_append, List.map_singleton]
    congr 1
    · apply List.map_congr_left
      intro i hi
      have hi : i < w := List.mem_range.mp hi
      have hshift : (w + 1 - 1 - i) * 8 = 8 + (w - 1 - i) * 8 := by omega
      rw [hshift, Nat.shiftRight_add, Nat.shiftRight_eq_div_pow n 8]
    · simp [hlow]

/-- Reading `bs` by `value = (value << 8) | byte` in a `w`-byte register that is wide enough. -/
theorem ofBytes_eq_foldl_or {w : Nat} {bs : List UInt8} (h : bs.length ≤ w) :
    bs.foldl (fun v b => (v <<< 8 ||| b.toNat) % 2 ^ (8 * w)) 0 = ofBytes bs := by
  induction bs using List.reverseRecOn with
  | nil => rfl
  | append_singleton bs b ih =>
    rw [List.length_append, List.length_singleton] at h
    have hlt := ofBytes_lt (bs ++ [b])
    rw [List.length_append, List.length_singleton] at hlt
    have hreg : (256 : Nat) ^ (bs.length + 1) ≤ 2 ^ (8 * w) := by
      rw [pow_mul, show (2 : Nat) ^ 8 = 256 from rfl]
      exact Nat.pow_le_pow_right (by omega) h
    rw [List.foldl_append, ih (by omega), List.foldl_cons, List.foldl_nil,
      ← Nat.shiftLeft_add_eq_or_of_lt b.toNat_lt, Nat.shiftLeft_eq, ofBytes_concat]
    rw [ofBytes_concat] at hlt
    exact Nat.mod_eq_of_lt (by omega)

end BigEndian
