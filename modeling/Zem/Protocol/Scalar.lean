import Mathlib.Tactic.Ring
import Zem.Protocol.Header

/-!
# ByteCodec: scalar types and their bits

Reference model of `ToUnsignedBits` and `FromUnsignedBits` of `Protocol/Common/ByteCodec.hpp`.

* `IntType` — an integer type of 1, 2, 4 or 8 bytes; `IntType.Value` — its values, with the range
  as a field.
* `ScalarType` — the types `Read` and `Write` accept: integers, floating types by their bits, and
  enums by their underlying value.
* `fromBits_toBits`, `toBits_fromBits` — the conversions are inverse to each other.
-/

set_option autoImplicit false

namespace Zem.ByteCodec

/-- `sizeof` of a scalar type. -/
inductive ByteWidth where
  | one
  | two
  | four
  | eight
  deriving DecidableEq, Repr

def ByteWidth.size : ByteWidth → Nat
  | one => 1
  | two => 2
  | four => 4
  | eight => 8

/-- `UnsignedBySizeT`. -/
abbrev ByteWidth.Bits (w : ByteWidth) : Type := BitVec (8 * w.size)

theorem ByteWidth.size_pos (w : ByteWidth) : 0 < w.size := by cases w <;> decide

theorem ByteWidth.size_le (w : ByteWidth) : w.size ≤ 8 := by cases w <;> decide

theorem ByteWidth.two_pow (w : ByteWidth) : 2 ^ (8 * w.size) = 256 ^ w.size := by
  rw [pow_mul, show (2 : Nat) ^ 8 = 256 from rfl]

/-- An unsigned value of the type fits `std::size_t`. -/
theorem ByteWidth.bits_lt (w : ByteWidth) (v : w.Bits) : v.toNat < 2 ^ 64 := by
  have hle : 2 ^ (8 * w.size) ≤ 2 ^ 64 := Nat.pow_le_pow_right (by decide) (by
    have := w.size_le
    omega)
  exact Nat.lt_of_lt_of_le v.isLt hle

/-! ## Integers -/

/-- An `IntegerLike` type. -/
structure IntType where
  width : ByteWidth
  signed : Bool
  deriving DecidableEq, Repr

namespace IntType

def minValue (t : IntType) : Int := if t.signed then -2 ^ (8 * t.width.size - 1) else 0

def maxValue (t : IntType) : Int :=
  if t.signed then 2 ^ (8 * t.width.size - 1) - 1 else 2 ^ (8 * t.width.size) - 1

/-- The values of the type. -/
def Value (t : IntType) : Type := { v : Int // t.minValue ≤ v ∧ v ≤ t.maxValue }

instance (t : IntType) : DecidableEq t.Value :=
  inferInstanceAs (DecidableEq { v : Int // t.minValue ≤ v ∧ v ≤ t.maxValue })

theorem range_unsigned (w : ByteWidth) (v : Int) :
    (minValue ⟨w, false⟩ ≤ v ∧ v ≤ maxValue ⟨w, false⟩) ↔
      0 ≤ v ∧ v < ((2 ^ (8 * w.size) : Nat) : Int) := by
  simp only [minValue, maxValue, Bool.false_eq_true, if_false]
  rw [show ((2 : Int) ^ (8 * w.size)) = ((2 ^ (8 * w.size) : Nat) : Int) by norm_cast]
  omega

theorem range_signed (w : ByteWidth) (v : Int) :
    (minValue ⟨w, true⟩ ≤ v ∧ v ≤ maxValue ⟨w, true⟩) ↔
      -2 ^ (8 * w.size - 1) ≤ v ∧ v < 2 ^ (8 * w.size - 1) := by
  simp only [minValue, maxValue, if_true]
  omega

/-- `ToUnsignedBits`: a signed value is bit-cast, in two's complement. -/
def toUnsignedBits : (t : IntType) → t.Value → t.width.Bits
  | ⟨_, false⟩, v => BitVec.ofNat _ v.val.toNat
  | ⟨_, true⟩, v => BitVec.ofInt _ v.val

/-- `FromUnsignedBits`. -/
def fromUnsignedBits : (t : IntType) → t.width.Bits → t.Value
  | ⟨w, false⟩, raw =>
    ⟨(raw.toNat : Int), (range_unsigned w _).mpr ⟨Int.natCast_nonneg _, by exact_mod_cast raw.isLt⟩⟩
  | ⟨w, true⟩, raw => ⟨raw.toInt, (range_signed w _).mpr ⟨raw.le_toInt, raw.toInt_lt⟩⟩

theorem fromUnsignedBits_toUnsignedBits :
    ∀ (t : IntType) (v : t.Value), t.fromUnsignedBits (t.toUnsignedBits v) = v
  | ⟨w, false⟩, ⟨v, hv⟩ => by
    apply Subtype.ext
    obtain ⟨hmin, hlt⟩ := (range_unsigned w v).mp hv
    simp only [fromUnsignedBits, toUnsignedBits, BitVec.toNat_ofNat]
    rw [Nat.mod_eq_of_lt (by omega), Int.toNat_of_nonneg hmin]
  | ⟨w, true⟩, ⟨v, hv⟩ => by
    apply Subtype.ext
    obtain ⟨hmin, hlt⟩ := (range_signed w v).mp hv
    have hpos : 0 < 8 * w.size := Nat.mul_pos (by decide) w.size_pos
    exact BitVec.toInt_ofInt_eq_self hpos hmin hlt

theorem toUnsignedBits_fromUnsignedBits :
    ∀ (t : IntType) (raw : t.width.Bits), t.toUnsignedBits (t.fromUnsignedBits raw) = raw
  | ⟨_, false⟩, raw => by simp [fromUnsignedBits, toUnsignedBits]
  | ⟨_, true⟩, raw => by simp [fromUnsignedBits, toUnsignedBits]

end IntType

/-! ## Scalars -/

/-- A value of an enum, given by its underlying value. -/
structure EnumValue (t : IntType) where
  underlying : t.Value
  deriving DecidableEq

/-- A value of a floating type, given by its bits. -/
structure FloatValue (w : ByteWidth) where
  bits : w.Bits
  deriving DecidableEq

/-- The types of `Read` and `Write`. -/
inductive ScalarType where
  | int (t : IntType)
  | floating (w : ByteWidth)
  | enum (underlying : IntType)
  deriving DecidableEq, Repr

namespace ScalarType

def width : ScalarType → ByteWidth
  | int t => t.width
  | floating w => w
  | enum t => t.width

def Value : ScalarType → Type
  | int t => t.Value
  | floating w => FloatValue w
  | enum t => EnumValue t

/-- What the overloads of `WritePayload` pass to `WriteUnsigned`. -/
def toBits : (t : ScalarType) → t.Value → t.width.Bits
  | int t, v => t.toUnsignedBits v
  | floating _, v => v.bits
  | enum t, v => t.toUnsignedBits v.underlying

/-- What the overloads of `ReadPayload` make of the raw value. -/
def fromBits : (t : ScalarType) → t.width.Bits → t.Value
  | int t, raw => t.fromUnsignedBits raw
  | floating _, raw => FloatValue.mk raw
  | enum t, raw => EnumValue.mk (t.fromUnsignedBits raw)

theorem fromBits_toBits : ∀ (t : ScalarType) (v : t.Value), t.fromBits (t.toBits v) = v
  | int t, v => t.fromUnsignedBits_toUnsignedBits v
  | floating _, _ => rfl
  | enum t, v => congrArg EnumValue.mk (t.fromUnsignedBits_toUnsignedBits v.underlying)

theorem toBits_fromBits : ∀ (t : ScalarType) (raw : t.width.Bits), t.toBits (t.fromBits raw) = raw
  | int t, raw => t.toUnsignedBits_fromUnsignedBits raw
  | floating _, _ => rfl
  | enum t, raw => t.toUnsignedBits_fromUnsignedBits raw

end ScalarType

end Zem.ByteCodec
