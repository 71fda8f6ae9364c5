import Zem.Library.Runs
import Zem.Protocol.ByteCodec
import Zem.Protocol.Scalar

/-!
# ByteCodec::Reader over std::size_t

`ByteCodec.Reader` has offsets without a bound and payload bytes with a default.  Here the reader
of `Protocol/Common/ByteCodec.hpp` is given once more as the machine runs it: sums and differences
of `std::size_t` wrap, an access outside of the payload has no result, and the caller's `out`
variable is an argument and a result of each call.

* `Buffer` — the bytes of an object; `View` — a range of the payload.
* `LengthType` — the length types of a length-prefixed field, with `bool`.
* `SpanReader` — the reader, its private functions with the four overloads of
  `ReadLenPrefixedPayload`, and `Read` and `ReadLenPrefixed`.
* `ReadCall` — a call of any type; `run_eq` — its outcome, in natural numbers.
* `readUnsigned_refines`, `readLenPrefixed_refines` — inside the payload the reader of
  `ByteCodec` takes the same steps.
* `reader_in_bounds` — what any sequence of calls does.
* `failed_read_atomic_iff` — when a call that fails leaves no trace.
-/

set_option autoImplicit false

namespace Zem.ByteCodec

/-! ## Bytes in memory -/

/-- `std::numeric_limits<std::ptrdiff_t>::max()`, which no object exceeds in size. -/
def ptrdiffMax : Nat := 2 ^ 63 - 1

/-- `static_cast<std::ptrdiff_t>` of a `std::size_t`. -/
def ptrdiff (n : Nat) : Int := if n ≤ ptrdiffMax then n else n - 2 ^ 64

/-- `static_cast<std::size_t>` of an unsigned value. -/
def sizeCast (n : Nat) : Nat := n % 2 ^ 64

/-- The bytes of an object: the payload of a reader, a vector or a string. -/
@[ext]
structure Buffer where
  bytes : Bytes
  size_le : bytes.length ≤ ptrdiffMax
  deriving DecidableEq, Repr

/-- A range of the payload: what a span or a string view refers to. -/
structure View where
  start : Nat
  length : Nat
  deriving DecidableEq, Repr

namespace Buffer

def empty : Buffer := ⟨[], Nat.zero_le _⟩

def size (b : Buffer) : Nat := b.bytes.length

/-- A copy of a part of the bytes. -/
def slice (b : Buffer) (start length : Nat) : Buffer :=
  ⟨(b.bytes.drop start).take length,
    Nat.le_trans (List.length_take_le' _ _) (Nat.le_trans (by simp) b.size_le)⟩

/-- `subspan`. -/
def subspan (b : Buffer) (offset count : Nat) : Option View :=
  if offset ≤ b.size ∧ count ≤ b.size - offset then some ⟨offset, count⟩ else none

/-- `std::string_view(data() + offset, length)`. -/
def stringView (b : Buffer) (offset length : Nat) : Option View :=
  if offset + length ≤ b.size then some ⟨offset, length⟩ else none

/-- `assign` from the iterators `begin() + first` and `begin() + last`. -/
def assign (b : Buffer) (first last : Int) : Option Buffer :=
  if 0 ≤ first ∧ first ≤ last ∧ last ≤ b.size then
    some (b.slice first.toNat (last - first).toNat)
  else none

end Buffer

/-- The containers of the overloads of `ReadLenPrefixedPayload`. -/
inductive Container where
  | span
  | vector
  | stringView
  | string
  deriving DecidableEq, Repr

/-- The type of the `out` variable: a span and a string view refer to the payload, a vector and a
    string hold a copy. -/
abbrev Container.Out : Container → Type
  | span | stringView => View
  | vector | string => Buffer

/-! ## Length types -/

/-- A length type of `ReadLenPrefixed` and `WriteLenPrefixed`: every type that
    `std::unsigned_integral` accepts, `bool` included. -/
inductive LengthType where
  | bool
  | unsigned (w : ByteWidth)
  deriving DecidableEq, Repr

namespace LengthType

/-- `sizeof(LengthType)`. -/
def size : LengthType → Nat
  | bool => 1
  | unsigned w => w.size

/-- `std::numeric_limits<LengthType>::max()`. -/
def max : LengthType → Nat
  | bool => 1
  | unsigned w => maxUnsigned w.size

theorem size_pos (t : LengthType) : 0 < t.size := by
  cases t with
  | bool => exact Nat.one_pos
  | unsigned w => exact w.size_pos

theorem max_lt (t : LengthType) : t.max < 256 ^ t.size := by
  cases t with
  | bool => exact (by decide : 1 < 256 ^ 1)
  | unsigned w => exact Nat.sub_lt (Nat.pow_pos (by decide)) Nat.one_pos

end LengthType

/-! ## The reader -/

structure SpanReader where
  payload : Buffer
  offset : Nat
  deriving DecidableEq, Repr

/-- What a call returns and leaves: its result, the `out` variable and the reader. -/
structure ReadResult (α : Type) where
  ok : Bool
  out : α
  reader : SpanReader

namespace SpanReader

/-- The constructors. -/
def ofPayload (payload : Buffer) : SpanReader := ⟨payload, 0⟩

/-- `Empty`. -/
def empty (r : SpanReader) : Bool := r.offset == r.payload.size

/-- `Remaining`. -/
def remaining (r : SpanReader) : Nat := sizeSub r.payload.size r.offset

/-- `CanRead`. -/
def canRead (r : SpanReader) (length : Nat) : Bool :=
  decide (r.offset ≤ r.payload.size) && decide (sizeSub r.payload.size r.offset ≥ length)

/-- `m_payload[m_offset + i]`. -/
def byteAt (r : SpanReader) (i : Nat) : Option UInt8 := r.payload.bytes[sizeAdd r.offset i]?

/-- `m_offset += length`. -/
def skip (r : SpanReader) (length : Nat) : SpanReader :=
  { r with offset := sizeAdd r.offset length }

/-- The body of the loop of `ReadUnsigned`. -/
def shiftIn (w : ByteWidth) (value : w.Bits) (byte : UInt8) : w.Bits :=
  (value <<< 8) ||| BitVec.ofNat _ byte.toNat

/-- `ReadUnsigned`. -/
def readUnsigned (w : ByteWidth) (r : SpanReader) (out : w.Bits) : Option (ReadResult w.Bits) :=
  if !r.canRead w.size then some ⟨false, out, r⟩
  else do
    let value ← (List.range w.size).foldlM
      (fun value i => do
        let byte ← r.byteAt i
        some (shiftIn w value byte)) 0
    some ⟨true, value, r.skip w.size⟩

/-- `ReadPayload`: the overloads differ in the conversion of the raw value. -/
def readPayload (t : ScalarType) (r : SpanReader) (out : t.Value) :
    Option (ReadResult t.Value) := do
  let res ← r.readUnsigned t.width 0
  if !res.ok then some ⟨false, out, res.reader⟩
  else some ⟨true, t.fromBits res.out, res.reader⟩

/-- `Read`. -/
def read (t : ScalarType) (r : SpanReader) (out : t.Value) : Option (ReadResult t.Value) :=
  r.readPayload t out

/-- `ReadLenPrefixedPayload` to a span. -/
def readSpan (length : Nat) (r : SpanReader) (out : View) : Option (ReadResult View) :=
  if !r.canRead length then some ⟨false, out, r⟩
  else do
    let out ← r.payload.subspan r.offset length
    some ⟨true, out, r.skip length⟩

/-- `ReadLenPrefixedPayload` to a vector. -/
def readVector (length : Nat) (r : SpanReader) (out : Buffer) : Option (ReadResult Buffer) :=
  if !r.canRead length then some ⟨false, out, r⟩
  else do
    let out ← r.payload.assign (ptrdiff r.offset) (ptrdiff (sizeAdd r.offset length))
    some ⟨true, out, r.skip length⟩

/-- `ReadLenPrefixedPayload` to a string view. -/
def readStringView (length : Nat) (r : SpanReader) (out : View) : Option (ReadResult View) :=
  if !r.canRead length then some ⟨false, out, r⟩
  else do
    let out ← r.payload.stringView r.offset length
    some ⟨true, out, r.skip length⟩

/-- `ReadLenPrefixedPayload` to a string. -/
def readString (length : Nat) (r : SpanReader) (out : Buffer) : Option (ReadResult Buffer) :=
  if !r.canRead length then some ⟨false, out, r⟩
  else do
    let tmp ← r.payload.stringView r.offset length
    let r' := r.skip length
    some ⟨true, r.payload.slice tmp.start tmp.length, r'⟩

/-- The overloads of `ReadLenPrefixedPayload`. -/
def readLenPrefixedPayload (length : Nat) (r : SpanReader) :
    (c : Container) → c.Out → Option (ReadResult c.Out)
  | .span, out => r.readSpan length out
  | .vector, out => r.readVector length out
  | .stringView, out => r.readStringView length out
  | .string, out => r.readString length out

/-- `ReadUnsigned<bool>`: both casts to `bool` take every value but zero for `true`. -/
def readBool (r : SpanReader) (out : Bool) : Option (ReadResult Bool) :=
  if !r.canRead 1 then some ⟨false, out, r⟩
  else do
    let value ← (List.range 1).foldlM
      (fun value i => do
        let byte ← r.byteAt i
        some ((value.toNat <<< 8 ||| (byte.toNat != 0).toNat) != 0)) false
    some ⟨true, value, r.skip 1⟩

/-- `ReadLenPrefixed` with a length type of `w` bytes. -/
def readLenPrefixed (w : ByteWidth) (c : Container) (r : SpanReader) (out : c.Out) :
    Option (ReadResult c.Out) := do
  let res ← r.readUnsigned w 0
  if !res.ok then some ⟨false, out, res.reader⟩
  else res.reader.readLenPrefixedPayload (sizeCast res.out.toNat) c out

/-- `ReadLenPrefixed<bool>`. -/
def readLenPrefixedBool (c : Container) (r : SpanReader) (out : c.Out) :
    Option (ReadResult c.Out) := do
  let res ← r.readBool false
  if !res.ok then some ⟨false, out, res.reader⟩
  else res.reader.readLenPrefixedPayload (sizeCast res.out.toNat) c out

/-- `ReadLenPrefixed<LengthType>`. -/
def readLenPrefixedAs (lengthType : LengthType) (c : Container) (r : SpanReader) (out : c.Out) :
    Option (ReadResult c.Out) :=
  match lengthType with
  | .bool => r.readLenPrefixedBool c out
  | .unsigned w => r.readLenPrefixed w c out

end SpanReader

/-! ## Calls -/

/-- A call of `Read` or `ReadLenPrefixed`, with its template arguments. -/
inductive ReadCall where
  | read (t : ScalarType)
  | readLenPrefixed (lengthType : LengthType) (container : Container)
  deriving DecidableEq, Repr

/-- The type of the `out` variable. -/
abbrev ReadCall.Out : ReadCall → Type
  | read t => t.Value
  | readLenPrefixed _ c => c.Out

def ReadCall.run : (call : ReadCall) → SpanReader → call.Out → Option (ReadResult call.Out)
  | read t, r, out => r.read t out
  | readLenPrefixed t c, r, out => r.readLenPrefixedAs t c out

/-! ## What each function does -/

namespace SpanReader

variable {r : SpanReader}

/-- The reader further on in its payload. -/
def advance (r : SpanReader) (n : Nat) : SpanReader := { r with offset := r.offset + n }

/-- The next `n` bytes. -/
def field (r : SpanReader) (n : Nat) : Bytes := (r.payload.bytes.drop r.offset).take n

/-- The length that the next bytes encode, if the length type has `w` bytes. -/
def encodedLength (r : SpanReader) (w : ByteWidth) : Nat := BigEndian.ofBytes (r.field w.size)

theorem encodedLength_lt (r : SpanReader) (w : ByteWidth) : r.encodedLength w < 256 ^ w.size := by
  have hlen : (r.field w.size).length ≤ w.size := List.length_take_le _ _
  exact Nat.lt_of_lt_of_le (BigEndian.ofBytes_lt _) (Nat.pow_le_pow_right (by decide) hlen)

/-- The same for any length type: a `bool` is one byte, and no more than one. -/
def encodedLengthAs (r : SpanReader) : LengthType → Nat
  | .bool => (r.encodedLength .one != 0).toNat
  | .unsigned w => r.encodedLength w

theorem encodedLengthAs_le (r : SpanReader) (t : LengthType) : r.encodedLengthAs t ≤ t.max := by
  cases t with
  | bool => exact Bool.toNat_le _
  | unsigned w => exact Nat.le_sub_one_of_lt (r.encodedLength_lt w)

theorem payload_size_lt (r : SpanReader) : r.payload.size < 2 ^ 63 := by
  have h := r.payload.size_le
  unfold ptrdiffMax at h
  unfold Buffer.size
  omega

theorem canRead_iff (r : SpanReader) (length : Nat) :
    r.canRead length = true ↔ r.offset + length ≤ r.payload.size := by
  have hsize := r.payload_size_lt
  simp only [canRead, Bool.and_eq_true, decide_eq_true_eq]
  constructor
  · rintro ⟨hle, hge⟩
    rw [sizeSub_eq hle (by unfold sizeMax; omega)] at hge
    omega
  · intro h
    have hle : r.offset ≤ r.payload.size := by omega
    rw [sizeSub_eq hle (by unfold sizeMax; omega)]
    omega

theorem remaining_eq (h : r.offset ≤ r.payload.size) :
    r.remaining = r.payload.size - r.offset := by
  have hsize := r.payload_size_lt
  exact sizeSub_eq h (by unfold sizeMax; omega)

/-- The sum does not wrap where the bytes are there. -/
theorem skip_eq {n : Nat} (h : r.offset + n ≤ r.payload.size) : r.skip n = r.advance n := by
  have hsize := r.payload_size_lt
  rw [skip, advance, sizeAdd_eq (by unfold sizeMax; omega)]

theorem toNat_shiftIn (w : ByteWidth) (value : w.Bits) (byte : UInt8) :
    (shiftIn w value byte).toNat =
      (value.toNat <<< 8 ||| byte.toNat) % 2 ^ (8 * w.size) := by
  rw [shiftIn, BitVec.toNat_or, BitVec.toNat_shiftLeft, BitVec.toNat_ofNat, Nat.or_mod_two_pow]

theorem toNat_foldl_shiftIn (w : ByteWidth) (bs : Bytes) (value : w.Bits) :
    (bs.foldl (shiftIn w) value).toNat =
      bs.foldl (fun v b => (v <<< 8 ||| b.toNat) % 2 ^ (8 * w.size)) value.toNat := by
  induction bs generalizing value with
  | nil => rfl
  | cons b bs ih => rw [List.foldl_cons, ih, toNat_shiftIn, List.foldl_cons]

theorem byteAt_eq {n i : Nat} (h : r.offset + n ≤ r.payload.size) (hi : i < n) :
    r.byteAt i = some (r.payload.bytes.getD (r.offset + i) 0) := by
  have hsize := r.payload_size_lt
  have hin : r.offset + i < r.payload.bytes.length := by
    unfold Buffer.size at h
    omega
  rw [byteAt, sizeAdd_eq (by unfold sizeMax; omega), List.getElem?_eq_getElem hin]
  simp [List.getD_eq_getElem?_getD, List.getElem?_eq_getElem hin]

/-- The loop of `ReadUnsigned` stays in the payload. -/
theorem foldlM_shiftIn (w : ByteWidth) (idx : List Nat)
    (h : ∀ i ∈ idx, r.byteAt i = some (r.payload.bytes.getD (r.offset + i) 0)) (value : w.Bits) :
    idx.foldlM (fun value i => do
        let byte ← r.byteAt i
        some (shiftIn w value byte)) value =
      some ((idx.map fun i => r.payload.bytes.getD (r.offset + i) 0).foldl (shiftIn w) value) := by
  induction idx generalizing value with
  | nil => rfl
  | cons i idx ih =>
    rw [List.foldlM_cons, h i List.mem_cons_self]
    exact ih (fun j hj => h j (List.mem_cons_of_mem i hj)) _

/-- The reader of `ByteCodec` at the same place. -/
def toReader (r : SpanReader) : Reader := ⟨r.payload.bytes, r.offset⟩

/-- **`ReadUnsigned`** takes the next bytes as a number, or leaves everything as it is. -/
theorem readUnsigned_eq (w : ByteWidth) (r : SpanReader) (out : w.Bits) :
    r.readUnsigned w out =
      if r.offset + w.size ≤ r.payload.size then
        some ⟨true, BitVec.ofNat _ (r.encodedLength w), r.advance w.size⟩
      else some ⟨false, out, r⟩ := by
  unfold readUnsigned
  split
  · rename_i h
    rw [Bool.not_eq_true', ← Bool.not_eq_true, canRead_iff] at h
    rw [if_neg h]
  · rename_i h
    rw [Bool.not_eq_true', Bool.not_eq_false, canRead_iff] at h
    rw [if_pos h, foldlM_shiftIn w _ (fun i hi => byteAt_eq h (List.mem_range.mp hi)), skip_eq h]
    have hmap := r.toReader.map_getD_eq_take (w := w.size) h
    have hlen : (r.field w.size).length ≤ w.size := List.length_take_le _ _
    have hvalue : (r.field w.size).foldl (shiftIn w) 0 =
        BitVec.ofNat _ (r.encodedLength w) := by
      apply BitVec.eq_of_toNat_eq
      have hzero : (0 : w.Bits).toNat = 0 := by simp
      rw [toNat_foldl_shiftIn, hzero, BigEndian.ofBytes_eq_foldl_or hlen, BitVec.toNat_ofNat,
        w.two_pow, Nat.mod_eq_of_lt (r.encodedLength_lt w)]
      rfl
    rw [show (List.range w.size).map (fun i => r.payload.bytes.getD (r.offset + i) 0) =
      r.field w.size from hmap, hvalue]
    rfl

/-- **`ReadUnsigned<bool>`** takes the next byte for the truth value of its number. -/
theorem readBool_eq (r : SpanReader) (out : Bool) :
    r.readBool out =
      if r.offset + 1 ≤ r.payload.size then
        some ⟨true, r.encodedLength .one != 0, r.advance 1⟩
      else some ⟨false, out, r⟩ := by
  unfold readBool
  split
  · rename_i h
    rw [Bool.not_eq_true', ← Bool.not_eq_true, canRead_iff] at h
    rw [if_neg h]
  · rename_i h
    rw [Bool.not_eq_true', Bool.not_eq_false, canRead_iff] at h
    have hbyte : r.byteAt 0 = some (r.payload.bytes.getD r.offset 0) :=
      byteAt_eq h Nat.one_pos
    have hfield : r.field 1 = [r.payload.bytes.getD r.offset 0] :=
      (r.toReader.map_getD_eq_take (w := 1) h).symm
    have hlength : r.encodedLength .one = (r.payload.bytes.getD r.offset 0).toNat := by
      rw [encodedLength, show ByteWidth.one.size = 1 from rfl, hfield]
      simp [BigEndian.ofBytes]
    have hrange : List.range 1 = [0] := rfl
    rw [if_pos h, skip_eq h, hlength, hrange]
    simp only [List.foldlM_cons, List.foldlM_nil, hbyte, Option.bind_eq_bind, Option.bind_some,
      Option.pure_def]
    cases (r.payload.bytes.getD r.offset 0).toNat != 0 <;> rfl

theorem readPayload_eq (t : ScalarType) (r : SpanReader) (out : t.Value) :
    r.readPayload t out =
      if r.offset + t.width.size ≤ r.payload.size then
        some ⟨true, t.fromBits (BitVec.ofNat _ (r.encodedLength t.width)), r.advance t.width.size⟩
      else some ⟨false, out, r⟩ := by
  rw [readPayload, readUnsigned_eq]
  split
  · rfl
  · rfl

end SpanReader

/-- What the `out` variable refers to, or holds, after a read of a range of the payload. -/
def Container.range : (c : Container) → Buffer → Nat → Nat → c.Out
  | span, _, start, length | stringView, _, start, length => View.mk start length
  | vector, b, start, length | string, b, start, length => b.slice start length

namespace SpanReader

/-- The four overloads of `ReadLenPrefixedPayload` take the same range. -/
theorem readLenPrefixedPayload_eq (length : Nat) (r : SpanReader) (c : Container) (out : c.Out) :
    r.readLenPrefixedPayload length c out =
      if r.offset + length ≤ r.payload.size then
        some ⟨true, c.range r.payload r.offset length, r.advance length⟩
      else some ⟨false, out, r⟩ := by
  have hsize := r.payload_size_lt
  by_cases h : r.offset + length ≤ r.payload.size
  · have hread : r.canRead length = true := (r.canRead_iff length).mpr h
    have hsub : r.offset ≤ r.payload.size ∧ length ≤ r.payload.size - r.offset := by omega
    have hadd : sizeAdd r.offset length = r.offset + length :=
      sizeAdd_eq (by unfold sizeMax; omega)
    have hfirst : ptrdiff r.offset = r.offset := if_pos (by unfold ptrdiffMax; omega)
    have hlast : ptrdiff (r.offset + length) = (r.offset + length : Nat) :=
      if_pos (by unfold ptrdiffMax; omega)
    have hiter : (0 : Int) ≤ r.offset ∧ (r.offset : Int) ≤ (r.offset + length : Nat) ∧
        ((r.offset + length : Nat) : Int) ≤ r.payload.size := by omega
    have hcount : (((r.offset + length : Nat) : Int) - r.offset).toNat = length := by omega
    rw [if_pos h]
    cases c with
    | span =>
      simp [readLenPrefixedPayload, readSpan, hread, Buffer.subspan, hsub, skip_eq h]
      rfl
    | vector =>
      simp only [readLenPrefixedPayload, readVector, hread, hadd, hfirst, hlast, Buffer.assign,
        if_pos hiter, hcount, Int.toNat_natCast, skip_eq h]
      rfl
    | stringView =>
      simp [readLenPrefixedPayload, readStringView, hread, Buffer.stringView, h, skip_eq h]
      rfl
    | string =>
      simp [readLenPrefixedPayload, readString, hread, Buffer.stringView, h, skip_eq h]
      rfl
  · have hread : r.canRead length = false := by
      rw [← Bool.not_eq_true, canRead_iff]
      exact h
    rw [if_neg h]
    cases c with
    | span => simp [readLenPrefixedPayload, readSpan, hread]
    | vector => simp [readLenPrefixedPayload, readVector, hread]
    | stringView => simp [readLenPrefixedPayload, readStringView, hread]
    | string => simp [readLenPrefixedPayload, readString, hread]

/-- **`ReadLenPrefixed`** checks the length field and the content one after the other, and a
    content that is not there leaves the reader behind the length field. -/
theorem readLenPrefixed_eq (w : ByteWidth) (c : Container) (r : SpanReader) (out : c.Out) :
    r.readLenPrefixed w c out =
      if r.offset + w.size ≤ r.payload.size then
        if r.offset + (w.size + r.encodedLength w) ≤ r.payload.size then
          some ⟨true, c.range r.payload (r.offset + w.size) (r.encodedLength w),
            r.advance (w.size + r.encodedLength w)⟩
        else some ⟨false, out, r.advance w.size⟩
      else some ⟨false, out, r⟩ := by
  rw [readLenPrefixed, readUnsigned_eq]
  split
  · have hcast : sizeCast (BitVec.ofNat (8 * w.size) (r.encodedLength w)).toNat =
        r.encodedLength w := by
      rw [sizeCast, Nat.mod_eq_of_lt (w.bits_lt _), BitVec.toNat_ofNat, w.two_pow,
        Nat.mod_eq_of_lt (r.encodedLength_lt w)]
    simp only [Option.bind_eq_bind, Option.bind_some, Bool.not_true, Bool.false_eq_true, if_false,
      hcast, readLenPrefixedPayload_eq]
    simp only [advance, Nat.add_assoc]
  · rfl

/-- **`ReadLenPrefixed`**, for every length type. -/
theorem readLenPrefixedAs_eq (t : LengthType) (c : Container) (r : SpanReader) (out : c.Out) :
    r.readLenPrefixedAs t c out =
      if r.offset + t.size ≤ r.payload.size then
        if r.offset + (t.size + r.encodedLengthAs t) ≤ r.payload.size then
          some ⟨true, c.range r.payload (r.offset + t.size) (r.encodedLengthAs t),
            r.advance (t.size + r.encodedLengthAs t)⟩
        else some ⟨false, out, r.advance t.size⟩
      else some ⟨false, out, r⟩ := by
  cases t with
  | unsigned w => exact readLenPrefixed_eq w c r out
  | bool =>
    rw [readLenPrefixedAs, readLenPrefixedBool, readBool_eq]
    by_cases h : r.offset + 1 ≤ r.payload.size
    · have hsize : r.offset + LengthType.bool.size ≤ r.payload.size := h
      have hcast : sizeCast (r.encodedLength .one != 0).toNat =
          (r.encodedLength .one != 0).toNat :=
        Nat.mod_eq_of_lt (Nat.lt_of_le_of_lt (Bool.toNat_le _) (by decide))
      rw [if_pos h, if_pos hsize]
      simp only [Option.bind_eq_bind, Option.bind_some, Bool.not_true, Bool.false_eq_true,
        if_false, hcast, readLenPrefixedPayload_eq]
      simp only [advance, Nat.add_assoc]
      rfl
    · have hsize : ¬ r.offset + LengthType.bool.size ≤ r.payload.size := h
      rw [if_neg h, if_neg hsize]
      rfl

end SpanReader

/-! ## The outcome of a call -/

namespace ReadCall

/-- The bytes a call needs: a fixed width, or a length field and the length it encodes. -/
def needs : ReadCall → SpanReader → Nat
  | read t, _ => t.width.size
  | readLenPrefixed t _, r => t.size + r.encodedLengthAs t

/-- The bytes are there. -/
def Present (call : ReadCall) (r : SpanReader) : Prop :=
  r.offset + call.needs r ≤ r.payload.size

instance (call : ReadCall) (r : SpanReader) : Decidable (call.Present r) :=
  inferInstanceAs (Decidable (_ ≤ _))

/-- The `out` variable after a call that succeeds. -/
def value : (call : ReadCall) → SpanReader → call.Out
  | read t, r => t.fromBits (BitVec.ofNat _ (r.encodedLength t.width))
  | readLenPrefixed t c, r => c.range r.payload (r.offset + t.size) (r.encodedLengthAs t)

/-- The length field is there and the content is not. -/
def Split : ReadCall → SpanReader → Prop
  | read _, _ => False
  | readLenPrefixed t _, r => r.offset + t.size ≤ r.payload.size ∧
      r.payload.size < r.offset + (t.size + r.encodedLengthAs t)

instance : (call : ReadCall) → (r : SpanReader) → Decidable (call.Split r)
  | read _, _ => inferInstanceAs (Decidable False)
  | readLenPrefixed _ _, _ => inferInstanceAs (Decidable (_ ∧ _))

/-- The bytes a call that fails has skipped. -/
def skipped (call : ReadCall) (r : SpanReader) : Nat :=
  match call with
  | read _ => 0
  | readLenPrefixed t _ => if call.Split r then t.size else 0

/-- **Every call** takes the bytes it needs if they are there, and otherwise leaves the `out`
    variable as it is. -/
theorem run_eq (call : ReadCall) (r : SpanReader) (out : call.Out) :
    call.run r out = some (
      if call.Present r then ⟨true, call.value r, r.advance (call.needs r)⟩
      else ⟨false, out, r.advance (call.skipped r)⟩) := by
  cases call with
  | read t =>
    rw [run, SpanReader.read, SpanReader.readPayload_eq, ← apply_ite some]
    rfl
  | readLenPrefixed t c =>
    rw [run, SpanReader.readLenPrefixedAs_eq]
    by_cases hfield : r.offset + t.size ≤ r.payload.size
    · rw [if_pos hfield]
      by_cases hall : r.offset + (t.size + r.encodedLengthAs t) ≤ r.payload.size
      · have hpresent : Present (readLenPrefixed t c) r := hall
        rw [if_pos hall, if_pos hpresent]
        rfl
      · have hpresent : ¬ Present (readLenPrefixed t c) r := hall
        have hsplit : Split (readLenPrefixed t c) r := ⟨hfield, Nat.not_le.mp hall⟩
        rw [if_neg hall, if_neg hpresent, skipped, if_pos hsplit]
    · have hall : ¬ Present (readLenPrefixed t c) r := by
        simp only [Present, needs]
        omega
      have hsplit : ¬ Split (readLenPrefixed t c) r := fun h => hfield h.1
      rw [if_neg hfield, if_neg hall, skipped, if_neg hsplit]
      rfl

theorem Split.not_present {call : ReadCall} {r : SpanReader} (h : call.Split r) :
    ¬ call.Present r := by
  cases call with
  | read t => cases h
  | readLenPrefixed t c => exact Nat.not_le.mpr h.2

/-- A call that fails skips the length field of a split read, and nothing else. -/
theorem skipped_eq_zero_iff (call : ReadCall) (r : SpanReader) :
    call.skipped r = 0 ↔ ¬ call.Split r := by
  cases call with
  | read t => exact ⟨fun _ h => h, fun _ => rfl⟩
  | readLenPrefixed t c =>
    have hpos := t.size_pos
    rw [skipped]
    split
    · rename_i h
      exact ⟨fun h0 => by omega, fun hn => absurd h hn⟩
    · rename_i h
      exact ⟨fun _ => h, fun _ => rfl⟩

/-- A call that fails stays in the payload. -/
theorem skipped_le (call : ReadCall) {r : SpanReader} (h : r.offset ≤ r.payload.size) :
    r.offset + call.skipped r ≤ r.payload.size := by
  cases call with
  | read t => exact h
  | readLenPrefixed t c =>
    rw [skipped]
    split
    · rename_i hs
      exact hs.1
    · exact h

end ReadCall

/-! ## The reader of ByteCodec -/

/-- The bytes that an `out` variable refers to, or holds. -/
def Container.contents : (c : Container) → Buffer → c.Out → Buffer
  | span, b, out | stringView, b, out => b.slice out.start out.length
  | vector, _, out | string, _, out => out

@[simp] theorem Container.contents_range (c : Container) (b : Buffer) (start length : Nat) :
    c.contents b (c.range b start length) = b.slice start length := by
  cases c <;> rfl

namespace SpanReader

theorem toReader_canRead (r : SpanReader) (length : Nat) :
    r.toReader.canRead length = decide (r.offset + length ≤ r.payload.size) := by
  rw [Bool.eq_iff_iff, Reader.canRead_iff, decide_eq_true_eq]
  rfl

/-- `ReadUnsigned` is the one of `ByteCodec.Reader`. -/
theorem readUnsigned_refines {w : ByteWidth} {r : SpanReader} {out : w.Bits}
    {res : ReadResult w.Bits} (h : r.readUnsigned w out = some res) :
    r.toReader.readUnsigned w.size =
      (if res.ok then some res.out.toNat else none, res.reader.toReader) := by
  rw [readUnsigned_eq] at h
  have hcan := r.toReader_canRead w.size
  split at h
  · rename_i hle
    cases h
    rw [decide_eq_true hle] at hcan
    rw [Reader.readUnsigned_of_canRead _ hcan]
    simp only [if_true, BitVec.toNat_ofNat, w.two_pow, Nat.mod_eq_of_lt (r.encodedLength_lt w)]
    rfl
  · rename_i hle
    cases h
    rw [decide_eq_false hle] at hcan
    rw [Reader.readUnsigned_of_not_canRead _ hcan]
    rfl

/-- **`ReadLenPrefixed`** is the one of `ByteCodec.Reader`, for every container. -/
theorem readLenPrefixed_refines {w : ByteWidth} {c : Container} {r : SpanReader} {out : c.Out}
    {res : ReadResult c.Out} (h : r.readLenPrefixed w c out = some res) :
    r.toReader.readLenPrefixed w.size =
      (if res.ok then some (c.contents r.payload res.out).bytes else none,
        res.reader.toReader) := by
  have hfirst : ∃ first, r.readUnsigned w 0 = some first := by
    rw [readUnsigned_eq]
    split <;> exact ⟨_, rfl⟩
  obtain ⟨first, hfirst⟩ := hfirst
  rw [Reader.readLenPrefixed, readUnsigned_refines hfirst]
  rw [readLenPrefixed, hfirst] at h
  simp only [Option.bind_eq_bind, Option.bind_some] at h
  split at h
  · rename_i hok
    cases h
    rw [Bool.not_eq_true'] at hok
    rw [hok]
    rfl
  · rename_i hok
    rw [Bool.not_eq_true', Bool.not_eq_false] at hok
    have hpayload : first.reader.payload = r.payload := by
      rw [readUnsigned_eq] at hfirst
      split at hfirst
      · cases hfirst
        rfl
      · cases hfirst
        rfl
    have hcast : sizeCast first.out.toNat = first.out.toNat := Nat.mod_eq_of_lt (w.bits_lt _)
    rw [hok, if_pos rfl]
    simp only [Reader.readLenPrefixedPayload, toReader_canRead]
    rw [hcast, readLenPrefixedPayload_eq] at h
    split at h
    · rename_i hle
      cases h
      rw [decide_eq_true hle, ← hpayload, c.contents_range]
      rfl
    · rename_i hle
      cases h
      rw [decide_eq_false hle]
      rfl

end SpanReader

/-! ## Sequences of calls -/

/-- A call with the `out` variable it is given. -/
abbrev ReadAct : Type := (call : ReadCall) × call.Out

/-- One call; its result does not matter to the calls after it. -/
def SpanReader.step (r : SpanReader) (act : ReadAct) : Option SpanReader :=
  (act.1.run r act.2).map ReadResult.reader

/-- The offset is inside the payload. -/
def SpanReader.Inside (payload : Buffer) (r : SpanReader) : Prop :=
  r.payload = payload ∧ r.offset ≤ payload.size

/-- The reader that a call leaves. -/
def ReadCall.left (call : ReadCall) (r : SpanReader) : SpanReader :=
  if call.Present r then r.advance (call.needs r) else r.advance (call.skipped r)

theorem ReadCall.left_inside {payload : Buffer} {r : SpanReader} (call : ReadCall)
    (h : r.Inside payload) : (call.left r).Inside payload ∧ r.offset ≤ (call.left r).offset := by
  obtain ⟨rfl, hle⟩ := h
  unfold left
  split
  · rename_i hp
    exact ⟨⟨rfl, hp⟩, Nat.le_add_right _ _⟩
  · exact ⟨⟨rfl, call.skipped_le hle⟩, Nat.le_add_right _ _⟩

theorem SpanReader.step_eq (r : SpanReader) (act : ReadAct) :
    r.step act = some (act.1.left r) := by
  rw [step, ReadCall.run_eq, Option.map_some, ReadCall.left]
  split
  · rfl
  · rfl

/-- **Every sequence of calls** has a result, and leaves the offset inside the payload. -/
theorem SpanReader.exec_inside {payload : Buffer} : ∀ (acts : List ReadAct) {r : SpanReader},
    r.Inside payload → ∃ r', Runs.exec SpanReader.step r acts = some r' ∧ r'.Inside payload := by
  intro acts
  induction acts with
  | nil => exact fun h => ⟨_, rfl, h⟩
  | cons act acts ih =>
    intro r h
    obtain ⟨r', hexec, h'⟩ := ih (act.1.left_inside h).1
    exact ⟨r', by rw [Runs.exec_cons (r.step_eq act), hexec], h'⟩

/-- **The reader stays inside the payload.**  Every sequence of calls, failed ones included, has a
    result, so no call reads a byte outside of the payload; it leaves the offset inside the payload
    and `Remaining` exact.  The next call, whatever it is, has a result too, does not lower the
    offset and does not take it past the end.  It succeeds exactly when the bytes it needs are
    there, and its value is then the range of the payload that ends at the new offset, with no
    wrap in the sum. -/
theorem reader_in_bounds (payload : Buffer) (acts : List ReadAct) :
    ∃ r, Runs.exec SpanReader.step (.ofPayload payload) acts = some r ∧
      r.payload = payload ∧ r.offset ≤ payload.size ∧
      r.remaining = payload.size - r.offset ∧
      ∀ (call : ReadCall) (out : call.Out), ∃ res, call.run r out = some res ∧
        res.reader.payload = payload ∧
        r.offset ≤ res.reader.offset ∧ res.reader.offset ≤ payload.size ∧
        (res.ok = true ↔ r.offset + call.needs r ≤ payload.size) ∧
        (res.ok = true → r.offset + call.needs r ≤ sizeMax ∧
          res.reader.offset = r.offset + call.needs r ∧ res.out = call.value r) := by
  obtain ⟨r, hexec, hpayload, hle⟩ := SpanReader.exec_inside acts
    (show (SpanReader.ofPayload payload).Inside payload from ⟨rfl, Nat.zero_le _⟩)
  subst hpayload
  refine ⟨r, hexec, rfl, hle, SpanReader.remaining_eq hle, fun call out => ?_⟩
  have hinside : r.Inside r.payload := ⟨rfl, hle⟩
  obtain ⟨⟨hsame, hend⟩, hmono⟩ := call.left_inside hinside
  refine ⟨_, call.run_eq r out, ?_⟩
  unfold ReadCall.left at hsame hend hmono
  have hsize := r.payload_size_lt
  by_cases hp : call.Present r
  · rw [if_pos hp] at hsame hend hmono ⊢
    have hp' : r.offset + call.needs r ≤ r.payload.size := hp
    exact ⟨hsame, hmono, hend, iff_of_true rfl hp,
      fun _ => ⟨by unfold sizeMax; omega, rfl, rfl⟩⟩
  · rw [if_neg hp] at hsame hend hmono ⊢
    refine ⟨hsame, hmono, hend, iff_of_false (fun h => ?_) hp, fun h => ?_⟩
    · cases h
    · cases h

/-! ## Failed calls -/

/-- **A call that fails leaves no trace exactly when it is not a split read.** -/
theorem failed_read_atomic_iff (r : SpanReader) (call : ReadCall) (out : call.Out) :
    ∃ res, call.run r out = some res ∧
      ((res.ok = false → res.reader.offset = r.offset ∧
          res.reader.remaining = r.remaining ∧ res.out = out) ↔ ¬ call.Split r) := by
  refine ⟨_, call.run_eq r out, ?_⟩
  by_cases hp : call.Present r
  · rw [if_pos hp]
    refine iff_of_true (fun hf => ?_) fun hs => hs.not_present hp
    cases hf
  · rw [if_neg hp, ← call.skipped_eq_zero_iff]
    constructor
    · intro hsame
      have hoff : r.offset + call.skipped r = r.offset := (hsame rfl).1
      omega
    · intro hzero _
      rw [hzero]
      exact ⟨rfl, rfl, rfl⟩

/-- A length field of four bytes with nothing behind it: the read of the string fails, and leaves
    the reader at offset 4. -/
theorem split_read_moves_offset :
    ∃ res, (ReadCall.readLenPrefixed (.unsigned .four) .stringView).run
        (.ofPayload ⟨[0, 0, 0, 1], by decide⟩) ⟨0, 0⟩ = some res ∧
      res.ok = false ∧ res.reader.offset = 4 ∧ res.reader.remaining = 0 :=
  ⟨_, rfl, rfl, rfl, rfl⟩

end Zem.ByteCodec
