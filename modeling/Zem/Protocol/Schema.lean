import Zem.Protocol.SpanReader

/-!
# ByteCodec: the writer, and schemas of fields

Reference model of `ByteCodec::Writer`, and of a sequence of fields written by its calls and read
back by the matching calls of the reader.

* `Buffer.pushBack`, `Buffer.insertEnd` — what the writer does to its vector; a vector that would
  grow past `max_size` throws, which is no result.
* `Buffer.writeUnsigned`, `Buffer.writePayload`, `Buffer.writeLenPrefixedAs` — the writer.
* `Field` — a scalar, or a length-prefixed byte sequence with the type it is written from and the
  one it is read to; `writeAll`, `readAll` — the calls for a list of fields.
* `Field.encode` — the bytes of a field; `writeAll_iff`, `readAll_complete`, `readAll_spec` — the
  writes and the reads in terms of it.
* `ReadCall.Plain` — a length prefix that the writer could have written.
* `schema_roundTrip` — decoding after encoding.
* `schema_canonical_iff`, `bool_prefix_not_canonical` — encoding after decoding, which gives the
  bytes back unless a length prefix of type `bool` is a byte above 1.
-/

set_option autoImplicit false

namespace Zem.ByteCodec

/-! ## The vector -/

namespace Buffer

/-- `insert(end(), …)`. -/
def insertEnd (b : Buffer) (bs : Bytes) : Option Buffer :=
  if h : b.bytes.length + bs.length ≤ ptrdiffMax then
    some ⟨b.bytes ++ bs, by rw [List.length_append]; exact h⟩
  else none

/-- `push_back`. -/
def pushBack (b : Buffer) (byte : UInt8) : Option Buffer := b.insertEnd [byte]

theorem insertEnd_eq_some_iff {b b' : Buffer} {bs : Bytes} :
    b.insertEnd bs = some b' ↔ b'.bytes = b.bytes ++ bs := by
  unfold insertEnd
  constructor
  · intro h
    split at h
    · cases h
      rfl
    · cases h
  · intro h
    have hle : b.bytes.length + bs.length ≤ ptrdiffMax := by
      rw [← List.length_append, ← h]
      exact b'.size_le
    rw [dif_pos hle, Option.some.injEq]
    exact Buffer.ext h.symm

theorem insertEnd_nil (b : Buffer) : b.insertEnd [] = some b :=
  insertEnd_eq_some_iff.mpr (List.append_nil _).symm

/-- Two appends have a result exactly when the one append does. -/
theorem insertEnd_bind (b : Buffer) (xs ys : Bytes) :
    ((b.insertEnd xs).bind fun b => b.insertEnd ys) = b.insertEnd (xs ++ ys) := by
  apply Option.ext
  intro b'
  rw [Option.bind_eq_some_iff, insertEnd_eq_some_iff]
  constructor
  · rintro ⟨c, hc, hb⟩
    rw [insertEnd_eq_some_iff] at hc hb
    rw [hb, hc, List.append_assoc]
  · intro h
    have hle : b.bytes.length + xs.length ≤ ptrdiffMax := by
      have hsize := b'.size_le
      rw [h, List.length_append, List.length_append] at hsize
      omega
    refine ⟨⟨b.bytes ++ xs, by rw [List.length_append]; exact hle⟩, ?_, ?_⟩
    · exact insertEnd_eq_some_iff.mpr rfl
    · rw [insertEnd_eq_some_iff, h, List.append_assoc]

/-! ## The writer -/

/-- Byte `i` of the loop of `WriteUnsigned`. -/
def shiftOut (w : ByteWidth) (value : w.Bits) (i : Nat) : UInt8 :=
  UInt8.ofNat ((value >>> ((w.size - 1 - i) * 8)) &&& BitVec.ofNat _ 0xFF).toNat

/-- `WriteUnsigned`. -/
def writeUnsigned (payload : Buffer) (w : ByteWidth) (value : w.Bits) : Option Buffer :=
  (List.range w.size).foldlM (fun payload i => payload.pushBack (shiftOut w value i)) payload

/-- `WritePayload`: the overloads differ in the conversion to the raw value. -/
def writePayload (payload : Buffer) (t : ScalarType) (value : t.Value) :
    Option (Bool × Buffer) := do
  let payload ← payload.writeUnsigned t.width (t.toBits value)
  some (true, payload)

/-- `Write`. -/
def write (payload : Buffer) (t : ScalarType) (value : t.Value) : Option (Bool × Buffer) :=
  payload.writePayload t value

/-- What the overloads of `WriteLenPrefixedPayload` do with the bytes of `value`. -/
def writeBytes (payload : Buffer) (w : ByteWidth) (value : Buffer) : Option (Bool × Buffer) :=
  if value.size > sizeCast (maxUnsigned w.size) then some (false, payload)
  else do
    let payload ← payload.writeUnsigned w (BitVec.ofNat _ value.size)
    let payload ← payload.insertEnd value.bytes
    some (true, payload)

/-- `WriteLenPrefixedPayload` of a `StringLike` value. -/
def writeStringLike (payload : Buffer) (w : ByteWidth) (value : Buffer) : Option (Bool × Buffer) :=
  payload.writeBytes w value

/-- `WriteLenPrefixedPayload` of a `ByteSpanLike` value. -/
def writeByteSpan (payload : Buffer) (w : ByteWidth) (value : Buffer) : Option (Bool × Buffer) :=
  payload.writeBytes w value

/-- `WriteLenPrefixedPayload` of a vector, by way of a span. -/
def writeVector (payload : Buffer) (w : ByteWidth) (value : Buffer) : Option (Bool × Buffer) :=
  payload.writeByteSpan w value

end Buffer

/-- The types of the overloads of `WriteLenPrefixedPayload`. -/
inductive Source where
  | stringLike
  | byteSpanLike
  | vector
  deriving DecidableEq, Repr

namespace Buffer

/-- `WriteLenPrefixed` with a length type of `w` bytes. -/
def writeLenPrefixed (payload : Buffer) (w : ByteWidth) (source : Source) (value : Buffer) :
    Option (Bool × Buffer) :=
  match source with
  | .stringLike => payload.writeStringLike w value
  | .byteSpanLike => payload.writeByteSpan w value
  | .vector => payload.writeVector w value

/-- `WriteUnsigned<bool>`: the mask `static_cast<bool>(0xFF)` is `true`. -/
def writeBool (payload : Buffer) (value : Bool) : Option Buffer :=
  (List.range 1).foldlM (fun payload i =>
    payload.pushBack (UInt8.ofNat ((value.toNat >>> ((1 - 1 - i) * 8)) &&& true.toNat))) payload

/-- What the overloads of `WriteLenPrefixedPayload<bool>` do with the bytes of `value`. -/
def writeBytesBool (payload : Buffer) (value : Buffer) : Option (Bool × Buffer) :=
  if value.size > sizeCast true.toNat then some (false, payload)
  else do
    let payload ← payload.writeBool (value.size != 0)
    let payload ← payload.insertEnd value.bytes
    some (true, payload)

/-- `WriteLenPrefixed<LengthType>`. -/
def writeLenPrefixedAs (payload : Buffer) (lengthType : LengthType) (source : Source)
    (value : Buffer) : Option (Bool × Buffer) :=
  match lengthType with
  | .bool => payload.writeBytesBool value
  | .unsigned w => payload.writeLenPrefixed w source value

theorem foldlM_pushBack (f : Nat → UInt8) (idx : List Nat) (payload : Buffer) :
    idx.foldlM (fun payload i => payload.pushBack (f i)) payload =
      payload.insertEnd (idx.map f) := by
  induction idx generalizing payload with
  | nil => exact (insertEnd_nil payload).symm
  | cons i idx ih =>
    rw [List.foldlM_cons, List.map_cons, ← List.singleton_append, ← insertEnd_bind]
    simp only [ih]
    rfl

/-- **`WriteUnsigned`** appends the big-endian bytes. -/
theorem writeUnsigned_eq (w : ByteWidth) (value : w.Bits) (payload : Buffer) :
    payload.writeUnsigned w value = payload.insertEnd (BigEndian.toBytes w.size value.toNat) := by
  rw [writeUnsigned, foldlM_pushBack, BigEndian.toBytes_eq_range]
  congr 1
  apply List.map_congr_left
  intro i _
  have hlow : 0xFF % 2 ^ (8 * w.size) = 0xFF := by cases w <;> rfl
  rw [shiftOut, BitVec.toNat_and, BitVec.toNat_ushiftRight, BitVec.toNat_ofNat, hlow]

/-- **`WriteLenPrefixedPayload`** refuses what the length type cannot count, before it writes. -/
theorem writeLenPrefixed_eq (w : ByteWidth) (source : Source) (value payload : Buffer) :
    payload.writeLenPrefixed w source value =
      if value.size < 256 ^ w.size then
        (payload.insertEnd (BigEndian.toBytes w.size value.size ++ value.bytes)).map (true, ·)
      else some (false, payload) := by
  have hpos : 0 < 256 ^ w.size := Nat.pow_pos (by decide)
  have hlt : 256 ^ w.size ≤ 2 ^ 64 := by
    rw [← w.two_pow]
    have := w.size_le
    exact Nat.pow_le_pow_right (by decide) (by omega)
  have hmax : sizeCast (maxUnsigned w.size) = 256 ^ w.size - 1 := by
    rw [sizeCast, maxUnsigned, Nat.mod_eq_of_lt (by omega)]
  have hbytes : payload.writeBytes w value =
      if value.size < 256 ^ w.size then
        (payload.insertEnd (BigEndian.toBytes w.size value.size ++ value.bytes)).map (true, ·)
      else some (false, payload) := by
    rw [writeBytes, hmax]
    by_cases h : value.size < 256 ^ w.size
    · have hcast : (BitVec.ofNat (8 * w.size) value.size).toNat = value.size := by
        rw [BitVec.toNat_ofNat, w.two_pow, Nat.mod_eq_of_lt h]
      rw [if_neg (by omega), if_pos h, ← insertEnd_bind, writeUnsigned_eq, hcast]
      cases payload.insertEnd (BigEndian.toBytes w.size value.size) with
      | none => rfl
      | some p =>
        simp only [Option.bind_eq_bind, Option.bind_some]
        cases p.insertEnd value.bytes <;> rfl
    · rw [if_pos (by omega), if_neg h]
  cases source
  · exact hbytes
  · exact hbytes
  · exact hbytes

theorem writeBool_eq (value : Bool) (payload : Buffer) :
    payload.writeBool value = payload.insertEnd (BigEndian.toBytes 1 value.toNat) := by
  rw [writeBool, foldlM_pushBack]
  cases value <;> rfl

theorem writeBytesBool_eq (value payload : Buffer) :
    payload.writeBytesBool value =
      if value.size ≤ 1 then
        (payload.insertEnd (BigEndian.toBytes 1 value.size ++ value.bytes)).map (true, ·)
      else some (false, payload) := by
  have hmax : sizeCast true.toNat = 1 := rfl
  rw [writeBytesBool, hmax]
  by_cases h : value.size ≤ 1
  · have hcast : (value.size != 0).toNat = value.size := by
      obtain h0 | h1 : value.size = 0 ∨ value.size = 1 := by omega
      · rw [h0]
        rfl
      · rw [h1]
        rfl
    rw [if_neg (by omega), if_pos h, ← insertEnd_bind, writeBool_eq, hcast]
    cases payload.insertEnd (BigEndian.toBytes 1 value.size) with
    | none => rfl
    | some p =>
      simp only [Option.bind_eq_bind, Option.bind_some]
      cases p.insertEnd value.bytes <;> rfl
  · rw [if_pos (by omega), if_neg h]

/-- **`WriteLenPrefixed`** refuses exactly what its length type cannot count. -/
theorem writeLenPrefixedAs_eq (lengthType : LengthType) (source : Source)
    (value payload : Buffer) :
    payload.writeLenPrefixedAs lengthType source value =
      if value.size ≤ lengthType.max then
        (payload.insertEnd (BigEndian.toBytes lengthType.size value.size ++ value.bytes)).map
          (true, ·)
      else some (false, payload) := by
  cases lengthType with
  | bool => exact writeBytesBool_eq value payload
  | unsigned w =>
    have hpos : 0 < 256 ^ w.size := Nat.pow_pos (by decide)
    have hmax : value.size ≤ LengthType.max (.unsigned w) ↔ value.size < 256 ^ w.size := by
      rw [LengthType.max, maxUnsigned]
      omega
    simp only [writeLenPrefixedAs, writeLenPrefixed_eq, hmax]
    rfl

end Buffer

/-! ## Fields -/

/-- A field of a schema: a scalar, or a byte sequence behind its length. -/
inductive Field where
  | scalar (t : ScalarType)
  | lenPrefixed (lengthType : LengthType) (source : Source) (container : Container)
  deriving DecidableEq, Repr

namespace Field

/-- The value of a field; a byte sequence is given by its bytes. -/
abbrev Value : Field → Type
  | scalar t => t.Value
  | lenPrefixed _ _ _ => Buffer

/-- The writer's call. -/
def write : (f : Field) → f.Value → Buffer → Option (Bool × Buffer)
  | scalar t, v, payload => payload.write t v
  | lenPrefixed t source _, v, payload => payload.writeLenPrefixedAs t source v

/-- The matching call of the reader. -/
abbrev call : Field → ReadCall
  | scalar t => .read t
  | lenPrefixed t _ c => .readLenPrefixed t c

/-- The value that the `out` variable of the reader's call stands for. -/
def valueOf : (f : Field) → Buffer → f.call.Out → f.Value
  | scalar _, _, out => out
  | lenPrefixed _ _ c, payload, out => c.contents payload out

/-- The bytes of a field. -/
def encode : (f : Field) → f.Value → Bytes
  | scalar t, v => BigEndian.toBytes t.width.size (t.toBits v).toNat
  | lenPrefixed t _ _, v => BigEndian.toBytes t.size v.size ++ v.bytes

/-- The length type can count the bytes. -/
def Countable : (f : Field) → f.Value → Prop
  | scalar _, _ => True
  | lenPrefixed t _ _, v => v.size ≤ t.max

/-- **A write** that succeeds appends the bytes of the field. -/
theorem write_iff (f : Field) (v : f.Value) (payload payload' : Buffer) :
    f.write v payload = some (true, payload') ↔
      f.Countable v ∧ payload.insertEnd (f.encode v) = some payload' := by
  cases f with
  | scalar t =>
    simp only [write, Buffer.write, Buffer.writePayload, Buffer.writeUnsigned_eq, Countable,
      true_and]
    cases h : payload.insertEnd (BigEndian.toBytes t.width.size (t.toBits v).toNat) <;>
      simp [encode, h]
  | lenPrefixed t source c =>
    simp only [write, Buffer.writeLenPrefixedAs_eq, Countable]
    split
    · rename_i hle
      cases h : payload.insertEnd (BigEndian.toBytes t.size v.size ++ v.bytes) <;>
        simp [encode, h, hle]
    · rename_i hle
      simp [hle]

end Field

/-! ## Reading a field -/

namespace SpanReader

theorem length_field_le (r : SpanReader) (n : Nat) : (r.field n).length ≤ n :=
  List.length_take_le _ _

theorem length_field_eq (r : SpanReader) (n : Nat) :
    (r.field n).length = min n (r.payload.size - r.offset) := by
  rw [field, List.length_take, List.length_drop]
  rfl

theorem length_field {r : SpanReader} {n : Nat} (h : r.offset + n ≤ r.payload.size) :
    (r.field n).length = n := by
  rw [length_field_eq]
  omega

theorem field_add (r : SpanReader) (m n : Nat) :
    r.field (m + n) = r.field m ++ (r.advance m).field n := by
  rw [field, field, field, List.take_add, List.drop_drop]
  rfl

/-- A length that the length type can count is read as it was written. -/
theorem encodedLengthAs_of_field {r : SpanReader} {t : LengthType} {n : Nat} (hn : n ≤ t.max)
    (h : r.field t.size = BigEndian.toBytes t.size n) : r.encodedLengthAs t = n := by
  have hback := BigEndian.ofBytes_toBytes_of_lt (Nat.lt_of_le_of_lt hn t.max_lt)
  cases t with
  | unsigned w =>
    rw [encodedLengthAs, encodedLength, show w.size = (LengthType.unsigned w).size from rfl, h]
    exact hback
  | bool =>
    have hone : r.encodedLength .one = n := by
      rw [encodedLength, show ByteWidth.one.size = LengthType.bool.size from rfl, h]
      exact hback
    rw [encodedLengthAs, hone]
    obtain rfl | rfl : n = 0 ∨ n = 1 := Nat.le_one_iff_eq_zero_or_eq_one.mp hn
    · rfl
    · rfl

end SpanReader

namespace ReadCall

/-- The length prefix is one that the writer writes: a `bool` is a byte 0 or 1. -/
def Plain : ReadCall → SpanReader → Prop
  | readLenPrefixed .bool _, r => r.encodedLength .one ≤ 1
  | read _, _ | readLenPrefixed (.unsigned _) _, _ => True

instance : (call : ReadCall) → (r : SpanReader) → Decidable (call.Plain r)
  | readLenPrefixed .bool _, _ => inferInstanceAs (Decidable (_ ≤ _))
  | read _, _ | readLenPrefixed (.unsigned _) _, _ => inferInstanceAs (Decidable True)

theorem plain_lenPrefixed_iff {t : LengthType} (c : Container) {r : SpanReader}
    (hlen : (r.field t.size).length = t.size) :
    (readLenPrefixed t c).Plain r ↔
      r.field t.size = BigEndian.toBytes t.size (r.encodedLengthAs t) := by
  have hback := BigEndian.toBytes_ofBytes_of_length hlen
  cases t with
  | unsigned w => exact iff_of_true trivial hback.symm
  | bool =>
    have hfield : BigEndian.toBytes 1 (r.encodedLength .one) = r.field LengthType.bool.size := hback
    constructor
    · intro hle
      have hle : r.encodedLength .one ≤ 1 := hle
      rw [← hfield, SpanReader.encodedLengthAs]
      obtain h | h := Nat.le_one_iff_eq_zero_or_eq_one.mp hle
      · rw [h]
        rfl
      · rw [h]
        rfl
    · intro h
      have hone : r.encodedLength .one = BigEndian.ofBytes (r.field LengthType.bool.size) := rfl
      have hlt : r.encodedLengthAs .bool ≤ 1 := r.encodedLengthAs_le .bool
      show r.encodedLength .one ≤ 1
      rw [hone, h, BigEndian.ofBytes_toBytes_of_lt (Nat.lt_of_le_of_lt hlt (by decide))]
      exact hlt

end ReadCall

namespace Field

theorem encode_ne_nil (f : Field) (v : f.Value) : f.encode v ≠ [] := by
  intro hnil
  have hlen := congrArg List.length hnil
  cases f with
  | scalar t =>
    rw [encode, BigEndian.length_toBytes] at hlen
    exact absurd hlen (Nat.ne_of_gt t.width.size_pos)
  | lenPrefixed t source c =>
    rw [encode, List.length_append, BigEndian.length_toBytes] at hlen
    have hpos := t.size_pos
    rw [List.length_nil] at hlen
    omega

/-- A field that is there in full ends inside the payload. -/
theorem end_le {f : Field} {v : f.Value} {r : SpanReader}
    (h : r.field (f.encode v).length = f.encode v) :
    r.offset + (f.encode v).length ≤ r.payload.size := by
  have hlen := congrArg List.length h
  have hpos := List.length_pos_iff.mpr (f.encode_ne_nil v)
  rw [r.length_field_eq] at hlen
  omega

theorem valueOf_lenPrefixed (t : LengthType) (source : Source) (c : Container) (r : SpanReader) :
    valueOf (.lenPrefixed t source c) r.payload (ReadCall.value (.readLenPrefixed t c) r) =
      r.payload.slice (r.offset + t.size) (r.encodedLengthAs t) :=
  c.contents_range _ _ _

theorem size_slice {b : Buffer} {start length : Nat} (h : start + length ≤ b.size) :
    (b.slice start length).size = length :=
  SpanReader.length_field (r := ⟨b, start⟩) h

/-- A call takes as many bytes as its value encodes to. -/
theorem needs_eq (f : Field) {r : SpanReader} (h : f.call.Present r) :
    f.call.needs r = (f.encode (f.valueOf r.payload (f.call.value r))).length := by
  cases f with
  | scalar t => exact (BigEndian.length_toBytes _ _).symm
  | lenPrefixed t source c =>
    have h : r.offset + (t.size + r.encodedLengthAs t) ≤ r.payload.size := h
    rw [valueOf_lenPrefixed, encode, List.length_append, BigEndian.length_toBytes]
    have hsize : (r.payload.slice (r.offset + t.size) (r.encodedLengthAs t)).size =
        r.encodedLengthAs t := size_slice (by omega)
    rw [Buffer.size] at hsize
    rw [hsize]
    rfl

/-- The length type of a call can count what it returns. -/
theorem countable_value (f : Field) {r : SpanReader} (h : f.call.Present r) :
    f.Countable (f.valueOf r.payload (f.call.value r)) := by
  cases f with
  | scalar t => trivial
  | lenPrefixed t source c =>
    have h : r.offset + (t.size + r.encodedLengthAs t) ≤ r.payload.size := h
    have hsize : (r.payload.slice (r.offset + t.size) (r.encodedLengthAs t)).size =
        r.encodedLengthAs t := size_slice (by omega)
    rw [valueOf_lenPrefixed, Countable, hsize]
    exact r.encodedLengthAs_le t

/-- **The bytes a call takes** are the encoding of its value exactly when its length prefix is
    plain. -/
theorem plain_iff (f : Field) {r : SpanReader} (h : f.call.Present r) :
    f.call.Plain r ↔ r.field (f.encode (f.valueOf r.payload (f.call.value r))).length =
      f.encode (f.valueOf r.payload (f.call.value r)) := by
  cases f with
  | scalar t =>
    have hlen := SpanReader.length_field (show r.offset + t.width.size ≤ r.payload.size from h)
    have hbytes : encode (.scalar t) (valueOf (.scalar t) r.payload (ReadCall.value (.read t) r)) =
        r.field t.width.size := by
      show BigEndian.toBytes t.width.size (t.toBits (t.fromBits _)).toNat = _
      rw [t.toBits_fromBits, BitVec.toNat_ofNat, t.width.two_pow,
        Nat.mod_eq_of_lt (r.encodedLength_lt t.width)]
      exact BigEndian.toBytes_ofBytes_of_length hlen
    rw [hbytes, hlen]
    exact iff_of_true trivial rfl
  | lenPrefixed t source c =>
    have h : r.offset + (t.size + r.encodedLengthAs t) ≤ r.payload.size := h
    have hlen : (r.field t.size).length = t.size := SpanReader.length_field (by omega)
    have hsize : (r.payload.slice (r.offset + t.size) (r.encodedLengthAs t)).size =
        r.encodedLengthAs t := size_slice (by omega)
    have hbytes : encode (.lenPrefixed t source c)
        (r.payload.slice (r.offset + t.size) (r.encodedLengthAs t)) =
          BigEndian.toBytes t.size (r.encodedLengthAs t) ++
            (r.advance t.size).field (r.encodedLengthAs t) := by
      rw [encode, hsize]
      rfl
    have htotal : (encode (.lenPrefixed t source c)
        (r.payload.slice (r.offset + t.size) (r.encodedLengthAs t))).length =
          t.size + r.encodedLengthAs t := by
      rw [encode, List.length_append, BigEndian.length_toBytes]
      exact congrArg (t.size + ·) hsize
    rw [valueOf_lenPrefixed, htotal, hbytes, r.field_add, List.append_left_inj,
      ReadCall.plain_lenPrefixed_iff c hlen]

/-- **A read** finds every encoding of a value that its length type can count. -/
theorem present_of_field (f : Field) {r : SpanReader} {v : f.Value} (hcount : f.Countable v)
    (h : r.field (f.encode v).length = f.encode v) :
    f.call.Present r ∧ f.valueOf r.payload (f.call.value r) = v := by
  have hend := end_le h
  cases f with
  | scalar t =>
    rw [encode, BigEndian.length_toBytes] at h hend
    refine ⟨hend, ?_⟩
    have hlt : (t.toBits v).toNat < 256 ^ t.width.size := t.width.two_pow ▸ (t.toBits v).isLt
    show t.fromBits (BitVec.ofNat _ (r.encodedLength t.width)) = v
    rw [SpanReader.encodedLength, h, BigEndian.ofBytes_toBytes_of_lt hlt, BitVec.ofNat_toNat,
      BitVec.setWidth_eq, t.fromBits_toBits]
  | lenPrefixed t source c =>
    have hcount : v.size ≤ t.max := hcount
    rw [encode, List.length_append, BigEndian.length_toBytes,
      show v.bytes.length = v.size from rfl] at h hend
    rw [r.field_add] at h
    have hlen : (r.field t.size).length = t.size := SpanReader.length_field (by omega)
    obtain ⟨hlength, hcontent⟩ := List.append_inj h (by rw [hlen, BigEndian.length_toBytes])
    have hn := SpanReader.encodedLengthAs_of_field hcount hlength
    rw [valueOf_lenPrefixed, hn]
    refine ⟨?_, Buffer.ext hcontent⟩
    show r.offset + (t.size + r.encodedLengthAs t) ≤ r.payload.size
    rw [hn]
    exact hend

end Field

/-! ## Schemas -/

/-- The values of the fields. -/
def Values : List Field → Type
  | [] => Unit
  | f :: fs => f.Value × Values fs

/-- The `out` variables of the reader's calls. -/
def Outs : List Field → Type
  | [] => Unit
  | f :: fs => f.call.Out × Outs fs

/-- The writer's calls, up to the first that fails. -/
def writeAll : (fs : List Field) → Values fs → Buffer → Option (Bool × Buffer)
  | [], _, payload => some (true, payload)
  | f :: fs, (v, vs), payload =>
    match f.write v payload with
    | some (true, payload) => writeAll fs vs payload
    | some (false, payload) => some (false, payload)
    | none => none

/-- The reader's calls, up to the first that fails. -/
def readAll : (fs : List Field) → SpanReader → Outs fs → Option (ReadResult (Outs fs))
  | [], r, outs => some ⟨true, outs, r⟩
  | f :: fs, r, (out, outs) =>
    match f.call.run r out with
    | some ⟨true, out, r⟩ =>
      (readAll fs r outs).map fun res => ⟨res.ok, (out, res.out), res.reader⟩
    | some ⟨false, out, r⟩ => some ⟨false, (out, outs), r⟩
    | none => none

/-- The values that the `out` variables stand for. -/
def valuesOf : (fs : List Field) → Buffer → Outs fs → Values fs
  | [], _, _ => ()
  | f :: fs, payload, (out, outs) => (f.valueOf payload out, valuesOf fs payload outs)

/-- The bytes of the fields. -/
def encodeAll : (fs : List Field) → Values fs → Bytes
  | [], _ => []
  | f :: fs, (v, vs) => f.encode v ++ encodeAll fs vs

/-- Every length type can count its bytes. -/
def CountableAll : (fs : List Field) → Values fs → Prop
  | [], _ => True
  | f :: fs, (v, vs) => f.Countable v ∧ CountableAll fs vs

/-- **Writes** that all succeed append the bytes of the fields. -/
theorem writeAll_iff : ∀ (fs : List Field) (vs : Values fs) (payload payload' : Buffer),
    writeAll fs vs payload = some (true, payload') ↔
      CountableAll fs vs ∧ payload.insertEnd (encodeAll fs vs) = some payload'
  | [], _, payload, payload' => by
    rw [writeAll, encodeAll, Buffer.insertEnd_nil]
    simp [CountableAll]
  | f :: fs, (v, vs), payload, payload' => by
    rw [encodeAll, ← Buffer.insertEnd_bind, Option.bind_eq_some_iff, writeAll]
    have hwrite := f.write_iff v payload
    have ih := writeAll_iff fs vs
    constructor
    · intro h
      split at h
      · rename_i b hb
        obtain ⟨hc, hins⟩ := (hwrite b).mp hb
        obtain ⟨hcs, hins'⟩ := (ih b payload').mp h
        exact ⟨⟨hc, hcs⟩, b, hins, hins'⟩
      · cases h
      · cases h
    · rintro ⟨⟨hc, hcs⟩, b, hins, hins'⟩
      rw [(hwrite b).mpr ⟨hc, hins⟩]
      exact (ih b payload').mpr ⟨hcs, hins'⟩

/-- Every length prefix that the reads meet is plain. -/
def PlainAll : List Field → SpanReader → Prop
  | [], _ => True
  | f :: fs, r => f.call.Plain r ∧ PlainAll fs (r.advance (f.call.needs r))

/-- **Reads** that all succeed take as many bytes as their values encode to; the bytes are this
    encoding exactly when every length prefix is plain. -/
theorem readAll_spec : ∀ (fs : List Field) (r r' : SpanReader) (outs outs' : Outs fs),
    readAll fs r outs = some ⟨true, outs', r'⟩ →
    let bs := encodeAll fs (valuesOf fs r.payload outs')
    CountableAll fs (valuesOf fs r.payload outs') ∧ r' = r.advance bs.length ∧
      (r.field bs.length).length = bs.length ∧ (PlainAll fs r ↔ r.field bs.length = bs)
  | [], r, r', outs, outs', h => by
    cases h
    exact ⟨trivial, rfl, rfl, iff_of_true trivial rfl⟩
  | f :: fs, r, r', (out, outs), outs', h => by
    rw [readAll, f.call.run_eq r out] at h
    by_cases hp : f.call.Present r
    · rw [if_pos hp] at h
      simp only [Option.map_eq_some_iff] at h
      obtain ⟨⟨ok, outs', r''⟩, hrest, heq⟩ := h
      cases heq
      have hneeds := f.needs_eq hp
      obtain ⟨hcounts, hr', hlens, hplains⟩ := readAll_spec fs _ _ outs outs' hrest
      have hlen : (r.field (f.call.needs r)).length = f.call.needs r := SpanReader.length_field hp
      rw [SpanReader.advance] at hcounts hr' hlens hplains
      dsimp only [encodeAll, valuesOf, CountableAll, PlainAll] at hcounts hr' hlens hplains ⊢
      rw [List.length_append, r.field_add, ← hneeds]
      refine ⟨⟨f.countable_value hp, hcounts⟩, ?_, ?_, ?_⟩
      · rw [hr', SpanReader.advance, SpanReader.advance, Nat.add_assoc]
      · rw [List.length_append, hlen]
        exact congrArg (f.call.needs r + ·) hlens
      · have hfirst := f.plain_iff hp
        rw [← hneeds] at hfirst
        rw [hfirst]
        constructor
        · rintro ⟨hhead, htail⟩
          rw [hhead]
          exact congrArg (_ ++ ·) (hplains.mp htail)
        · intro hall
          obtain ⟨hhead, htail⟩ := List.append_inj hall (hlen.trans hneeds)
          exact ⟨hhead, hplains.mpr htail⟩
    · rw [if_neg hp] at h
      cases h

/-- **Reads** find every encoding of values that the length types can count. -/
theorem readAll_complete : ∀ (fs : List Field) (vs : Values fs) (r : SpanReader) (outs : Outs fs),
    CountableAll fs vs → r.field (encodeAll fs vs).length = encodeAll fs vs →
    ∃ outs', readAll fs r outs = some ⟨true, outs', r.advance (encodeAll fs vs).length⟩ ∧
      valuesOf fs r.payload outs' = vs
  | [], (), _, outs, _, _ => ⟨outs, rfl, rfl⟩
  | f :: fs, (v, vs), r, (out, outs), ⟨hcount, hcounts⟩, hfield => by
    rw [encodeAll, List.length_append, r.field_add] at hfield
    have hlen : (r.field (f.encode v).length).length = (f.encode v).length := by
      have htotal := congrArg List.length hfield
      rw [List.length_append, List.length_append] at htotal
      have hle := r.length_field_le (f.encode v).length
      have hle' := (r.advance (f.encode v).length).length_field_le (encodeAll fs vs).length
      omega
    obtain ⟨hfirst, hrest⟩ := List.append_inj hfield hlen
    obtain ⟨hp, hv⟩ := f.present_of_field hcount hfirst
    obtain ⟨outs', hread, hvs⟩ :=
      readAll_complete fs vs (r.advance (f.encode v).length) outs hcounts hrest
    refine ⟨(f.call.value r, outs'), ?_, Prod.ext hv hvs⟩
    rw [readAll, f.call.run_eq r out, if_pos hp]
    simp only
    rw [f.needs_eq hp, hv, hread, encodeAll, List.length_append]
    simp only [Option.map_some, SpanReader.advance, Nat.add_assoc]

/-- Only a `bool` prefix can be other than plain. -/
theorem plainAll_of_unsigned : ∀ (fs : List Field) (r : SpanReader),
    (∀ source c, .lenPrefixed .bool source c ∉ fs) → PlainAll fs r
  | [], _, _ => trivial
  | f :: fs, r, h => by
    refine ⟨?_, plainAll_of_unsigned fs _ fun source c hmem =>
      h source c (List.mem_cons_of_mem _ hmem)⟩
    match f, h with
    | .scalar _, _ => trivial
    | .lenPrefixed (.unsigned _) _ _, _ => trivial
    | .lenPrefixed .bool source c, h => exact absurd List.mem_cons_self (h source c)

/-- **A payload consumed completely** is the encoding of its values exactly when every length
    prefix is plain. -/
theorem plainAll_iff_bytes {fs : List Field} {p : Buffer} {outs outs' : Outs fs} {r : SpanReader}
    (hread : readAll fs (.ofPayload p) outs = some ⟨true, outs', r⟩) (hempty : r.empty = true) :
    PlainAll fs (.ofPayload p) ↔ p.bytes = encodeAll fs (valuesOf fs p outs') := by
  obtain ⟨-, hr, -, hplain⟩ := readAll_spec fs _ _ outs outs' hread
  have hlen : (encodeAll fs (valuesOf fs p outs')).length = p.bytes.length := by
    rw [SpanReader.empty, beq_iff_eq, hr] at hempty
    have htotal : 0 + (encodeAll fs (valuesOf fs p outs')).length = p.size := hempty
    rw [Nat.zero_add] at htotal
    exact htotal
  have hwhole : (SpanReader.ofPayload p).field (encodeAll fs (valuesOf fs p outs')).length =
      p.bytes := by
    rw [hlen]
    exact List.take_length
  exact hplain.trans (Eq.congr_left hwhole)

/-- The bytes behind the first `n`, on their own. -/
theorem field_slice {b : Buffer} {n : Nat} {bs : Bytes} (h : b.bytes.drop n = bs) :
    (SpanReader.ofPayload (b.slice n (b.size - n))).field bs.length = bs ∧
      (b.slice n (b.size - n)).size = bs.length := by
  have hslice : (b.slice n (b.size - n)).bytes = bs := by
    show (b.bytes.drop n).take (b.size - n) = bs
    rw [h]
    apply List.take_of_length_le
    rw [← h, List.length_drop]
    exact Nat.le_refl _
  refine ⟨?_, congrArg List.length hslice⟩
  rw [SpanReader.field, SpanReader.ofPayload, List.drop_zero, hslice, List.take_length]

/-! ## Results -/

/-- **Decoding after encoding.**  If the calls of the writer for any fields and values succeed, on
    any vector, the bytes that were there are unchanged, and the matching calls of a reader of the
    bytes appended succeed, whatever their `out` variables held, return the values, and leave
    nothing unread. -/
theorem schema_roundTrip (fs : List Field) (vs : Values fs) {payload payload' : Buffer}
    (h : writeAll fs vs payload = some (true, payload')) :
    payload'.bytes.take payload.size = payload.bytes ∧
    ∀ outs : Outs fs, ∃ outs' r,
      readAll fs (.ofPayload (payload'.slice payload.size (payload'.size - payload.size))) outs =
        some ⟨true, outs', r⟩ ∧
      valuesOf fs r.payload outs' = vs ∧ r.empty = true := by
  obtain ⟨hcount, hins⟩ := (writeAll_iff fs vs payload payload').mp h
  rw [Buffer.insertEnd_eq_some_iff] at hins
  have hdrop : payload'.bytes.drop payload.size = encodeAll fs vs := by
    rw [hins]
    exact List.drop_left' rfl
  obtain ⟨hfield, hsize⟩ := field_slice hdrop
  refine ⟨by rw [hins]; exact List.take_left' rfl, fun outs => ?_⟩
  obtain ⟨outs', hread, hvalues⟩ := readAll_complete fs vs _ outs hcount hfield
  refine ⟨outs', _, hread, hvalues, ?_⟩
  rw [SpanReader.empty, beq_iff_eq]
  show 0 + (encodeAll fs vs).length = (payload'.slice payload.size _).size
  rw [hsize, Nat.zero_add]

/-- A signed field of two bytes, and a string behind a length of one byte. -/
def shortAndString : List Field :=
  [.scalar (.int ⟨.two, true⟩), .lenPrefixed (.unsigned .one) .stringLike .string]

/-- The rule at `-2` and a string of one byte, behind a byte that was there. -/
theorem schema_roundTrip_short :
    ∃ payload', writeAll shortAndString (⟨-2, by decide⟩, ⟨[7], by decide⟩, ())
        ⟨[9], by decide⟩ = some (true, payload') ∧
      payload'.bytes = [9, 0xFF, 0xFE, 1, 7] ∧ payload'.bytes.take 1 = [9] :=
  ⟨_, rfl, by decide, (schema_roundTrip shortAndString (⟨-2, by decide⟩, ⟨[7], by decide⟩, ())
    (show writeAll _ _ ⟨[9], by decide⟩ = some (true, _) from rfl)).1⟩

/-- **Encoding after decoding.**  If the calls of the reader for any fields succeed, from any
    offset of any payload, the writer's calls for the values they returned append exactly the bytes
    from the old offset to the new one, on any vector with room for them, if and only if every
    length prefix of type `bool` that the reads met is a byte 0 or 1.  A payload that is consumed
    completely is the only one that the writer gives for its values under the same condition, and
    the condition holds of every payload where no length type is `bool`. -/
theorem schema_canonical_iff (fs : List Field) :
    (∀ (payload : Buffer) (a : Nat) (outs outs' : Outs fs) (r : SpanReader),
      readAll fs ⟨payload, a⟩ outs = some ⟨true, outs', r⟩ →
      a ≤ r.offset ∧ r.payload = payload ∧
      ((∀ target : Buffer, target.size + (r.offset - a) ≤ ptrdiffMax → ∃ target',
          writeAll fs (valuesOf fs payload outs') target = some (true, target') ∧
          target'.bytes = target.bytes ++ (payload.slice a (r.offset - a)).bytes) ↔
        PlainAll fs ⟨payload, a⟩)) ∧
    (∀ (p : Buffer) (outs outs' : Outs fs) (r : SpanReader),
      readAll fs (.ofPayload p) outs = some ⟨true, outs', r⟩ → r.empty = true →
      (PlainAll fs (.ofPayload p) ↔ ∀ (q : Buffer) (outs₁ outs₁' : Outs fs) (r₁ : SpanReader),
        readAll fs (.ofPayload q) outs₁ = some ⟨true, outs₁', r₁⟩ → r₁.empty = true →
        valuesOf fs p outs' = valuesOf fs q outs₁' → PlainAll fs (.ofPayload q) → p = q)) ∧
    ((∀ source c, .lenPrefixed .bool source c ∉ fs) → ∀ r, PlainAll fs r) := by
  refine ⟨fun payload a outs outs' r hread => ?_, fun p outs outs' r hp hpe => ?_,
    fun hbool r => plainAll_of_unsigned fs r hbool⟩
  · obtain ⟨hcount, hr, hlen, hplain⟩ := readAll_spec fs _ _ outs outs' hread
    have hoff : r.offset - a = (encodeAll fs (valuesOf fs payload outs')).length := by
      rw [hr]
      exact Nat.add_sub_cancel_left a _
    have hle : a ≤ r.offset := by
      rw [hr]
      exact Nat.le_add_right _ _
    have hslice : (payload.slice a (r.offset - a)).bytes =
        (SpanReader.mk payload a).field (encodeAll fs (valuesOf fs payload outs')).length := by
      rw [hoff]
      rfl
    refine ⟨hle, by rw [hr]; rfl, hplain.trans ?_ |>.symm⟩
    rw [hslice]
    constructor
    · intro hfield target hroom
      have hfits : (target.bytes ++ encodeAll fs (valuesOf fs payload outs')).length ≤
          ptrdiffMax := by
        rw [List.length_append, ← hoff]
        exact hroom
      refine ⟨⟨_, hfits⟩, ?_, congrArg (target.bytes ++ ·) hfield.symm⟩
      rw [writeAll_iff]
      exact ⟨hcount, Buffer.insertEnd_eq_some_iff.mpr rfl⟩
    · intro hall
      -- The empty vector has room: the bytes are a part of the payload.
      have hroom : Buffer.empty.size + (r.offset - a) ≤ ptrdiffMax := by
        have hsize := (payload.slice a (r.offset - a)).size_le
        rw [hslice, hlen] at hsize
        rw [hoff]
        exact (Nat.zero_add _).symm ▸ hsize
      obtain ⟨target', hwrite, hbytes⟩ := hall .empty hroom
      obtain ⟨-, hins⟩ := (writeAll_iff _ _ _ _).mp hwrite
      rw [Buffer.insertEnd_eq_some_iff, hbytes] at hins
      exact List.append_cancel_left hins
  · have hpbytes := plainAll_iff_bytes hp hpe
    constructor
    · intro hplain q outs₁ outs₁' r₁ hq hqe hsame hqplain
      apply Buffer.ext
      rw [hpbytes.mp hplain, (plainAll_iff_bytes hq hqe).mp hqplain, hsame]
    · intro hall
      obtain ⟨hcount, hr, hlen, -⟩ := readAll_spec fs _ _ outs outs' hp
      -- The writer's bytes for the values are read back as these values.
      have hsize : (encodeAll fs (valuesOf fs p outs')).length ≤ ptrdiffMax := by
        have hle := (p.slice 0 (encodeAll fs (valuesOf fs p outs')).length).size_le
        exact Nat.le_trans (Nat.le_of_eq hlen.symm) hle
      have hfield : (SpanReader.ofPayload ⟨encodeAll fs (valuesOf fs p outs'), hsize⟩).field
          (encodeAll fs (valuesOf fs p outs')).length = encodeAll fs (valuesOf fs p outs') :=
        List.take_length
      obtain ⟨outs₁', hread, hvalues⟩ :=
        readAll_complete fs (valuesOf fs p outs') (.ofPayload ⟨_, hsize⟩) outs hcount hfield
      have hempty : ((SpanReader.ofPayload ⟨encodeAll fs (valuesOf fs p outs'), hsize⟩).advance
          (encodeAll fs (valuesOf fs p outs')).length).empty = true := by
        rw [SpanReader.empty, beq_iff_eq]
        exact Nat.zero_add _
      have hqplain := (plainAll_iff_bytes hread hempty).mpr
        (show encodeAll fs (valuesOf fs p outs') = _ from congrArg (encodeAll fs) hvalues.symm)
      have heq := hall _ _ _ _ hread hempty hvalues.symm hqplain
      exact hpbytes.mpr (congrArg Buffer.bytes heq)

/-- The rule at a payload that is read from its second byte on. -/
theorem schema_canonical_iff_short :
    ∃ outs' r, readAll shortAndString ⟨⟨[9, 0xFF, 0xFE, 1, 7], by decide⟩, 1⟩
        (⟨0, by decide⟩, .empty, ()) = some ⟨true, outs', r⟩ ∧
      ∃ target', writeAll shortAndString
          (valuesOf shortAndString ⟨[9, 0xFF, 0xFE, 1, 7], by decide⟩ outs') .empty =
            some (true, target') ∧
        target'.bytes = [0xFF, 0xFE, 1, 7] := by
  have hread : readAll shortAndString ⟨⟨[9, 0xFF, 0xFE, 1, 7], by decide⟩, 1⟩
      (⟨0, by decide⟩, .empty, ()) = some ⟨true, (⟨-2, by decide⟩, ⟨[7], by decide⟩, ()),
        ⟨⟨[9, 0xFF, 0xFE, 1, 7], by decide⟩, 5⟩⟩ := rfl
  obtain ⟨hcanonical, -, hplain⟩ := schema_canonical_iff shortAndString
  obtain ⟨-, -, hwrite⟩ := hcanonical _ _ _ _ _ hread
  have hbool : ∀ source c, Field.lenPrefixed .bool source c ∉ shortAndString := by
    intro source c hmem
    simp [shortAndString] at hmem
  obtain ⟨target', hok, hbytes⟩ := hwrite.mpr (hplain hbool _) .empty (by decide)
  exact ⟨_, _, hread, target', hok, hbytes⟩

/-- A string behind a length of type `bool`. -/
def boolString : List Field := [.lenPrefixed .bool .stringLike .string]

/-- **A length prefix 5** of type `bool` is read as the length 1.  The writer gives 1 for it, which
    is not what was read, and a payload with 1 is read as the same string. -/
theorem bool_prefix_not_canonical :
    (¬ ∀ (fs : List Field) (payload : Buffer) (a : Nat) (outs outs' : Outs fs) (r : SpanReader),
      readAll fs ⟨payload, a⟩ outs = some ⟨true, outs', r⟩ →
      ∃ target', writeAll fs (valuesOf fs payload outs') .empty = some (true, target') ∧
        target'.bytes = (payload.slice a (r.offset - a)).bytes) ∧
    ¬ ∀ (fs : List Field) (p q : Buffer) (outs outs' outs₁ outs₁' : Outs fs) (r r₁ : SpanReader),
      readAll fs (.ofPayload p) outs = some ⟨true, outs', r⟩ → r.empty = true →
      readAll fs (.ofPayload q) outs₁ = some ⟨true, outs₁', r₁⟩ → r₁.empty = true →
      valuesOf fs p outs' = valuesOf fs q outs₁' → p = q := by
  have hfive : readAll boolString ⟨⟨[5, 0x61], by decide⟩, 0⟩ (.empty, ()) =
      some ⟨true, (⟨[0x61], by decide⟩, ()), ⟨⟨[5, 0x61], by decide⟩, 2⟩⟩ := rfl
  have hone : readAll boolString ⟨⟨[1, 0x61], by decide⟩, 0⟩ (.empty, ()) =
      some ⟨true, (⟨[0x61], by decide⟩, ()), ⟨⟨[1, 0x61], by decide⟩, 2⟩⟩ := rfl
  constructor
  · intro hall
    obtain ⟨target', hwrite, hbytes⟩ := hall boolString _ _ _ _ _ hfive
    obtain ⟨-, hins⟩ := (writeAll_iff _ _ _ _).mp hwrite
    rw [Buffer.insertEnd_eq_some_iff, hbytes] at hins
    exact absurd hins (by decide)
  · intro hall
    have hsame := hall boolString _ _ _ _ _ _ _ _ hfive rfl hone rfl rfl
    exact absurd (congrArg Buffer.bytes hsame) (by decide)

end Zem.ByteCodec
