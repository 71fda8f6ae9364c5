import Zem.Protocol.Header

/-!
# ByteCodec: the payload reader and writer

Reference model of `Protocol/Common/ByteCodec.hpp`.  Lengths and offsets are natural numbers;
an integer type of `w` bytes is given by its width and its values by their unsigned bits.

* `Reader` — the payload and the read offset.  Every read returns the reader it leaves behind,
  a failed one included.
* `readUnsigned_of_canRead`, `readLenPrefixed_spec` — what a read takes off the unread bytes.
* `writeUnsigned` — the writer appends to the payload vector; `writeUnsigned_eq` gives the bytes.
-/

set_option autoImplicit false

namespace Zem.ByteCodec

/-- The largest value of an unsigned type of `w` bytes. -/
def maxUnsigned (w : Nat) : Nat := 256 ^ w - 1

/-! ## Reader -/

/-- `class Reader`: `m_payload` and `m_offset`. -/
structure Reader where
  payload : Bytes
  offset : Nat
  deriving DecidableEq, Repr

namespace Reader

/-- The constructors: a reader at the start of a payload. -/
def ofPayload (payload : Bytes) : Reader := ⟨payload, 0⟩

/-- `Empty`. -/
def empty (r : Reader) : Bool := r.offset == r.payload.length

/-- `CanRead`. -/
def canRead (r : Reader) (length : Nat) : Bool :=
  decide (r.offset ≤ r.payload.length) && decide (r.payload.length - r.offset ≥ length)

/-- `ReadUnsigned` of a type of `w` bytes. -/
def readUnsigned (w : Nat) (r : Reader) : Option Nat × Reader :=
  if !r.canRead w then (none, r)
  else
    let value := (List.range w).foldl
      (fun value i => (value <<< 8 ||| (r.payload.getD (r.offset + i) 0).toNat) % 2 ^ (8 * w)) 0
    (some value, { r with offset := r.offset + w })

/-- `ReadLenPrefixedPayload`: the overloads differ only in the container of the bytes. -/
def readLenPrefixedPayload (length : Nat) (r : Reader) : Option Bytes × Reader :=
  if !r.canRead length then (none, r)
  else (some ((r.payload.drop r.offset).take length), { r with offset := r.offset + length })

/-- `ReadLenPrefixed` with a length type of `w` bytes. -/
def readLenPrefixed (w : Nat) (r : Reader) : Option Bytes × Reader :=
  match r.readUnsigned w with
  | (none, r) => (none, r)
  | (some length, r) => r.readLenPrefixedPayload length

/-- The unread bytes. -/
def unread (r : Reader) : Bytes := r.payload.drop r.offset

theorem canRead_iff (r : Reader) (length : Nat) :
    r.canRead length = true ↔ r.offset + length ≤ r.payload.length := by
  simp only [canRead, Bool.and_eq_true, decide_eq_true_eq]
  omega

theorem empty_iff (r : Reader) (h : r.offset ≤ r.payload.length) :
    r.empty = true ↔ r.unread = [] := by
  rw [empty, beq_iff_eq, unread, List.drop_eq_nil_iff]
  omega

/-- Indexing `w` bytes from the offset on is taking them off the unread bytes. -/
theorem map_getD_eq_take (r : Reader) {w : Nat} (h : r.offset + w ≤ r.payload.length) :
    (List.range w).map (fun i => r.payload.getD (r.offset + i) 0) = r.unread.take w := by
  apply List.ext_getElem
  · simp only [List.length_map, List.length_range, unread, List.length_take, List.length_drop]
    omega
  · intro i h1 h2
    have hi : i < w := by simpa using h1
    have hin : r.offset + i < r.payload.length := by omega
    simp [unread, List.getD_eq_getElem?_getD, List.getElem?_eq_getElem hin]

theorem readUnsigned_of_canRead (r : Reader) {w : Nat} (h : r.canRead w = true) :
    r.readUnsigned w =
      (some (BigEndian.ofBytes (r.unread.take w)), { r with offset := r.offset + w }) := by
  have hlen := (r.canRead_iff w).mp h
  have htake : (r.unread.take w).length ≤ w := List.length_take_le _ _
  have hloop := BigEndian.ofBytes_eq_foldl_or htake
  rw [← r.map_getD_eq_take hlen, List.foldl_map] at hloop
  rw [readUnsigned, h, ← r.map_getD_eq_take hlen, ← hloop]
  rfl

theorem readUnsigned_of_not_canRead (r : Reader) {w : Nat} (h : r.canRead w = false) :
    r.readUnsigned w = (none, r) := by
  rw [readUnsigned, h]
  rfl

/-- **A length-prefixed read** succeeds with `bs` exactly when the unread bytes are a length
    field that denotes `bs.length`, `bs` itself, and the bytes left unread. -/
theorem readLenPrefixed_spec (r r' : Reader) (w : Nat) (bs : Bytes) :
    r.readLenPrefixed w = (some bs, r') ↔
      bs.length < 256 ^ w ∧ r.unread = BigEndian.toBytes w bs.length ++ bs ++ r'.unread ∧
        r' = { r with offset := r.offset + w + bs.length } ∧
        r'.offset ≤ r.payload.length := by
  constructor
  · intro h
    unfold readLenPrefixed at h
    cases hc : r.canRead w with
    | false =>
      rw [r.readUnsigned_of_not_canRead hc] at h
      cases h
    | true =>
      have hlen := (r.canRead_iff w).mp hc
      rw [r.readUnsigned_of_canRead hc] at h
      simp only [readLenPrefixedPayload] at h
      split at h
      · cases h
      · rename_i hbody
        have hbody := (canRead_iff _ _).mp (by simpa using hbody)
        simp only [Prod.mk.injEq, Option.some.injEq] at h
        obtain ⟨hbs, hr'⟩ := h
        have hfield : (r.unread.take w).length = w := by
          simp only [unread, List.length_take, List.length_drop]
          omega
        have hn : bs.length = BigEndian.ofBytes (r.unread.take w) := by
          rw [← hbs, List.length_take, List.length_drop]
          simp only at hbody ⊢
          omega
        have hlt := BigEndian.ofBytes_lt (r.unread.take w)
        have hback := BigEndian.toBytes_ofBytes (r.unread.take w)
        rw [hfield] at hlt hback
        refine ⟨by omega, ?_, by rw [← hr', hn], ?_⟩
        · have hskip : r.payload.drop (r.offset + w) = r.unread.drop w := by
            rw [unread, List.drop_drop]
          have hend : r'.unread = (r.unread.drop w).drop bs.length := by
            rw [← hr', ← hn, unread, unread, List.drop_drop, List.drop_drop, Nat.add_assoc]
          rw [hskip, ← hn] at hbs
          calc r.unread = r.unread.take w ++ r.unread.drop w := (List.take_append_drop ..).symm
            _ = BigEndian.toBytes w bs.length ++ (bs ++ r'.unread) := by
                rw [hn, hback, hend]
                conv_lhs => rw [← List.take_append_drop bs.length (r.unread.drop w), hbs]
            _ = _ := (List.append_assoc ..).symm
        · rw [← hr']
          exact hbody
  · rintro ⟨hlt, hun, hr', hle⟩
    have hoff : r'.offset = r.offset + w + bs.length := by rw [hr']
    have hc : r.canRead w = true := (r.canRead_iff w).mpr (by omega)
    have hfield : r.unread.take w = BigEndian.toBytes w bs.length := by
      rw [hun, List.append_assoc]
      exact List.take_left' (BigEndian.length_toBytes w _)
    have hrest : r.payload.drop (r.offset + w) = bs ++ r'.unread := by
      have hdrop : r.unread.drop w = bs ++ r'.unread := by
        rw [hun, List.append_assoc]
        exact List.drop_left' (BigEndian.length_toBytes w _)
      rwa [unread, List.drop_drop] at hdrop
    have hbody : ({ r with offset := r.offset + w } : Reader).canRead bs.length = true :=
      (canRead_iff _ _).mpr (by simp only; omega)
    unfold readLenPrefixed
    rw [r.readUnsigned_of_canRead hc, hfield, BigEndian.ofBytes_toBytes_of_lt hlt]
    simp only [readLenPrefixedPayload, hbody, Bool.not_true, Bool.false_eq_true, if_false]
    rw [hrest, List.take_left' rfl, ← hr']

end Reader

/-! ## Writer -/

/-- `WriteUnsigned` of a type of `w` bytes. -/
def writeUnsigned (w value : Nat) (payload : Bytes) : Bytes :=
  (List.range w).foldl
    (fun payload i => payload ++ [UInt8.ofNat (value >>> ((w - 1 - i) * 8) &&& 0xFF)]) payload

theorem writeUnsigned_eq (w value : Nat) (payload : Bytes) :
    writeUnsigned w value payload = payload ++ BigEndian.toBytes w value := by
  have happ : ∀ (l : List Nat) (f : Nat → UInt8) (p : Bytes),
      l.foldl (fun p i => p ++ [f i]) p = p ++ l.map f := by
    intro l f
    induction l with
    | nil => simp
    | cons i l ih => intro p; simp [ih]
  rw [writeUnsigned, happ, ← BigEndian.toBytes_eq_range]

end Zem.ByteCodec
