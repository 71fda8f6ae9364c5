import Zem.Protocol.Schema

/-!
# ByteCodec::Writer: sequences of calls, some of which fail

A caller of the writer may go on after a call that returned `false`.

* `WriteCall` — a call of any type; `run_eq` — its result.
* `writeCalls` — a sequence of calls, whatever their results.
* `writer_exact` — which calls fail, and what the payload holds after any sequence.
-/

set_option autoImplicit false

namespace Zem.ByteCodec

namespace Buffer

theorem write_eq (t : ScalarType) (value : t.Value) (payload : Buffer) :
    payload.write t value =
      (payload.insertEnd (BigEndian.toBytes t.width.size (t.toBits value).toNat)).map
        (true, ·) := by
  rw [write, writePayload, writeUnsigned_eq]
  cases payload.insertEnd (BigEndian.toBytes t.width.size (t.toBits value).toNat) <;> rfl

end Buffer

/-! ## Calls -/

/-- A call of the writer. -/
inductive WriteCall where
  | write (t : ScalarType) (value : t.Value)
  | writeLenPrefixed (lengthType : LengthType) (source : Source) (value : Buffer)

namespace WriteCall

def run : WriteCall → Buffer → Option (Bool × Buffer)
  | write t value, payload => payload.write t value
  | writeLenPrefixed lengthType source value, payload =>
    payload.writeLenPrefixedAs lengthType source value

/-- The length type can count the bytes; a scalar has none to count. -/
def fits : WriteCall → Bool
  | write _ _ => true
  | writeLenPrefixed lengthType _ value => value.size ≤ lengthType.max

/-- The bytes that the call stands for. -/
def encode : WriteCall → Bytes
  | write t value => BigEndian.toBytes t.width.size (t.toBits value).toNat
  | writeLenPrefixed lengthType _ value =>
    BigEndian.toBytes lengthType.size value.size ++ value.bytes

/-- **One call** appends its encoding, or returns `false` and appends nothing. -/
theorem run_eq (c : WriteCall) (payload : Buffer) :
    c.run payload =
      if c.fits then (payload.insertEnd c.encode).map (true, ·) else some (false, payload) := by
  cases c with
  | write t value => exact Buffer.write_eq t value payload
  | writeLenPrefixed lengthType source value =>
    rw [run, Buffer.writeLenPrefixedAs_eq, fits]
    simp only [decide_eq_true_eq]
    rfl

theorem run_iff (c : WriteCall) (payload payload' : Buffer) (ok : Bool) :
    c.run payload = some (ok, payload') ↔
      ok = c.fits ∧ payload'.bytes = payload.bytes ++ if ok then c.encode else [] := by
  rw [run_eq]
  cases hf : c.fits with
  | true =>
    simp only [if_true, Option.map_eq_some_iff, Prod.mk.injEq, Buffer.insertEnd_eq_some_iff]
    constructor
    · rintro ⟨b, hb, rfl, rfl⟩
      exact ⟨rfl, hb⟩
    · rintro ⟨rfl, hb⟩
      exact ⟨payload', hb, rfl, rfl⟩
  | false =>
    simp only [Bool.false_eq_true, if_false, Option.some.injEq, Prod.mk.injEq]
    constructor
    · rintro ⟨rfl, rfl⟩
      exact ⟨rfl, (List.append_nil _).symm⟩
    · rintro ⟨rfl, hb⟩
      refine ⟨rfl, Buffer.ext ?_⟩
      rw [hb]
      exact (List.append_nil _).symm

end WriteCall

/-- A sequence of calls, each made whatever the ones before it returned. -/
def writeCalls : List WriteCall → Buffer → Option (List Bool × Buffer)
  | [], payload => some ([], payload)
  | c :: cs, payload =>
    match c.run payload with
    | some (ok, payload) => (writeCalls cs payload).map fun p => (ok :: p.1, p.2)
    | none => none

/-- The calls that returned `true`. -/
def succeeded (calls : List WriteCall) (oks : List Bool) : List WriteCall :=
  ((calls.zip oks).filter Prod.snd).map Prod.fst

theorem succeeded_cons (c : WriteCall) (calls : List WriteCall) (ok : Bool) (oks : List Bool) :
    (succeeded (c :: calls) (ok :: oks)).flatMap WriteCall.encode =
      (if ok then c.encode else []) ++ (succeeded calls oks).flatMap WriteCall.encode := by
  cases ok with
  | true => simp [succeeded]
  | false => simp [succeeded]

/-- **A sequence of calls** appends the encodings of those that returned `true`, in order. -/
theorem writeCalls_iff (calls : List WriteCall) (payload payload' : Buffer) (oks : List Bool) :
    writeCalls calls payload = some (oks, payload') ↔
      oks = calls.map WriteCall.fits ∧
        payload'.bytes = payload.bytes ++ (succeeded calls oks).flatMap WriteCall.encode := by
  induction calls generalizing payload oks with
  | nil =>
    simp only [writeCalls, Option.some.injEq, Prod.mk.injEq, List.map_nil]
    constructor
    · rintro ⟨rfl, rfl⟩
      exact ⟨rfl, (List.append_nil _).symm⟩
    · rintro ⟨rfl, hb⟩
      refine ⟨rfl, Buffer.ext ?_⟩
      rw [hb]
      exact (List.append_nil _).symm
  | cons c calls ih =>
    rw [writeCalls]
    constructor
    · intro h
      split at h
      · rename_i ok b hrun
        obtain ⟨⟨oks', b'⟩, hrest, heq⟩ := Option.map_eq_some_iff.mp h
        cases heq
        obtain ⟨hok, hb⟩ := (c.run_iff payload b ok).mp hrun
        obtain ⟨hoks, hb'⟩ := (ih b oks').mp hrest
        refine ⟨by rw [hok, hoks, List.map_cons], ?_⟩
        rw [hb', hb, succeeded_cons, List.append_assoc]
      · cases h
    · rintro ⟨rfl, hb⟩
      rw [List.map_cons, succeeded_cons, ← List.append_assoc] at hb
      -- the payload in between is a prefix of the last one, so it has room
      have hroom : (payload.bytes ++ if c.fits then c.encode else []).length ≤ ptrdiffMax := by
        have hsize := payload'.size_le
        rw [hb, List.length_append] at hsize
        omega
      have hrun : c.run payload = some (c.fits, ⟨_, hroom⟩) :=
        (c.run_iff payload ⟨_, hroom⟩ c.fits).mpr ⟨rfl, rfl⟩
      have hrest := (ih ⟨_, hroom⟩ (calls.map WriteCall.fits)).mpr ⟨rfl, hb⟩
      rw [hrun]
      simp only [hrest]
      rfl

/-! ## Result -/

/-- **Failures are clean, and success is exact.**  `WriteLenPrefixed` returns `false` exactly when
    the size of the value exceeds the maximum of the length type, and then the payload is what it
    was; it returns `true` exactly when it does not, and then the size in big-endian and the bytes
    of the value stand behind what the payload held.  After any sequence of calls, whatever their
    results, the payload is what it was and the encodings of exactly the calls that returned
    `true`, in order. -/
theorem writer_exact (payload : Buffer) :
    (∀ (lengthType : LengthType) (source : Source) (value payload' : Buffer),
      (payload.writeLenPrefixedAs lengthType source value = some (false, payload') ↔
        lengthType.max < value.size ∧ payload' = payload) ∧
      (payload.writeLenPrefixedAs lengthType source value = some (true, payload') ↔
        value.size ≤ lengthType.max ∧
          payload'.bytes =
            payload.bytes ++ BigEndian.toBytes lengthType.size value.size ++ value.bytes)) ∧
    ∀ (calls : List WriteCall) (oks : List Bool) (payload' : Buffer),
      writeCalls calls payload = some (oks, payload') ↔
        oks = calls.map WriteCall.fits ∧
          payload'.bytes =
            payload.bytes ++ (succeeded calls oks).flatMap WriteCall.encode := by
  refine ⟨fun lengthType source value payload' => ?_,
    fun calls oks payload' => writeCalls_iff calls payload payload' oks⟩
  have hrun := (WriteCall.writeLenPrefixed lengthType source value).run_iff payload payload'
  have hfits : (WriteCall.writeLenPrefixed lengthType source value).fits =
      decide (value.size ≤ lengthType.max) := rfl
  constructor
  · refine (hrun false).trans ?_
    rw [hfits, eq_comm, decide_eq_false_iff_not, Nat.not_le]
    refine and_congr_right fun _ => ⟨fun hb => Buffer.ext ?_, fun hb => ?_⟩
    · rw [hb]
      exact List.append_nil _
    · rw [hb]
      exact (List.append_nil _).symm
  · refine (hrun true).trans ?_
    rw [hfits, eq_comm, decide_eq_true_eq, List.append_assoc]
    rfl

end Zem.ByteCodec
