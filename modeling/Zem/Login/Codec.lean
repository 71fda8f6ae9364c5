import Zem.Protocol.ByteCodec
import Zem.Protocol.Frame

/-!
# The login payload codec

Reference model of `Core/Domain/LoginResult.hpp`, `Protocol/Login/V1/LoginCodec.cpp` and
`Protocol/Login/LoginCodec.cpp`:

* `V1.decodeRequest`, `V1.encodeResponse` — the version 1 codec.
* `LoginCodec.decodeRequest`, `LoginCodec.encodeResponse` — the dispatch on the api version.
* `V1.decodeRequest_iff` — a payload is decoded to `id` and `password` exactly when it is the
  two length-prefixed fields and nothing else.
-/

set_option autoImplicit false

namespace Zem

open ByteCodec

/-- `enum class LoginResult`. -/
inductive LoginResult where
  | success
  | invalidCredentials
  | accountLocked
  deriving DecidableEq, Repr

def LoginResult.code : LoginResult → UInt32
  | success => 0
  | invalidCredentials => 1
  | accountLocked => 2

structure LoginRequestDto where
  id : Bytes
  password : Bytes
  deriving DecidableEq, Repr

namespace V1

/-- `V1::LoginCodec::DecodeRequest`. -/
def decodeRequest (payload : Bytes) : Option LoginRequestDto :=
  let reader := Reader.ofPayload payload
  match reader.readLenPrefixed 4 with
  | (none, _) => none
  | (some id, reader) =>
    match reader.readLenPrefixed 4 with
    | (none, _) => none
    | (some password, reader) => if !reader.empty then none else some ⟨id, password⟩

/-- `V1::LoginCodec::EncodeResponse`, on the underlying value of `response.result_code`. -/
def encodeResponse (resultCode : UInt32) : Option Bytes :=
  some (writeUnsigned 4 resultCode.toNat [])

end V1

namespace LoginCodec

def decodeRequest (apiVersion : UInt16) (payload : Bytes) : Option LoginRequestDto :=
  if apiVersion = ApiVersion.v1 then V1.decodeRequest payload else none

def encodeResponse (apiVersion : UInt16) (resultCode : LoginResult) : Option Bytes :=
  if apiVersion = ApiVersion.v1 then V1.encodeResponse resultCode.code else none

end LoginCodec

/-! ## What the decoder accepts -/

/-- A field behind its big-endian 32-bit length. -/
def lenPrefixed (field : Bytes) : Bytes := BigEndian.toBytes 4 field.length ++ field

/-- The payload is the id and the password, each behind its length. -/
structure IsLoginRequest (payload id password : Bytes) : Prop where
  id_lt : id.length < 256 ^ 4
  password_lt : password.length < 256 ^ 4
  eq : payload = lenPrefixed id ++ lenPrefixed password

theorem length_lenPrefixed (field : Bytes) : (lenPrefixed field).length = 4 + field.length := by
  simp [lenPrefixed]

theorem V1.decodeRequest_sound {payload : Bytes} {dto : LoginRequestDto}
    (h : V1.decodeRequest payload = some dto) : IsLoginRequest payload dto.id dto.password := by
  unfold V1.decodeRequest at h
  simp only at h
  split at h
  · cases h
  · rename_i id r₁ hid
    split at h
    · cases h
    · rename_i password r₂ hpw
      split at h
      · cases h
      · rename_i hempty
        cases h
        obtain ⟨hid_lt, hid_eq, hr₁, hr₁_le⟩ := (Reader.readLenPrefixed_spec _ _ _ _).mp hid
        obtain ⟨hpw_lt, hpw_eq, hr₂, hr₂_le⟩ := (Reader.readLenPrefixed_spec _ _ _ _).mp hpw
        have hpay : r₂.payload = r₁.payload := by rw [hr₂]
        have hend : r₂.unread = [] :=
          (r₂.empty_iff (hpay ▸ hr₂_le)).mp (by simpa using hempty)
        refine ⟨hid_lt, hpw_lt, ?_⟩
        rw [hend, List.append_nil] at hpw_eq
        rw [hpw_eq] at hid_eq
        exact hid_eq

theorem V1.decodeRequest_complete {payload id password : Bytes}
    (h : IsLoginRequest payload id password) :
    V1.decodeRequest payload = some ⟨id, password⟩ := by
  obtain ⟨hid_lt, hpw_lt, rfl⟩ := h
  have hl := length_lenPrefixed id
  have hl' := length_lenPrefixed password
  generalize hp : lenPrefixed id ++ lenPrefixed password = payload
  have hlen : payload.length = 4 + id.length + (4 + password.length) := by
    rw [← hp, List.length_append, hl, hl']
  have hdrop : payload.drop (4 + id.length) = lenPrefixed password := by
    rw [← hp]
    exact List.drop_left' hl
  have hid : (Reader.ofPayload payload).readLenPrefixed 4 =
      (some id, ⟨payload, 4 + id.length⟩) := by
    refine (Reader.readLenPrefixed_spec _ _ _ _).mpr ⟨hid_lt, ?_, ?_, ?_⟩
    · simp only [Reader.unread, Reader.ofPayload, List.drop_zero, hdrop]
      exact hp.symm
    · simp [Reader.ofPayload]
    · simp only [Reader.ofPayload]
      omega
  have hpw : (⟨payload, 4 + id.length⟩ : Reader).readLenPrefixed 4 =
      (some password, ⟨payload, payload.length⟩) := by
    refine (Reader.readLenPrefixed_spec _ _ _ _).mpr ⟨hpw_lt, ?_, ?_, ?_⟩
    · simp only [Reader.unread, hdrop, List.drop_length, List.append_nil]
      rfl
    · simp only [hlen, Nat.add_assoc]
    · exact Nat.le_refl _
  unfold V1.decodeRequest
  simp only [hid, hpw]
  simp [Reader.empty]

/-- **The decoder accepts exactly the two length-prefixed fields.** -/
theorem V1.decodeRequest_iff (payload id password : Bytes) :
    V1.decodeRequest payload = some ⟨id, password⟩ ↔ IsLoginRequest payload id password :=
  ⟨fun h => V1.decodeRequest_sound h, V1.decodeRequest_complete⟩

/-- A payload is the request of at most one id and password. -/
theorem IsLoginRequest.unique {payload id password id' password' : Bytes}
    (h : IsLoginRequest payload id password) (h' : IsLoginRequest payload id' password') :
    id = id' ∧ password = password' := by
  have := (V1.decodeRequest_complete h).symm.trans (V1.decodeRequest_complete h')
  cases this
  exact ⟨rfl, rfl⟩

theorem LoginCodec.decodeRequest_eq_some {apiVersion : UInt16} {payload : Bytes}
    {dto : LoginRequestDto} : LoginCodec.decodeRequest apiVersion payload = some dto ↔
      apiVersion = ApiVersion.v1 ∧ IsLoginRequest payload dto.id dto.password := by
  unfold LoginCodec.decodeRequest
  split
  · rename_i hv
    simp only [hv, true_and]
    exact V1.decodeRequest_iff payload dto.id dto.password
  · rename_i hv
    simp [hv]

/-! ## The response body -/

/-- The body of a response is the four big-endian bytes of the result and nothing else. -/
theorem V1.encodeResponse_eq (resultCode : UInt32) :
    V1.encodeResponse resultCode = some (BigEndian.toBytes 4 resultCode.toNat) := by
  rw [V1.encodeResponse, writeUnsigned_eq, List.nil_append]

end Zem
