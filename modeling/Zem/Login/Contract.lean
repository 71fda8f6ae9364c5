import Zem.Login.Handler

/-!
# The login response against its published contract

`Document/api_specification.md` and the comment on top of `LoginCodec.cpp` give the response body
as `| Len = 4 | Login Result |` with `Success = 1`; `EncodeResponse` writes the result alone, and
the enumeration starts with `Success = 0`.

* `ApiSpecification` — the documented body and the client that reads it.
* `readResult_encodeResponse` — no response body is read back, whatever the result.
* `loginResponse_meets_spec_iff` — the contract is met only where there is no response at all.
-/

set_option autoImplicit false

namespace Zem

open ByteCodec

namespace ApiSpecification

/-- The documented `LoginResult::Success`. -/
def success : UInt32 := 1

/-- The documented response body. -/
def responseBody (result : UInt32) : Bytes :=
  BigEndian.toBytes 4 4 ++ BigEndian.toBytes 4 result.toNat

/-- A client: `ReadLenPrefixed`, then `Empty`, then a result of four bytes. -/
def readResult (body : Bytes) : Option UInt32 :=
  match (Reader.ofPayload body).readLenPrefixed 4 with
  | (none, _) => none
  | (some field, reader) =>
    if reader.empty && field.length == 4 then
      some (UInt32.ofNat (BigEndian.ofBytes field))
    else none

theorem readLenPrefixed_whole (field : Bytes) (h : field.length < 256 ^ 4) :
    (Reader.ofPayload (lenPrefixed field)).readLenPrefixed 4 =
      (some field, ⟨lenPrefixed field, (lenPrefixed field).length⟩) := by
  have hl := length_lenPrefixed field
  refine (Reader.readLenPrefixed_spec _ _ _ _).mpr ⟨h, ?_, ?_, Nat.le_refl _⟩
  · simp only [Reader.unread, Reader.ofPayload, List.drop_zero, List.drop_length, List.append_nil]
    rfl
  · simp only [Reader.ofPayload, hl, Nat.zero_add]

/-- The documented body does carry every 32-bit result to the client. -/
theorem readResult_responseBody (result : UInt32) :
    readResult (responseBody result) = some result := by
  have hbody : responseBody result = lenPrefixed (BigEndian.toBytes 4 result.toNat) := by
    rw [responseBody, lenPrefixed, BigEndian.length_toBytes]
  have hlt : result.toNat < 256 ^ 4 := result.toNat_lt
  rw [readResult, hbody, readLenPrefixed_whole _ (by simp)]
  simp [Reader.empty, BigEndian.ofBytes_toBytes_of_lt hlt]

end ApiSpecification

open ApiSpecification

/-- A response body without the length in front is never read back. -/
theorem readResult_encodeResponse (result : UInt32) :
    readResult (BigEndian.toBytes 4 result.toNat) = none := by
  unfold readResult
  split
  · rfl
  · rename_i field reader hread
    obtain ⟨_, hun, hreader, hle⟩ := (Reader.readLenPrefixed_spec _ _ _ _).mp hread
    -- the four bytes of the result are all taken for the length
    have hfield : field.length = 0 := by
      rw [hreader] at hle
      simp only [Reader.ofPayload, BigEndian.length_toBytes] at hle
      omega
    rw [hfield]
    simp

/-- The contract, for one request: each response sent has the documented body, is read back by a
    client, and reads as the documented `Success` exactly when the stored password is the
    request's. -/
def MeetsSpec (db : Bytes → DbOutcome) (apiVersion : UInt16) (payload : Bytes) : Prop :=
  ∀ a, .send a ∈ ((loginTask apiVersion payload).resolve db).1 →
    ∃ body result, a.body = some body ∧ body = responseBody result ∧
      readResult body = some result ∧
      ∀ id password, IsLoginRequest payload id password →
        (result = ApiSpecification.success ↔
          ((getPassword id).resolve db).2 = .returned (some password))

/-- Whatever the repository answers, the response to a well-formed request breaks the contract. -/
theorem not_meetsSpec_of_request (db : Bytes → DbOutcome) {payload id password : Bytes}
    (hreq : IsLoginRequest payload id password) : ¬ MeetsSpec db ApiVersion.v1 payload := by
  intro hmeets
  have hdec : LoginCodec.decodeRequest ApiVersion.v1 payload = some ⟨id, password⟩ :=
    LoginCodec.decodeRequest_eq_some.mpr ⟨rfl, hreq⟩
  have hsent := loginTask_resolve_some db hdec
  obtain ⟨body, result, hbody, hspec, _⟩ :=
    hmeets (loginResponse ApiVersion.v1 (loginResult (db id) password))
      (by rw [hsent]; exact List.mem_singleton.mpr rfl)
  -- the response sent is four bytes long, the documented one eight
  rw [loginResponse, Option.some.injEq] at hbody
  have hlen := congrArg List.length (hbody.trans hspec)
  simp [responseBody] at hlen

/-- **The contract is met exactly by the requests that get no response**, and no response body
    is read back by a client. -/
theorem loginResponse_meets_spec_iff (db : Bytes → DbOutcome) (apiVersion : UInt16)
    (payload : Bytes) :
    (MeetsSpec db apiVersion payload ↔
      ¬ (apiVersion = ApiVersion.v1 ∧ ∃ id password, IsLoginRequest payload id password)) ∧
    ∀ result body, V1.encodeResponse result = some body → readResult body = none := by
  refine ⟨⟨?_, ?_⟩, ?_⟩
  · rintro hmeets ⟨rfl, id, password, hreq⟩
    exact not_meetsSpec_of_request db hreq hmeets
  · intro hno a ha
    rw [loginTask_sends_nothing db hno] at ha
    cases ha
  · intro result body hbody
    rw [V1.encodeResponse_eq, Option.some.injEq] at hbody
    rw [← hbody]
    exact readResult_encodeResponse result

/-- The right credentials of an account, and a response that breaks the contract. -/
theorem right_credentials_break_contract :
    IsLoginRequest (lenPrefixed [97] ++ lenPrefixed [98]) [97] [98] ∧
      ¬ MeetsSpec (fun _ => .leased (.row .ok [98])) ApiVersion.v1
        (lenPrefixed [97] ++ lenPrefixed [98]) := by
  have hreq : IsLoginRequest (lenPrefixed [97] ++ lenPrefixed [98]) [97] [98] :=
    ⟨by decide, by decide, rfl⟩
  exact ⟨hreq, not_meetsSpec_of_request _ hreq⟩

end Zem
