import Zem.Library.Coroutine
import Zem.Login.Codec

/-!
# The login request: repository, use case and handler

Reference model of `PostgresAccountRepository::GetPassword`, `LoginUseCase::ValidateCredentials`
and `LoginHandler::operator()`.  The connection pool and the database are outside the program:
`DbOutcome` lists what one call of `GetPassword` can meet there, and the coroutines await it as
the answer to the id they ask for.

* `getPassword`, `validateCredentials`, `loginHandler` — the three coroutines.
* `loginTask_segment_none`, `loginTask_some` — the handler suspends once, and only on a
  well-formed request.
* `loginHandler_correct` — the handler answers exactly the well-formed version 1 requests, once,
  with `Success` exactly when the repository returned the request's password.
-/

set_option autoImplicit false

namespace Zem

/-! ## The database as the repository meets it -/

/-- `soci::indicator`. -/
inductive Indicator where
  | ok
  | null
  | truncated
  deriving DecidableEq, Repr

/-- The query of a leased session. -/
inductive QueryOutcome where
  | threw
  | noData
  | row (ind : Indicator) (stored : Bytes)
  deriving DecidableEq, Repr

/-- What one call of `GetPassword` meets. -/
inductive DbOutcome where
  | nullPool
  | leaseTimeout
  | leaseThrew
  | leased (query : QueryOutcome)
  deriving DecidableEq, Repr

/-- The `try` block of `GetPassword`: every failure leaves `password` empty. -/
def DbOutcome.password : DbOutcome → Option Bytes
  | nullPool | leaseTimeout | leaseThrew => none
  | leased .threw => none
  | leased .noData => none
  | leased (.row ind stored) => if ind = .ok then some stored else none

/-- A coroutine of the login path: it asks the database for ids and calls the connection. -/
abbrev LoginTask (α : Type) := Coroutine Bytes DbOutcome ConnCall α

/-- `PostgresAccountRepository::GetPassword`. -/
def getPassword (id : Bytes) : LoginTask (Option Bytes) :=
  .await id fun outcome => .ret outcome.password

/-! ## The use case and the handler -/

/-- `LoginUseCase::ValidateCredentials`. -/
def validateCredentials (id password : Bytes) : LoginTask LoginResult :=
  (getPassword id).bind fun storedPw =>
    match storedPw with
    | some stored => .ret (if stored = password then .success else .invalidCredentials)
    | none => .ret .invalidCredentials

/-- `ILoginUseCase`, given by its one method. -/
abbrev ILoginUseCase := Bytes → Bytes → LoginTask LoginResult

/-- `LoginHandler::operator()`.  A null pointer is `none` for the use case and the payload, and
    `false` for the connection. -/
def loginHandler (usecase : Option ILoginUseCase) (connection : Bool) (apiVersion : UInt16)
    (dataBuf : Option Bytes) : LoginTask Unit :=
  match usecase with
  | none => .ret ()
  | some usecase =>
    match dataBuf with
    | none => .ret ()
    | some payload =>
      match LoginCodec.decodeRequest apiVersion payload with
      | none => .ret ()
      | some requestDto =>
        (usecase requestDto.id requestDto.password).bind fun resultCode =>
          match LoginCodec.encodeResponse apiVersion resultCode with
          | none => .ret ()
          | some body =>
            if connection then .perform (.send ⟨.login, some body, apiVersion⟩) (.ret ())
            else .ret ()

/-- The result of a request for the password `password`, by the repository's answer. -/
def loginResult (outcome : DbOutcome) (password : Bytes) : LoginResult :=
  match outcome.password with
  | some stored => if stored = password then .success else .invalidCredentials
  | none => .invalidCredentials

/-- The one frame of a response. -/
def loginResponse (apiVersion : UInt16) (result : LoginResult) : SendArgs :=
  ⟨.login, some (BigEndian.toBytes 4 result.code.toNat), apiVersion⟩

theorem loginResult_success_iff (outcome : DbOutcome) (password : Bytes) :
    loginResult outcome password = .success ↔ outcome.password = some password := by
  unfold loginResult
  split
  · rename_i stored hs
    rw [hs]
    constructor
    · intro h
      split at h
      · rename_i heq
        rw [heq]
      · cases h
    · intro h
      cases h
      exact if_pos rfl
  · rename_i hs
    rw [hs]
    constructor
    · intro h
      cases h
    · intro h
      cases h

theorem getPassword_resolve (db : Bytes → DbOutcome) (id : Bytes) :
    (getPassword id).resolve db = ([], .returned (db id).password) := rfl

/-! ## The handler as `MakeSession` installs it -/

/-- The handler with a configured use case, called by a session with itself and a payload. -/
def loginTask (apiVersion : UInt16) (payload : Bytes) : LoginTask Unit :=
  loginHandler (some validateCredentials) true apiVersion (some payload)

theorem loginTask_segment_none {apiVersion : UInt16} {payload : Bytes}
    (h : LoginCodec.decodeRequest apiVersion payload = none) :
    (loginTask apiVersion payload).segment = ([], .returned ()) := by
  simp only [loginTask, loginHandler, h]
  rfl

/-- On a well-formed request the handler asks for the id; the answer makes it send the response
    and return. -/
theorem loginTask_some {apiVersion : UInt16} {payload : Bytes} {dto : LoginRequestDto}
    (h : LoginCodec.decodeRequest apiVersion payload = some dto) :
    loginTask apiVersion payload = .await dto.id fun outcome =>
      .perform (.send (loginResponse apiVersion (loginResult outcome dto.password))) (.ret ()) := by
  obtain ⟨rfl, _⟩ := LoginCodec.decodeRequest_eq_some.mp h
  have henc : ∀ r, LoginCodec.encodeResponse ApiVersion.v1 r =
      some (BigEndian.toBytes 4 r.code.toNat) := by
    intro r
    rw [LoginCodec.encodeResponse, if_pos rfl, V1.encodeResponse_eq]
  simp only [loginTask, loginHandler, h, validateCredentials, getPassword, Coroutine.bind]
  congr 1
  funext outcome
  unfold loginResult
  cases outcome.password with
  | none => simp only [Coroutine.bind, henc]; rfl
  | some stored => simp only [Coroutine.bind, henc]; rfl

theorem loginTask_resolve_none {apiVersion : UInt16} {payload : Bytes} (db : Bytes → DbOutcome)
    (h : LoginCodec.decodeRequest apiVersion payload = none) :
    (loginTask apiVersion payload).resolve db = ([], .returned ()) := by
  rw [Coroutine.resolve_eq_segment, loginTask_segment_none h]
  rfl

theorem loginTask_resolve_some {apiVersion : UInt16} {payload : Bytes} {dto : LoginRequestDto}
    (db : Bytes → DbOutcome) (h : LoginCodec.decodeRequest apiVersion payload = some dto) :
    (loginTask apiVersion payload).resolve db =
      ([.send (loginResponse apiVersion (loginResult (db dto.id) dto.password))],
        .returned ()) := by
  rw [loginTask_some h]
  rfl

theorem loginTask_sends_nothing {apiVersion : UInt16} {payload : Bytes} (db : Bytes → DbOutcome)
    (hno : ¬ (apiVersion = ApiVersion.v1 ∧ ∃ id password, IsLoginRequest payload id password)) :
    ((loginTask apiVersion payload).resolve db).1 = [] := by
  cases h : LoginCodec.decodeRequest apiVersion payload with
  | none => rw [loginTask_resolve_none db h]
  | some dto =>
    obtain ⟨hv, hreq⟩ := LoginCodec.decodeRequest_eq_some.mp h
    exact absurd ⟨hv, dto.id, dto.password, hreq⟩ hno

/-- **Login succeeds exactly for the right credentials.**  The handler always returns.  It sends
    one response, with the request's version, when the payload is a version 1 request — which
    it is for one id and password only — and nothing otherwise; the response says `Success`
    exactly when the repository returned the request's password for the request's id. -/
theorem loginHandler_correct (db : Bytes → DbOutcome) (apiVersion : UInt16) (payload : Bytes) :
    ((loginTask apiVersion payload).resolve db).2 = .returned () ∧
    (∀ id password, apiVersion = ApiVersion.v1 → IsLoginRequest payload id password →
      (∃ result : LoginResult, ∃ body : Bytes,
        ((loginTask apiVersion payload).resolve db).1 =
          [.send ⟨.login, some body, apiVersion⟩] ∧
        body = BigEndian.toBytes 4 result.code.toNat ∧
        (result = .success ↔
          ((getPassword id).resolve db).2 = .returned (some password))) ∧
      ∀ id' password', IsLoginRequest payload id' password' →
        id' = id ∧ password' = password) ∧
    ((¬ (apiVersion = ApiVersion.v1 ∧ ∃ id password, IsLoginRequest payload id password)) →
      ((loginTask apiVersion payload).resolve db).1 = []) := by
  refine ⟨?_, ?_, ?_⟩
  · cases h : LoginCodec.decodeRequest apiVersion payload with
    | none => rw [loginTask_resolve_none db h]
    | some dto => rw [loginTask_resolve_some db h]
  · intro id password hv hreq
    have hdec : LoginCodec.decodeRequest apiVersion payload = some ⟨id, password⟩ :=
      LoginCodec.decodeRequest_eq_some.mpr ⟨hv, hreq⟩
    refine ⟨⟨loginResult (db id) password, _, ?_, rfl, ?_⟩, ?_⟩
    · rw [loginTask_resolve_some db hdec]
      rfl
    · rw [getPassword_resolve, Coroutine.End.returned.injEq]
      exact loginResult_success_iff _ _
    · intro id' password' hreq'
      exact hreq'.unique hreq
  · exact loginTask_sends_nothing db

end Zem
