import Zem.Library.Framing
import Zem.Protocol.Header

/-!
# Frames and the frame grammar

* `Frame` — a service type, an api version and a body; `encode` is the header layout of
  `TCPSession::SendFrame` followed by the body.
* `Frame.Valid` — a supported version for the service, no body for ping and pong, and between
  one and `MaxBodySize` body bytes for the other services.
* `decodeFrame` — the grammar: the valid frame at the front of a byte string, if there is one.
* `frameCode` — the grammar as a self-delimiting code, so that every byte stream has exactly
  one decomposition into valid frames and a remainder.
* `SendArgs`, `ConnCall` — the calls of `IConnection`.

The grammar is stated without reference to the receive loop, which is modelled from its source
in `Zem.Session.ReadLoop` and compared with it there.
-/

set_option autoImplicit false

namespace Zem

structure Frame where
  serviceType : TCPServiceType
  apiVersion : UInt16
  body : Bytes
  deriving DecidableEq, Repr

namespace Frame

/-- The header that `SendFrame` fills in; `static_cast<DataLengthType>` keeps the low 32 bits of
    the body size. -/
def header (f : Frame) : TCPHeaderConv :=
  { serviceType := f.serviceType.code
    dataSize := UInt32.ofNat f.body.length
    apiVersion := f.apiVersion }

def encode (f : Frame) : Bytes := f.header.bytes ++ f.body

/-- The body sizes a service admits. -/
def BodySizeOk (t : TCPServiceType) (n : Nat) : Prop :=
  match t with
  | .ping | .pong => n = 0
  | .login | .receiving => 1 ≤ n ∧ n ≤ TCPSessionLimit.maxBodySize

instance (t : TCPServiceType) (n : Nat) : Decidable (BodySizeOk t n) := by
  unfold BodySizeOk
  split <;> infer_instance

structure Valid (f : Frame) : Prop where
  version : ApiVersion.isSupportedFor f.serviceType f.apiVersion = true
  bodySize : BodySizeOk f.serviceType f.body.length

theorem BodySizeOk.le_max {t : TCPServiceType} {n : Nat} (h : BodySizeOk t n) :
    n ≤ TCPSessionLimit.maxBodySize := by
  unfold BodySizeOk at h
  split at h
  · omega
  · omega
  · exact h.2
  · exact h.2

@[simp] theorem length_encode (f : Frame) :
    f.encode.length = TCPHeaderConv.size + f.body.length := by
  simp [encode]

/-- No 32-bit truncation: the length field of a frame that fits denotes its body size. -/
theorem header_dataSize {f : Frame} (h : f.body.length ≤ TCPSessionLimit.maxBodySize) :
    f.header.dataSize.toNat = f.body.length := by
  have hlt : f.body.length < 2 ^ 32 := by
    unfold TCPSessionLimit.maxBodySize at h
    omega
  rw [header, UInt32.toNat_ofNat', Nat.mod_eq_of_lt hlt]

end Frame

/-! ## The grammar -/

/-- The valid frame at the front of a byte string and the bytes behind it. -/
def decodeFrame (bs : Bytes) : Option (Frame × Bytes) :=
  let h := TCPHeaderConv.ofBytes (bs.take TCPHeaderConv.size)
  let n := h.dataSize.toNat
  match TCPServiceType.ofCode? h.serviceType with
  | none => none
  | some t =>
    if TCPHeaderConv.size + n ≤ bs.length ∧ ApiVersion.isSupportedFor t h.apiVersion = true ∧
        Frame.BodySizeOk t n then
      some (⟨t, h.apiVersion, (bs.drop TCPHeaderConv.size).take n⟩,
        bs.drop (TCPHeaderConv.size + n))
    else none

theorem decodeFrame_encode (f : Frame) (rest : Bytes) (hv : f.Valid) :
    decodeFrame (f.encode ++ rest) = some (f, rest) := by
  have hn := Frame.header_dataSize hv.bodySize.le_max
  have hhead : (f.encode ++ rest).take TCPHeaderConv.size = f.header.bytes := by
    rw [Frame.encode, List.append_assoc]
    exact List.take_left' (TCPHeaderConv.length_bytes _)
  have hbody : ((f.encode ++ rest).drop TCPHeaderConv.size).take f.body.length = f.body := by
    rw [Frame.encode, List.append_assoc, List.drop_left' (TCPHeaderConv.length_bytes _)]
    exact List.take_left' rfl
  have hrest : (f.encode ++ rest).drop (TCPHeaderConv.size + f.body.length) = rest :=
    List.drop_left' f.length_encode
  have ht : TCPServiceType.ofCode? f.header.serviceType = some f.serviceType :=
    TCPServiceType.ofCode?_code _
  have hfit : TCPHeaderConv.size + f.body.length ≤ (f.encode ++ rest).length := by
    rw [List.length_append, f.length_encode]
    omega
  simp only [decodeFrame, hhead, TCPHeaderConv.ofBytes_bytes, ht, hn, hbody, hrest]
  rw [if_pos ⟨hfit, hv.version, hv.bodySize⟩]
  rfl

theorem decodeFrame_sound (bs : Bytes) (f : Frame) (rest : Bytes)
    (h : decodeFrame bs = some (f, rest)) : f.Valid ∧ bs = f.encode ++ rest := by
  simp only [decodeFrame] at h
  split at h
  · cases h
  · rename_i t ht
    split at h
    · rename_i hok
      obtain ⟨hfit, hver, hsize⟩ := hok
      cases h
      have hbody : ((bs.drop TCPHeaderConv.size).take
          (TCPHeaderConv.ofBytes (bs.take TCPHeaderConv.size)).dataSize.toNat).length =
          (TCPHeaderConv.ofBytes (bs.take TCPHeaderConv.size)).dataSize.toNat := by
        rw [List.length_take, List.length_drop]
        omega
      have hhead : (bs.take TCPHeaderConv.size).length = TCPHeaderConv.size := by
        rw [List.length_take]
        omega
      refine ⟨⟨hver, by rw [hbody]; exact hsize⟩, ?_⟩
      rw [Frame.encode, Frame.header, hbody, TCPServiceType.code_of_ofCode? ht,
        UInt32.ofNat_toNat]
      show bs = (TCPHeaderConv.ofBytes (bs.take TCPHeaderConv.size)).bytes ++ _ ++ _
      rw [TCPHeaderConv.bytes_ofBytes hhead, List.append_assoc, ← List.drop_drop,
        List.take_append_drop, List.take_append_drop]
    · cases h

/-- The frame grammar as a self-delimiting code. -/
def frameCode : Framing.Code Frame UInt8 where
  Valid := Frame.Valid
  encode := Frame.encode
  decode := decodeFrame
  decode_encode := decodeFrame_encode
  decode_sound := decodeFrame_sound
  encode_ne_nil := by
    intro f _ h
    have := congrArg List.length h
    rw [f.length_encode] at this
    simp [TCPHeaderConv.size] at this

/-- The valid frames at the front of a stream, as many as there are. -/
def framesOf (stream : Bytes) : List Frame := (Framing.decodeAll frameCode stream).1

/-- What follows the last valid frame. -/
def remainderOf (stream : Bytes) : Bytes := (Framing.decodeAll frameCode stream).2

/-! ## Reading a frame header first -/

/-- What the grammar says once the ten header bytes are known. -/
theorem decodeFrame_header (h : TCPHeaderConv) (rest : Bytes) :
    decodeFrame (h.bytes ++ rest) =
      match TCPServiceType.ofCode? h.serviceType with
      | none => none
      | some t =>
        if h.dataSize.toNat ≤ rest.length ∧ ApiVersion.isSupportedFor t h.apiVersion = true ∧
            Frame.BodySizeOk t h.dataSize.toNat then
          some (⟨t, h.apiVersion, rest.take h.dataSize.toNat⟩, rest.drop h.dataSize.toNat)
        else none := by
  have hhead : (h.bytes ++ rest).take TCPHeaderConv.size = h.bytes :=
    List.take_left' h.length_bytes
  have hdrop : (h.bytes ++ rest).drop TCPHeaderConv.size = rest :=
    List.drop_left' h.length_bytes
  have hlen : ∀ n, TCPHeaderConv.size + n ≤ (h.bytes ++ rest).length ↔ n ≤ rest.length := by
    intro n
    rw [List.length_append, h.length_bytes]
    omega
  simp only [decodeFrame, hhead, TCPHeaderConv.ofBytes_bytes, hdrop, hlen, ← List.drop_drop]

theorem decodeFrame_short {bs : Bytes} (h : bs.length < TCPHeaderConv.size) :
    decodeFrame bs = none := by
  simp only [decodeFrame]
  split
  · rfl
  · rw [if_neg]
    omega

/-! ## The connection interface -/

/-- The arguments of `IConnection::Send`; the body may be a null pointer. -/
structure SendArgs where
  serviceType : TCPServiceType
  body : Option Bytes
  apiVersion : UInt16
  deriving DecidableEq, Repr

/-- The frame the arguments ask for: a null body is an empty one. -/
def SendArgs.frame (a : SendArgs) : Frame := ⟨a.serviceType, a.apiVersion, a.body.getD []⟩

/-- The calls of `IConnection` a handler can make. -/
inductive ConnCall where
  | send (a : SendArgs)
  | close
  deriving DecidableEq, Repr

end Zem
