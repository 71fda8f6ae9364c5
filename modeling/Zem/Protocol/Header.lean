import Zem.Library.BigEndian

/-!
# Wire types, service types, api versions and the frame header

Reference model of `Protocol/WireTypes.hpp`, `Protocol/Service/Protocol.hpp`,
`Protocol/Common/ApiVersion.hpp` and `Session/Common/Limits.hpp`:

* `sizeMax`, `sizeAdd`, `sizeSub` — `std::size_t` and its wrap.
* `TCPServiceType` — the enumerators with their wire codes; `ofCode?` is the cast of a received
  code, `none` on the codes from `TypeCnt` on.
* `TCPHeaderConv` — the three big-endian header fields; `bytes` is the object representation
  that `memcpy` and `async_read` copy.
* `ApiVersion.isSupported` / `isSupportedFor` — the two overloads of `IsSupported`.
* `TCPSessionLimit` — the flow control constants.
-/

set_option autoImplicit false

namespace Zem

abbrev Bytes := List UInt8

/-! ## std::size_t -/

/-- `std::numeric_limits<std::size_t>::max()`. -/
def sizeMax : Nat := 2 ^ 64 - 1

def sizeAdd (a b : Nat) : Nat := (a + b) % 2 ^ 64
def sizeSub (a b : Nat) : Nat := (a + 2 ^ 64 - b) % 2 ^ 64

theorem sizeAdd_eq {a b : Nat} (h : a + b ≤ sizeMax) : sizeAdd a b = a + b := by
  unfold sizeMax at h
  exact Nat.mod_eq_of_lt (by omega)

theorem sizeSub_eq {a b : Nat} (h : b ≤ a) (ha : a ≤ sizeMax) : sizeSub a b = a - b := by
  unfold sizeMax at ha
  unfold sizeSub
  omega

/-! ## Service types -/

/-- `enum class TCPServiceType`. -/
inductive TCPServiceType where
  | ping
  | pong
  | login
  | receiving
  deriving DecidableEq, Repr

namespace TCPServiceType

/-- `TypeCnt`, one past the last enumerator. -/
def typeCnt : Nat := 4

def code : TCPServiceType → UInt32
  | ping => 0
  | pong => 1
  | login => 2
  | receiving => 3

/-- The enumerator with a received code; `none` stands for `service_type >= TypeCnt`. -/
def ofCode? (c : UInt32) : Option TCPServiceType :=
  if c = 0 then some ping
  else if c = 1 then some pong
  else if c = 2 then some login
  else if c = 3 then some receiving
  else none

@[simp] theorem ofCode?_code (t : TCPServiceType) : ofCode? t.code = some t := by
  cases t <;> decide

theorem code_of_ofCode? {c : UInt32} {t : TCPServiceType} (h : ofCode? c = some t) :
    t.code = c := by
  unfold ofCode? at h
  split at h
  · rename_i hc; cases h; exact hc.symm
  split at h
  · rename_i hc; cases h; exact hc.symm
  split at h
  · rename_i hc; cases h; exact hc.symm
  split at h
  · rename_i hc; cases h; exact hc.symm
  · cases h

theorem code_lt_typeCnt (t : TCPServiceType) : t.code.toNat < typeCnt := by
  cases t <;> decide

end TCPServiceType

/-! ## Api versions -/

namespace ApiVersion

def v1 : UInt16 := 1
def latest : UInt16 := v1
def minSupported : UInt16 := v1

/-- `IsSupported(version)`. -/
def isSupported (version : UInt16) : Bool :=
  decide (version ≥ minSupported) && decide (version ≤ latest)

/-- `IsSupported(service_type, version)`. -/
def isSupportedFor (serviceType : TCPServiceType) (version : UInt16) : Bool :=
  if !isSupported version then false
  else
    match serviceType with
    | .ping | .pong | .login | .receiving => version == v1

/-- Version 1 is the only one, for every service. -/
theorem isSupportedFor_iff (t : TCPServiceType) (v : UInt16) :
    isSupportedFor t v = true ↔ v = v1 := by
  constructor
  · intro h
    unfold isSupportedFor at h
    split at h
    · cases h
    · cases t <;> simpa using h
  · rintro rfl
    cases t <;> decide

end ApiVersion

/-! ## Session limits -/

namespace TCPSessionLimit

def maxBodySize : Nat := 2 * 1024 * 1024
def lowWater : Nat := 1024 * 512
def highWater : Nat := lowWater * 2
def hardCap : Nat := maxBodySize * 4
def maxBatchBytes : Nat := 256 * 1024
def maxIovPerWrite : Nat := 32

end TCPSessionLimit

/-! ## The frame header -/

/-- `struct TCPHeaderConv`. -/
structure TCPHeaderConv where
  serviceType : UInt32
  dataSize : UInt32
  apiVersion : UInt16
  deriving DecidableEq, Repr

namespace TCPHeaderConv

/-- `sizeof(TCPHeaderConv)`. -/
def size : Nat := 10

/-- The object representation: three big-endian fields. -/
def bytes (h : TCPHeaderConv) : Bytes :=
  BigEndian.toBytes 4 h.serviceType.toNat ++ BigEndian.toBytes 4 h.dataSize.toNat ++
    BigEndian.toBytes 2 h.apiVersion.toNat

/-- The header whose object representation is the given ten bytes. -/
def ofBytes (bs : Bytes) : TCPHeaderConv :=
  { serviceType := UInt32.ofNat (BigEndian.ofBytes (bs.take 4))
    dataSize := UInt32.ofNat (BigEndian.ofBytes ((bs.drop 4).take 4))
    apiVersion := UInt16.ofNat (BigEndian.ofBytes ((bs.drop 8).take 2)) }

@[simp] theorem length_bytes (h : TCPHeaderConv) : h.bytes.length = size := by
  simp [bytes, size]

theorem ofBytes_bytes (h : TCPHeaderConv) : ofBytes h.bytes = h := by
  obtain ⟨s, n, v⟩ := h
  have hs : s.toNat < 256 ^ 4 := s.toNat_lt
  have hn : n.toNat < 256 ^ 4 := n.toNat_lt
  have hv : v.toNat < 256 ^ 2 := v.toNat_lt
  have h4 : (TCPHeaderConv.mk s n v).bytes.drop 4 =
      BigEndian.toBytes 4 n.toNat ++ BigEndian.toBytes 2 v.toNat := by
    rw [bytes, List.append_assoc]
    exact List.drop_left' (BigEndian.length_toBytes 4 _)
  have h8 : (TCPHeaderConv.mk s n v).bytes.drop 8 = BigEndian.toBytes 2 v.toNat :=
    List.drop_left' (by simp)
  have t0 : (TCPHeaderConv.mk s n v).bytes.take 4 = BigEndian.toBytes 4 s.toNat := by
    rw [bytes, List.append_assoc]
    exact List.take_left' (BigEndian.length_toBytes 4 _)
  have t2 : (BigEndian.toBytes 2 v.toNat).take 2 = BigEndian.toBytes 2 v.toNat :=
    List.take_of_length_le (by simp)
  rw [ofBytes, h4, h8, t0, t2, List.take_left' (BigEndian.length_toBytes 4 _),
    BigEndian.ofBytes_toBytes_of_lt hs, BigEndian.ofBytes_toBytes_of_lt hn,
    BigEndian.ofBytes_toBytes_of_lt hv]
  simp

theorem bytes_ofBytes {bs : Bytes} (h : bs.length = size) : (ofBytes bs).bytes = bs := by
  unfold size at h
  -- one field of `w` bytes survives the two conversions
  have field : ∀ {cs : Bytes} {w : Nat}, cs.length = w →
      BigEndian.toBytes w (BigEndian.ofBytes cs % 256 ^ w) = cs := by
    rintro cs w rfl
    rw [Nat.mod_eq_of_lt (BigEndian.ofBytes_lt cs)]
    exact BigEndian.toBytes_ofBytes cs
  have l0 : (bs.take 4).length = 4 := by simp; omega
  have l1 : ((bs.drop 4).take 4).length = 4 := by simp; omega
  have l2 : ((bs.drop 8).take 2).length = 2 := by simp; omega
  have h8 : (bs.drop 8).take 2 = (bs.drop 4).drop 4 := by
    rw [List.drop_drop, List.take_of_length_le (by simp; omega)]
  rw [bytes, ofBytes]
  simp only [UInt32.toNat_ofNat', UInt16.toNat_ofNat', show (2 : Nat) ^ 32 = 256 ^ 4 from rfl,
    show (2 : Nat) ^ 16 = 256 ^ 2 from rfl]
  rw [field l0, field l1, field l2, h8, List.append_assoc, List.take_append_drop,
    List.take_append_drop]

end TCPHeaderConv

end Zem
