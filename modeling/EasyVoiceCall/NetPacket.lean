/-
# `NetPacket`: the packet and its wire format

`include/NetPacket.hpp`. A packet is one buffer: a header of 20 bytes (marker,
version, timestamp, type, serial number, payload length, all little endian)
and the payload. The constructors write the header field by field with
`memcpy`, the accessors read it back at the same offsets.

The version is the first four bytes of the build's `GIT_TAG`, the timestamp
the process' uptime when the packet is built: both are arguments here.

Key theorems: `init_bytes`, `withPayload_ok`, `withPayload_error`, `format_ofType`.
-/
import EasyVoiceCall.Lib.Bytes
import Mathlib.Data.UInt

namespace EasyVoiceCall

open Buffer

/-- `NetPacket::PayloadType`, an `enum class` over `unsigned short`: a packet off
the wire may carry any of its 65536 values. -/
structure PayloadType where
  value : UInt16
  deriving DecidableEq, Repr

namespace PayloadType

def Undefined : PayloadType := ⟨0⟩
def HeartBeatRequest : PayloadType := ⟨1⟩
def HeartBeatResponse : PayloadType := ⟨2⟩
def LoginRequest : PayloadType := ⟨3⟩
def LoginResponse : PayloadType := ⟨4⟩
def UserInfo : PayloadType := ⟨5⟩
def TextMessage : PayloadType := ⟨6⟩
def AudioMessage : PayloadType := ⟨7⟩
def AudioMessage_CN : PayloadType := ⟨8⟩
def LogoutRequest : PayloadType := ⟨9⟩
def LogoutResponse : PayloadType := ⟨10⟩

end PayloadType

/-- The bytes of `version_` that go into the header. -/
structure Version where
  bytes : Bytes
  length_eq : bytes.length = 4

/-- A version string's first four bytes, `"v1.0"`. -/
def sampleVersion : Version := ⟨[0x76, 0x31, 0x2e, 0x30], rfl⟩

/-- `FixHeaderLength`. -/
def FixHeaderLength : ℕ := 4 + 4 + 4 + 2 + 4 + 2

theorem FixHeaderLength_eq : FixHeaderLength = 20 := rfl

/-- `headMarker_`: `"evc "`. -/
def headMarker : Bytes := [0x65, 0x76, 0x63, 0x20]

/-- A packet: `wholePacket_`, which always holds a whole header. -/
@[ext] structure NetPacket where
  wholePacket : Bytes
  header_le : FixHeaderLength ≤ wholePacket.length
  deriving DecidableEq

/-- A packet of type `t` without a payload, serial number 1. -/
def sampleBytes (t : UInt8) : Bytes :=
  headMarker ++ sampleVersion.bytes ++ [0, 0, 0, 0] ++ [t, 0] ++ [1, 0, 0, 0] ++ [0, 0]

namespace NetPacket

/-! ### Reading -/

/-- The payload length as it stands in the header, at offset 4*3+2+4. -/
def lengthField (b : Bytes) : UInt16 := UInt16.ofNat (ofLE (slice b (4 * 3 + 2 + 4) 2))

def payloadType (p : NetPacket) : PayloadType :=
  ⟨UInt16.ofNat (ofLE (slice p.wholePacket (4 * 3) 2))⟩

def serialNumber (p : NetPacket) : UInt32 :=
  UInt32.ofNat (ofLE (slice p.wholePacket (4 * 3 + 2) 4))

def timestamp (p : NetPacket) : UInt32 :=
  UInt32.ofNat (ofLE (slice p.wholePacket (4 * 2) 4))

/-- The bytes at `header()`, `wholePackLength()` of them. -/
def header (p : NetPacket) : Bytes := p.wholePacket

def wholePackLength (p : NetPacket) : ℕ := p.wholePacket.length

/-- The bytes at `payload()`, `payloadLength()` of them. -/
def payload (p : NetPacket) : Bytes := p.wholePacket.drop FixHeaderLength

def payloadLength (p : NetPacket) : ℕ := p.wholePacket.length - FixHeaderLength

def isMediaType (p : NetPacket) : Bool :=
  p.payloadType = .AudioMessage_CN || p.payloadType = .AudioMessage || p.payloadType = .TextMessage

theorem length_payload (p : NetPacket) : p.payload.length = p.payloadLength := by
  simp [payload, payloadLength]

/-- The packet begins with the fixed marker. -/
def HasMarker (b : Bytes) : Prop := b.take 4 = headMarker

instance (b : Bytes) : Decidable (HasMarker b) := by unfold HasMarker; infer_instance

/-- The header's length field is the length of what follows the header. -/
def LengthOK (b : Bytes) : Prop := b.length = FixHeaderLength + (lengthField b).toNat

instance (b : Bytes) : Decidable (LengthOK b) := by unfold LengthOK; infer_instance

/-! ### Writing -/

/-- `init`: six `memcpy`s into a zeroed buffer. -/
def init (v : Version) (payloadType : PayloadType) (payloadSize : UInt16) (upTime : UInt32)
    (serialNumber : UInt32) : Bytes :=
  let b := resize [] (FixHeaderLength + payloadSize.toNat)
  let b := memcpy b 0 headMarker
  let b := memcpy b (4 * 1) v.bytes
  let b := memcpy b (4 * 2) (toLE 4 upTime.toNat)
  let b := memcpy b (4 * 3) (toLE 2 payloadType.value.toNat)
  let b := memcpy b (4 * 3 + 2) (toLE 4 serialNumber.toNat)
  memcpy b (4 * 3 + 2 + 4) (toLE 2 payloadSize.toNat)

/-- The header as one string. -/
def headerBytes (v : Version) (t : PayloadType) (size : UInt16) (up sn : UInt32) : Bytes :=
  headMarker ++ v.bytes ++ toLE 4 up.toNat ++ toLE 2 t.value.toNat ++ toLE 4 sn.toNat ++
    toLE 2 size.toNat

theorem length_headerBytes (v : Version) (t : PayloadType) (size : UInt16) (up sn : UInt32) :
    (headerBytes v t size up sn).length = FixHeaderLength := by
  simp [headerBytes, v.length_eq, headMarker, FixHeaderLength]

/-- The six writes meet without gap or overlap. -/
theorem init_bytes (v : Version) (t : PayloadType) (size : UInt16) (up sn : UInt32) :
    init v t size up sn = headerBytes v t size up sn ++ List.replicate size.toNat 0 := by
  obtain ⟨vb, hv⟩ := v
  match vb, hv with
  | [a, b, c, d], _ =>
    have hz : resize [] (FixHeaderLength + size.toNat) =
        List.replicate FixHeaderLength 0 ++ List.replicate size.toNat 0 := by
      rw [resize_nil, List.replicate_add]
    simp only [init, hz]
    rfl

theorem le_length_init (v : Version) (t : PayloadType) (size : UInt16) (up sn : UInt32) :
    FixHeaderLength ≤ (init v t size up sn).length := by
  rw [init_bytes, List.length_append, length_headerBytes]
  exact Nat.le_add_right _ _

/-- The constructor without a payload. -/
def ofType (v : Version) (upTime : UInt32) (payloadType : PayloadType) (serialNumber : UInt32) :
    NetPacket :=
  ⟨init v payloadType 0 upTime serialNumber, le_length_init ..⟩

/-- `memcpy` to `header()`. -/
def setHeader (p : NetPacket) (src : Bytes) : NetPacket :=
  ⟨memcpy p.wholePacket 0 src, p.header_le.trans (le_length_memcpy _ _ _ (Nat.zero_le _))⟩

/-- `memcpy` to `payload()`. -/
def setPayload (p : NetPacket) (src : Bytes) : NetPacket :=
  ⟨memcpy p.wholePacket FixHeaderLength src,
    p.header_le.trans (le_length_memcpy _ _ _ p.header_le)⟩

/-- The two constructors with a payload, of `char` and of `int8_t`. -/
def withPayload (v : Version) (upTime : UInt32) (payloadType : PayloadType) (serialNumber : UInt32)
    (payload : Bytes) : Except String NetPacket :=
  if payload.length > 65535 then
    throw "payloadSize larger than max of uint16_t"
  else
    let payloadSize := UInt16.ofNat payload.length
    let p : NetPacket := ⟨init v payloadType payloadSize upTime serialNumber, le_length_init ..⟩
    return p.setPayload payload

/-- `checkHeader`: makes room for the payload the header announces, and always
returns true. -/
def checkHeader (p : NetPacket) : NetPacket × Bool :=
  let payloadSize := lengthField p.wholePacket
  (⟨resize p.wholePacket (FixHeaderLength + payloadSize.toNat), by simp⟩, true)

/-! ### What is written is what is read -/

@[simp] theorem ofNat_ofLE_toLE_two (x : UInt16) : UInt16.ofNat (ofLE (toLE 2 x.toNat)) = x := by
  rw [ofLE_toLE 2 _ x.toNat_lt, UInt16.ofNat_toNat]

@[simp] theorem ofNat_ofLE_toLE_four (x : UInt32) : UInt32.ofNat (ofLE (toLE 4 x.toNat)) = x := by
  rw [ofLE_toLE 4 _ x.toNat_lt, UInt32.ofNat_toNat]

section Fields

variable (v : Version) (t : PayloadType) (size : UInt16) (up sn : UInt32) (rest : Bytes)

/-- Each field stands at the offset it is read from. -/
theorem slice_headerBytes :
    slice (headerBytes v t size up sn ++ rest) (4 * 2) 4 = toLE 4 up.toNat ∧
    slice (headerBytes v t size up sn ++ rest) (4 * 3) 2 = toLE 2 t.value.toNat ∧
    slice (headerBytes v t size up sn ++ rest) (4 * 3 + 2) 4 = toLE 4 sn.toNat ∧
    slice (headerBytes v t size up sn ++ rest) (4 * 3 + 2 + 4) 2 = toLE 2 size.toNat := by
  obtain ⟨vb, hv⟩ := v
  match vb, hv with
  | [_, _, _, _], _ => exact ⟨rfl, rfl, rfl, rfl⟩

theorem hasMarker_headerBytes : HasMarker (headerBytes v t size up sn ++ rest) := by
  simp [HasMarker, headerBytes, headMarker]

theorem lengthField_headerBytes : lengthField (headerBytes v t size up sn ++ rest) = size := by
  rw [lengthField, (slice_headerBytes v t size up sn rest).2.2.2, ofNat_ofLE_toLE_two]

variable {v t size up sn rest} {p : NetPacket}

theorem payloadType_of_bytes (h : p.wholePacket = headerBytes v t size up sn ++ rest) :
    p.payloadType = t := by
  rw [payloadType, h, (slice_headerBytes v t size up sn rest).2.1, ofNat_ofLE_toLE_two]

theorem serialNumber_of_bytes (h : p.wholePacket = headerBytes v t size up sn ++ rest) :
    p.serialNumber = sn := by
  rw [serialNumber, h, (slice_headerBytes v t size up sn rest).2.2.1, ofNat_ofLE_toLE_four]

theorem timestamp_of_bytes (h : p.wholePacket = headerBytes v t size up sn ++ rest) :
    p.timestamp = up := by
  rw [timestamp, h, (slice_headerBytes v t size up sn rest).1, ofNat_ofLE_toLE_four]

theorem payload_of_bytes (h : p.wholePacket = headerBytes v t size up sn ++ rest) :
    p.payload = rest := by
  rw [payload, h, ← length_headerBytes v t size up sn, List.drop_left]

end Fields

theorem ofType_bytes (v : Version) (up : UInt32) (t : PayloadType) (sn : UInt32) :
    (ofType v up t sn).wholePacket = headerBytes v t 0 up sn ++ [] :=
  init_bytes v t 0 up sn

@[simp] theorem payloadType_ofType (v : Version) (up : UInt32) (t : PayloadType) (sn : UInt32) :
    (ofType v up t sn).payloadType = t :=
  payloadType_of_bytes (ofType_bytes v up t sn)

/-- The constructor with a payload that fits. -/
theorem withPayload_ok (v : Version) (up : UInt32) (t : PayloadType) (sn : UInt32) (payload : Bytes)
    (h : payload.length ≤ 65535) : ∃ p, withPayload v up t sn payload = .ok p ∧
      p.wholePacket = headerBytes v t (UInt16.ofNat payload.length) up sn ++ payload := by
  have hs : (UInt16.ofNat payload.length).toNat = payload.length := by
    rw [UInt16.toNat_ofNat']
    omega
  refine ⟨_, if_neg (by omega), ?_⟩
  change memcpy (init v t (UInt16.ofNat payload.length) up sn) FixHeaderLength payload = _
  rw [init_bytes, hs]
  have hc := memcpy_append (headerBytes v t (UInt16.ofNat payload.length) up sn)
    (List.replicate payload.length 0) [] payload (by simp)
  simpa only [length_headerBytes, List.append_nil] using hc

/-- The constructor throws rather than cut the length to 16 bits. -/
theorem withPayload_error (v : Version) (up : UInt32) (t : PayloadType) (sn : UInt32) (payload : Bytes)
    (h : 65535 < payload.length) :
    withPayload v up t sn payload = .error "payloadSize larger than max of uint16_t" :=
  if_pos h

/-- A built packet is in the documented format. -/
theorem lengthOK_of_bytes {v : Version} {t : PayloadType} {size : UInt16} {up sn : UInt32} {rest b : Bytes}
    (h : b = headerBytes v t size up sn ++ rest) (hs : rest.length = size.toNat) : LengthOK b := by
  rw [LengthOK, h, lengthField_headerBytes, List.length_append, length_headerBytes, hs]

theorem format_ofType (v : Version) (up : UInt32) (t : PayloadType) (sn : UInt32) :
    HasMarker (ofType v up t sn).wholePacket ∧ LengthOK (ofType v up t sn).wholePacket := by
  refine ⟨?_, lengthOK_of_bytes (ofType_bytes v up t sn) rfl⟩
  rw [ofType_bytes]
  exact hasMarker_headerBytes ..

end NetPacket
end EasyVoiceCall
