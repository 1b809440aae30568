/-
# `makePacket`: from a datagram to a packet

Three copies of one function: in the server (`server/RawUdpServer.cpp`), in the
client (`client_essential/net_engine/RawUdpClient.cpp`) and behind the Android
JNI (`client_android/app/src/main/cpp/Entry.cpp`). Each is written out here as
its file has it, so that their agreement is a theorem.

A datagram is accepted when it holds a header and as many bytes after it as
the header's length field says (`Framed`), and the packet is then that prefix
of the datagram (`makePacket_some_iff`); the bytes the default-constructed
packet starts with, its clock reading included, are all overwritten.

Key theorems: `makePacket_some_iff`, `setPayload_checkHeader`, `wire_roundtrip`.
-/
import EasyVoiceCall.NetPacket

namespace EasyVoiceCall

open Buffer NetPacket

/-- `RawUdpConnection::makePacket`. `now` is the clock reading of the packet it
allocates. -/
def RawUdpConnection.makePacket (v : Version) (now : UInt32) (data : Bytes) : Option NetPacket :=
  if data.length < FixHeaderLength then none
  else
    let ret := ofType v now .Undefined 0
    let ret := ret.setHeader (data.take FixHeaderLength)
    let (ret, ok) := ret.checkHeader
    if !ok then none
    else if data.length < FixHeaderLength + ret.payloadLength then none
    else some (ret.setPayload (slice data FixHeaderLength ret.payloadLength))

/-- `RawUdpClientImpl::makePacket`. -/
def RawUdpClientImpl.makePacket (v : Version) (now : UInt32) (data : Bytes) : Option NetPacket :=
  if data.length < FixHeaderLength then none
  else
    let ret := ofType v now .Undefined 0
    let ret := ret.setHeader (data.take FixHeaderLength)
    let (ret, ok) := ret.checkHeader
    if !ok then none
    else if data.length < FixHeaderLength + ret.payloadLength then none
    else some (ret.setPayload (slice data FixHeaderLength ret.payloadLength))

/-- The `makePacket` of the JNI's `Entry.cpp`. -/
def Entry.makePacket (v : Version) (now : UInt32) (data : Bytes) : Option NetPacket :=
  if data.length < FixHeaderLength then none
  else
    let ret := ofType v now .Undefined 0
    let ret := ret.setHeader (data.take FixHeaderLength)
    let (ret, ok) := ret.checkHeader
    if !ok then none
    else if data.length < FixHeaderLength + ret.payloadLength then none
    else some (ret.setPayload (slice data FixHeaderLength ret.payloadLength))

/-- A header, and at least as many bytes after it as it announces. -/
def Framed (d : Bytes) : Prop :=
  FixHeaderLength ≤ d.length ∧ FixHeaderLength + (lengthField d).toNat ≤ d.length

instance (d : Bytes) : Decidable (Framed d) := by unfold Framed; infer_instance

/-- The bytes of the packet at the start of `d`. -/
def frame (d : Bytes) : Bytes := d.take (FixHeaderLength + (lengthField d).toNat)

theorem lengthField_take (d : Bytes) : lengthField (d.take FixHeaderLength) = lengthField d := by
  rw [lengthField, slice_take _ _ _ _ (by decide)]
  rfl

theorem toNat_lengthField (d : Bytes) :
    (lengthField d).toNat = ofLE (slice d (4 * 3 + 2 + 4) 2) := by
  have h := ofLE_lt (slice d (4 * 3 + 2 + 4) 2)
  have hl : (slice d (4 * 3 + 2 + 4) 2).length ≤ 2 := by
    rw [length_slice]
    exact min_le_left _ _
  have hp : 256 ^ (slice d (4 * 3 + 2 + 4) 2).length ≤ 256 ^ 2 := Nat.pow_le_pow_right (by decide) hl
  rw [lengthField, UInt16.toNat_ofNat']
  exact Nat.mod_eq_of_lt (lt_of_lt_of_le h hp)

theorem length_frame {d : Bytes} (h : Framed d) :
    (frame d).length = FixHeaderLength + (lengthField d).toNat := by
  rw [frame, List.length_take, Nat.min_eq_left h.2]

theorem header_le_frame {d : Bytes} (h : Framed d) : FixHeaderLength ≤ (frame d).length := by
  rw [length_frame h]
  exact Nat.le_add_right _ _

/-- The packet with the header copied and room made for the payload. -/
def withHeader (v : Version) (now : UInt32) (d : Bytes) : NetPacket :=
  ((ofType v now .Undefined 0).setHeader (d.take FixHeaderLength)).checkHeader.1

/-- The header replaces all of the default-constructed packet. -/
theorem withHeader_bytes (v : Version) (now : UInt32) {d : Bytes} (h : FixHeaderLength ≤ d.length) :
    (withHeader v now d).wholePacket =
      d.take FixHeaderLength ++ List.replicate (lengthField d).toNat 0 := by
  have ht : (d.take FixHeaderLength).length = FixHeaderLength := by
    rw [List.length_take, Nat.min_eq_left h]
  have hset : ((ofType v now .Undefined 0).setHeader (d.take FixHeaderLength)).wholePacket =
      d.take FixHeaderLength := by
    refine memcpy_zero_of_length _ _ ?_
    rw [ofType_bytes, List.length_append, length_headerBytes, ht]
    rfl
  change resize _ (FixHeaderLength + (lengthField _).toNat) = _
  rw [hset, lengthField_take, resize_append_of_le _ _ (by omega), ht, Nat.add_sub_cancel_left]

theorem payloadLength_withHeader (v : Version) (now : UInt32) {d : Bytes} (h : FixHeaderLength ≤ d.length) :
    (withHeader v now d).payloadLength = (lengthField d).toNat := by
  rw [payloadLength, withHeader_bytes v now h, List.length_append, List.length_take,
    Nat.min_eq_left h, List.length_replicate, Nat.add_sub_cancel_left]

/-- The payload replaces the zeros. -/
theorem setPayload_withHeader (v : Version) (now : UInt32) {d : Bytes} (h : Framed d) :
    ((withHeader v now d).setPayload (slice d FixHeaderLength (lengthField d).toNat)).wholePacket =
      frame d := by
  have ht : (d.take FixHeaderLength).length = FixHeaderLength := by
    rw [List.length_take, Nat.min_eq_left h.1]
  have hz := memcpy_append (d.take FixHeaderLength) (List.replicate (lengthField d).toNat 0) []
    (slice d FixHeaderLength (lengthField d).toNat) (by
      have := h.2
      rw [List.length_replicate, length_slice]
      omega)
  rw [ht, List.append_nil, List.append_nil, take_append_slice] at hz
  change memcpy (withHeader v now d).wholePacket FixHeaderLength _ = _
  rw [withHeader_bytes v now h.1, hz, frame]

namespace RawUdpConnection

/-- The three tests of `makePacket`; the one on `checkHeader` never fails. -/
theorem makePacket_eq (v : Version) (now : UInt32) (d : Bytes) : makePacket v now d =
    if d.length < FixHeaderLength then none
    else if d.length < FixHeaderLength + (withHeader v now d).payloadLength then none
    else some ((withHeader v now d).setPayload
      (slice d FixHeaderLength (withHeader v now d).payloadLength)) := by
  simp only [makePacket, withHeader, checkHeader, Bool.not_true, Bool.false_eq_true, ↓reduceIte]
  rfl

theorem makePacket_of_framed (v : Version) (now : UInt32) {d : Bytes} (h : Framed d) :
    makePacket v now d = some ⟨frame d, header_le_frame h⟩ := by
  rw [makePacket_eq, if_neg (not_lt.mpr h.1), payloadLength_withHeader v now h.1,
    if_neg (not_lt.mpr h.2)]
  exact congrArg some (NetPacket.ext (setPayload_withHeader v now h))

theorem makePacket_of_not_framed (v : Version) (now : UInt32) {d : Bytes} (h : ¬ Framed d) :
    makePacket v now d = none := by
  rw [makePacket_eq]
  by_cases h1 : d.length < FixHeaderLength
  · rw [if_pos h1]
  · have h2 : d.length < FixHeaderLength + (lengthField d).toNat := by
      by_contra hc
      exact h ⟨not_lt.mp h1, not_lt.mp hc⟩
    rw [if_neg h1, payloadLength_withHeader v now (not_lt.mp h1), if_pos h2]

/-- What `makePacket` accepts, and what it makes of it. -/
theorem makePacket_some_iff (v : Version) (now : UInt32) (d : Bytes) (p : NetPacket) :
    makePacket v now d = some p ↔ Framed d ∧ p.wholePacket = frame d := by
  by_cases h : Framed d
  · rw [makePacket_of_framed v now h]
    constructor
    · intro hp
      cases hp
      exact ⟨h, rfl⟩
    · rintro ⟨-, hp⟩
      exact congrArg some (NetPacket.ext hp.symm)
  · rw [makePacket_of_not_framed v now h]
    simp [h]

theorem makePacket_none_iff (v : Version) (now : UInt32) (d : Bytes) :
    makePacket v now d = none ↔ ¬ Framed d := by
  refine ⟨fun hn hf => ?_, makePacket_of_not_framed v now⟩
  rw [makePacket_of_framed v now hf] at hn
  cases hn

/-- The clock reading and the version of the packet it allocates do not matter. -/
theorem makePacket_congr (v v' : Version) (now now' : UInt32) (d : Bytes) :
    makePacket v now d = makePacket v' now' d := by
  ext p
  rw [makePacket_some_iff, makePacket_some_iff]

end RawUdpConnection

/-! ### A packet read into a used one -/

theorem lengthField_congr {a b : Bytes} (h : a.take FixHeaderLength = b.take FixHeaderLength) :
    lengthField a = lengthField b := by
  rw [← lengthField_take a, h, lengthField_take]

theorem take_resize {b : Bytes} {n : ℕ} (hb : FixHeaderLength ≤ b.length) (hn : FixHeaderLength ≤ n) :
    (resize b n).take FixHeaderLength = b.take FixHeaderLength := by
  have hl : FixHeaderLength ≤ (b.take n).length := by
    rw [List.length_take]
    omega
  rw [resize, List.take_append_of_le_length hl, List.take_take, Nat.min_eq_left hn]

theorem take_memcpy {b src : Bytes} (hb : FixHeaderLength ≤ b.length) :
    (memcpy b FixHeaderLength src).take FixHeaderLength = b.take FixHeaderLength := by
  have hl : (b.take FixHeaderLength).length = FixHeaderLength := by
    rw [List.length_take, Nat.min_eq_left hb]
  rw [memcpy, List.append_assoc, List.take_append_of_le_length hl.ge, List.take_of_length_le hl.le]

/-- `checkHeader` leaves a packet as long as its header says. -/
theorem lengthOK_checkHeader (p : NetPacket) : LengthOK p.checkHeader.1.wholePacket := by
  show (resize p.wholePacket _).length = _ + (lengthField (resize p.wholePacket _)).toNat
  rw [lengthField_congr (take_resize p.header_le (Nat.le_add_right _ _)), length_resize]

/-- A payload of the length announced keeps it so. -/
theorem lengthOK_setPayload {p : NetPacket} {b : Bytes} (h : LengthOK p.wholePacket)
    (hb : b.length = p.payloadLength) : LengthOK (p.setPayload b).wholePacket := by
  have hlen : (memcpy p.wholePacket FixHeaderLength b).length = p.wholePacket.length := by
    refine length_memcpy _ _ _ ?_
    rw [hb, payloadLength]
    have := p.header_le
    omega
  show (memcpy p.wholePacket FixHeaderLength b).length = _
  rw [hlen, h]
  show _ = _ + (lengthField (memcpy p.wholePacket FixHeaderLength b)).toNat
  rw [lengthField_congr (take_memcpy p.header_le)]

/-- A header read into a packet is its header. -/
theorem take_setHeader (m : NetPacket) {src : Bytes} (h : src.length = FixHeaderLength) :
    (m.setHeader src).header.take FixHeaderLength = src := by
  show (memcpy m.wholePacket 0 src).take FixHeaderLength = src
  rw [memcpy, List.take_zero, List.nil_append, List.take_append_of_le_length h.ge, List.take_of_length_le h.le]

/-- A payload read into a packet with room for it is all that follows the header. -/
theorem header_setPayload {p : NetPacket} {b : Bytes} (h : b.length = p.payloadLength) :
    (p.setPayload b).header = p.header.take FixHeaderLength ++ b := by
  have hdrop : p.wholePacket.drop (FixHeaderLength + b.length) = [] := by
    apply List.drop_eq_nil_of_le
    rw [h, payloadLength]
    omega
  show memcpy p.wholePacket FixHeaderLength b = _
  rw [memcpy, hdrop, List.append_nil]
  rfl

theorem take_checkHeader (p : NetPacket) :
    p.checkHeader.1.header.take FixHeaderLength = p.header.take FixHeaderLength :=
  take_resize p.header_le (Nat.le_add_right _ _)

/-- A packet as long as its header says has room for what the header announces. -/
theorem payloadLength_of_lengthOK {p : NetPacket} (h : LengthOK p.wholePacket) :
    p.payloadLength = (lengthField (p.header.take FixHeaderLength)).toNat := by
  rw [payloadLength, h, Nat.add_sub_cancel_left]
  exact congrArg UInt16.toNat (lengthField_take p.header).symm

/-- **A packet read into the buffer of another.** The header is copied, room is made and
as many bytes are asked for as the packet has; they make it the packet. -/
theorem setPayload_checkHeader (m : NetPacket) {p : NetPacket} (hp : LengthOK p.wholePacket) :
    ((m.setHeader (p.header.take FixHeaderLength)).checkHeader.1).payloadLength = p.payloadLength ∧
    ((m.setHeader (p.header.take FixHeaderLength)).checkHeader.1).setPayload p.payload = p := by
  have ht : (p.header.take FixHeaderLength).length = FixHeaderLength := by
    rw [List.length_take]
    exact Nat.min_eq_left p.header_le
  set q := m.setHeader (p.header.take FixHeaderLength) with hq
  have htake : q.checkHeader.1.header.take FixHeaderLength = p.header.take FixHeaderLength := by
    rw [take_checkHeader, hq, take_setHeader m ht]
  have hlen : q.checkHeader.1.payloadLength = p.payloadLength := by
    rw [payloadLength_of_lengthOK (lengthOK_checkHeader q), htake, payloadLength_of_lengthOK hp]
  refine ⟨hlen, NetPacket.ext ?_⟩
  have hset : (q.checkHeader.1.setPayload p.payload).header = _ :=
    header_setPayload (by rw [length_payload, hlen])
  show (q.checkHeader.1.setPayload p.payload).header = p.wholePacket
  rw [hset, htake]
  exact List.take_append_drop _ _

/-! ### What a constructor built, with anything after it -/

theorem framed_of_bytes {v : Version} {t : PayloadType} {size : UInt16} {up sn : UInt32} {rest d : Bytes}
    (hd : d = headerBytes v t size up sn ++ rest) (h : size.toNat ≤ rest.length) : Framed d := by
  subst hd
  rw [Framed, lengthField_headerBytes, List.length_append, length_headerBytes]
  omega

theorem frame_of_bytes {v : Version} {t : PayloadType} {size : UInt16} {up sn : UInt32}
    {payload trailing d : Bytes} (hd : d = headerBytes v t size up sn ++ (payload ++ trailing))
    (h : payload.length = size.toNat) : frame d = headerBytes v t size up sn ++ payload := by
  subst hd
  rw [frame, lengthField_headerBytes, ← h, ← length_headerBytes v t size up sn, ← List.length_append,
    ← List.append_assoc, List.take_left]

/-- A packet without a payload comes back from any buffer that holds a header. -/
theorem makePacket_ofType (v : Version) (up : UInt32) (t : PayloadType) (sn : UInt32) {n : ℕ}
    (hn : FixHeaderLength ≤ n) (w : Version) (now : UInt32) :
    RawUdpConnection.makePacket w now ((ofType v up t sn).header.take n) = some (ofType v up t sn) := by
  have hlen : (ofType v up t sn).header.length ≤ n := by
    rw [header, ofType_bytes, List.append_nil, length_headerBytes]
    exact hn
  have hbytes : (ofType v up t sn).header = headerBytes v t 0 up sn ++ ([] ++ []) := ofType_bytes v up t sn
  rw [List.take_of_length_le hlen, RawUdpConnection.makePacket_some_iff]
  refine ⟨framed_of_bytes hbytes (by simp), ?_⟩
  rw [frame_of_bytes hbytes rfl, ofType_bytes]

/-- A packet that was built, sent with any bytes after it and parsed. -/
theorem makePacket_of_built {v : Version} {t : PayloadType} {up sn : UInt32} {payload : Bytes} {p : NetPacket}
    (hp : withPayload v up t sn payload = .ok p) (trailing : Bytes) (w : Version) (now : UInt32) :
    RawUdpConnection.makePacket w now (p.header ++ trailing) = some p ∧ payload.length ≤ 65535 ∧
      p.wholePacket = headerBytes v t (UInt16.ofNat payload.length) up sn ++ payload := by
  have hl : payload.length ≤ 65535 := by
    by_contra hc
    rw [withPayload_error v up t sn payload (not_le.mp hc)] at hp
    cases hp
  obtain ⟨q, hq, hqb⟩ := withPayload_ok v up t sn payload hl
  rw [hp] at hq
  cases hq
  have hs : payload.length = (UInt16.ofNat payload.length).toNat := by
    rw [UInt16.toNat_ofNat']
    omega
  have hd : p.header ++ trailing =
      headerBytes v t (UInt16.ofNat payload.length) up sn ++ (payload ++ trailing) := by
    rw [← List.append_assoc, ← hqb]
    rfl
  refine ⟨?_, hl, hqb⟩
  rw [RawUdpConnection.makePacket_some_iff]
  refine ⟨framed_of_bytes hd ?_, ?_⟩
  · rw [List.length_append]
    omega
  · rw [frame_of_bytes hd hs, hqb]

/-- **The wire format round-trips in both directions.** A packet that a
constructor built comes back from its own bytes, whatever follows them, and a
payload that is too long is refused; a string is accepted iff it holds a header
and the payload the header announces, and what is accepted is that prefix. -/
theorem wire_roundtrip :
    (∀ (v : Version) (up : UInt32) (t : PayloadType) (sn : UInt32) (payload : Bytes),
      payload.length ≤ 65535 → ∃ p, withPayload v up t sn payload = .ok p ∧
        ∀ (trailing : Bytes) (w : Version) (now : UInt32), ∃ q,
          RawUdpConnection.makePacket w now (p.header ++ trailing) = some q ∧
          q.payloadType = t ∧ q.serialNumber = sn ∧ q.timestamp = up ∧
          q.payloadLength = payload.length ∧ q.payload = payload) ∧
    (∀ (v : Version) (up : UInt32) (t : PayloadType) (sn : UInt32) (payload : Bytes),
      65535 < payload.length →
        withPayload v up t sn payload = .error "payloadSize larger than max of uint16_t") ∧
    (∀ (v : Version) (now : UInt32) (d : Bytes),
      ((RawUdpConnection.makePacket v now d).isSome ↔
        20 ≤ d.length ∧ 20 + ofLE (slice d 18 2) ≤ d.length) ∧
      ∀ p, RawUdpConnection.makePacket v now d = some p →
        p.wholePackLength = 20 + ofLE (slice d 18 2) ∧ p.header = d.take p.wholePackLength) ∧
    (∀ (v : Version) (now : UInt32) (d : Bytes),
      RawUdpConnection.makePacket v now d = RawUdpClientImpl.makePacket v now d ∧
      RawUdpClientImpl.makePacket v now d = Entry.makePacket v now d) := by
  refine ⟨fun v up t sn payload h => ?_, withPayload_error, fun v now d => ⟨?_, fun p hp => ?_⟩,
    fun v now d => ⟨rfl, rfl⟩⟩
  · obtain ⟨p, hp, hb⟩ := withPayload_ok v up t sn payload h
    refine ⟨p, hp, fun trailing w now => ⟨p, (makePacket_of_built hp trailing w now).1,
      payloadType_of_bytes hb, serialNumber_of_bytes hb, timestamp_of_bytes hb, ?_,
      payload_of_bytes hb⟩⟩
    rw [← length_payload, payload_of_bytes hb]
  · rw [Option.isSome_iff_ne_none, Ne, RawUdpConnection.makePacket_none_iff, not_not, Framed,
      toNat_lengthField]
    rfl
  · obtain ⟨hf, hb⟩ := (RawUdpConnection.makePacket_some_iff v now d p).mp hp
    have hl : p.wholePackLength = 20 + ofLE (slice d 18 2) := by
      rw [wholePackLength, hb, length_frame hf, toNat_lengthField]
      rfl
    refine ⟨hl, ?_⟩
    rw [header, hb, hl, frame, toNat_lengthField]
    rfl

/-- A text message of two bytes, with one byte after it. -/
theorem wire_roundtrip_text : ∃ p, withPayload sampleVersion 5 .TextMessage 7 [0x68, 0x69] = .ok p ∧
    ∃ q, RawUdpConnection.makePacket sampleVersion 9 (p.header ++ [0]) = some q ∧
      q.payloadType = .TextMessage ∧ q.serialNumber = 7 ∧ q.timestamp = 5 ∧ q.payload = [0x68, 0x69] := by
  obtain ⟨p, hp, hq⟩ := wire_roundtrip.1 sampleVersion 5 .TextMessage 7 [0x68, 0x69] (by decide)
  obtain ⟨q, h1, h2, h3, h4, -, h6⟩ := hq [0] sampleVersion 9
  exact ⟨p, hp, q, h1, h2, h3, h4, h6⟩

end EasyVoiceCall
