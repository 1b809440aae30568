/-
# The native functions of the Android client

`client_android/app/src/main/cpp/Entry.cpp`, and the thread of `Worker.java` that
calls them on what it receives. A Java array comes as its bytes and their number.
The functions fail where they use the null pointer that `makePacket` gives for a
datagram it refuses, and where they read past the end of the array: `calcVolume`
takes the number of bytes for one of samples and copies twice as many bytes.

A read of an array is `readArray`, which fails where the array ends before it.

Key definitions: `Entry.getNetPacketType`, `Entry.getNetPacketPayload`, `Entry.calcVolume`.
Key theorems: `receive_ok_iff`, `native_safe_iff`.
-/
import EasyVoiceCall.Lib.Except
import EasyVoiceCall.MakePacket
import EasyVoiceCall.VolumeMeter

namespace EasyVoiceCall

open Buffer NetPacket

/-- What native code may do that it must not. -/
inductive NativeFault
  | nullPacket
  | pastEnd
  deriving DecidableEq

namespace Entry

/-- `n` bytes of the array, from `off` on. -/
def readArray (array : Bytes) (off n : ℕ) : Except NativeFault Bytes :=
  if off + n ≤ array.length then .ok (slice array off n) else .error .pastEnd

/-- `makePacket`, with its two `memcpy`s from the array as reads. -/
def makePacketOf (v : Version) (now : UInt32) (data : Bytes) : Except NativeFault (Option NetPacket) :=
  if data.length < FixHeaderLength then .ok none
  else do
    let ret := ofType v now .Undefined 0
    let ret := ret.setHeader (← readArray data 0 FixHeaderLength)
    let (ret, ok) := ret.checkHeader
    if !ok then
      return none
    else if data.length < FixHeaderLength + ret.payloadLength then
      return none
    else
      return some (ret.setPayload (← readArray data FixHeaderLength ret.payloadLength))

/-- `netPacket->`. -/
def deref (netPacket : Option NetPacket) : Except NativeFault NetPacket :=
  match netPacket with
  | some p => .ok p
  | none => .error .nullPacket

def getNetPacketType (v : Version) (now : UInt32) (jbyteArrayNetPacket : Bytes) : Except NativeFault PayloadType := do
  let netPacket ← makePacketOf v now jbyteArrayNetPacket
  let p ← deref netPacket
  return p.payloadType

/-- `getNetPacketPayload`: a new array with the packet's payload. -/
def getNetPacketPayload (v : Version) (now : UInt32) (jbyteArrayNetPacket : Bytes) : Except NativeFault Bytes := do
  let netPacket ← makePacketOf v now jbyteArrayNetPacket
  let p ← deref netPacket
  return p.payload

/-- The segment with the bytes copied to its front, zero behind them. -/
def segmentOf (bytes : Bytes) : PcmSegment := fun pos => Int16.ofNat (ofLE (slice bytes (2 * pos.val) 2))

/-- `calcVolume`, with a meter of its own; `start` is what the clock says when it is made,
the others are what it says in `calculate`. -/
def calcVolume (pcm : Bytes) (inOut : AudioInOut) (start now onExpiry onRise : ℤ) : Except NativeFault UInt8 := do
  let nbInputByte := pcm.length
  let theSize := if nbInputByte < blockSize then nbInputByte else blockSize
  let copied ← readArray pcm 0 (theSize * 2)
  let ap := AudioVolumeMeter_Peak.create inOut start
  return (ap.calculate ⟨segmentOf copied, now, onExpiry, onRise⟩).2.level_

/-! ### When they fail -/

theorem readArray_ok {array : Bytes} {off n : ℕ} (h : off + n ≤ array.length) :
    readArray array off n = .ok (slice array off n) := if_pos h

theorem readArray_fails {array : Bytes} {off n : ℕ} (h : array.length < off + n) :
    readArray array off n = .error .pastEnd := if_neg (not_le.mpr h)

/-- The lengths are looked at before anything is read. -/
theorem makePacketOf_eq (v : Version) (now : UInt32) (data : Bytes) :
    makePacketOf v now data = .ok (makePacket v now data) := by
  unfold makePacketOf makePacket
  by_cases hshort : data.length < FixHeaderLength
  · rw [if_pos hshort, if_pos hshort]
  · have hread : readArray data 0 FixHeaderLength = .ok (data.take FixHeaderLength) := by
      rw [readArray_ok (by omega)]
      rfl
    rw [if_neg hshort, if_neg hshort, hread]
    show (if data.length < _ then (pure none : Except NativeFault (Option NetPacket)) else _) = _
    set ret := withHeader v now data with hret
    show (if data.length < FixHeaderLength + ret.payloadLength then (pure none : Except NativeFault (Option NetPacket))
      else readArray data FixHeaderLength ret.payloadLength >>= fun bytes => pure (some (ret.setPayload bytes))) =
      .ok (if data.length < FixHeaderLength + ret.payloadLength then none
        else some (ret.setPayload (slice data FixHeaderLength ret.payloadLength)))
    by_cases hpayload : data.length < FixHeaderLength + ret.payloadLength
    · rw [if_pos hpayload, if_pos hpayload]
      rfl
    · rw [if_neg hpayload, if_neg hpayload, readArray_ok (not_lt.mp hpayload)]
      rfl

theorem getNetPacketType_eq (v : Version) (now : UInt32) (array : Bytes) : getNetPacketType v now array =
    (deref (makePacket v now array)).map payloadType := by
  rw [getNetPacketType, makePacketOf_eq]
  rcases makePacket v now array with _ | p <;> rfl

theorem getNetPacketPayload_eq (v : Version) (now : UInt32) (array : Bytes) : getNetPacketPayload v now array =
    (deref (makePacket v now array)).map payload := by
  rw [getNetPacketPayload, makePacketOf_eq]
  rcases makePacket v now array with _ | p <;> rfl

/-- A packet is there to be used where the array has a header and the payload it announces. -/
theorem deref_makePacket_iff (v : Version) (now : UInt32) (array : Bytes) {α : Type} (f : NetPacket → α) :
    (∃ a, (deref (makePacket v now array)).map f = .ok a) ↔ Framed array := by
  have hsame : makePacket v now array = RawUdpConnection.makePacket v now array := rfl
  rw [hsame]
  by_cases hf : Framed array
  · rw [RawUdpConnection.makePacket_of_framed v now hf]
    exact iff_of_true ⟨_, rfl⟩ hf
  · rw [RawUdpConnection.makePacket_of_not_framed v now hf]
    refine iff_of_false ?_ hf
    rintro ⟨a, ha⟩
    cases ha

/-- The copy stays in the array where there is nothing to copy, or a whole block. -/
theorem calcVolume_ok_iff (pcm : Bytes) (inOut : AudioInOut) (start now onExpiry onRise : ℤ) :
    (∃ level, calcVolume pcm inOut start now onExpiry onRise = .ok level) ↔ pcm = [] ∨ 2 * blockSize ≤ pcm.length := by
  have hsize : (if pcm.length < blockSize then pcm.length else blockSize) * 2 ≤ pcm.length ↔
      pcm = [] ∨ 2 * blockSize ≤ pcm.length := by
    rw [← List.length_eq_zero_iff]
    split <;> omega
  rw [← hsize]
  unfold calcVolume
  dsimp only
  by_cases hle : (if pcm.length < blockSize then pcm.length else blockSize) * 2 ≤ pcm.length
  · rw [readArray_ok (by rwa [Nat.zero_add])]
    exact iff_of_true ⟨_, rfl⟩ hle
  · rw [readArray_fails (by rw [Nat.zero_add]; exact not_le.mp hle)]
    refine iff_of_false ?_ hle
    rintro ⟨level, h⟩
    cases h

end Entry

open Entry

/-! ### The thread that receives -/

/-- `DownStreamThread`: the decoder and the counter. -/
structure DownStreamThread (D : Type) where
  decoder : D
  counterVolumeMeter_spk : ℕ

namespace DownStreamThread

variable {D : Type}

def counterCycle : ℕ := 2

/-- The body of the loop of `run`, on a datagram: what is written to the `AudioTrack`, and
the level shown. -/
def receive (v : Version) (decode : D → Bytes → D × Bytes) (self : DownStreamThread D) (realData : Bytes)
    (uptime : UInt32) (now : ℤ) : Except NativeFault (DownStreamThread D × Option Bytes × Option UInt8) := do
  let type ← getNetPacketType v uptime realData
  if type = .AudioMessage then
    let payload ← getNetPacketPayload v uptime realData
    let (decoder, decodedPcm) := decode self.decoder payload
    let self' := { decoder, counterVolumeMeter_spk := self.counterVolumeMeter_spk + 1 }
    if self.counterVolumeMeter_spk % counterCycle = 0 then
      let level ← calcVolume decodedPcm .Out now now now now
      return (self', some decodedPcm, some (level + 10))
    else
      return (self', some decodedPcm, none)
  else
    return (self, none, none)

/-- **Which datagrams the thread survives**: those that `makePacket` accepts, if what
decodes is empty or a whole block wherever its level is looked at. -/
theorem receive_ok_iff (v : Version) (decode : D → Bytes → D × Bytes) (self : DownStreamThread D) (realData : Bytes)
    (uptime : UInt32) (now : ℤ) : (∃ r, self.receive v decode realData uptime now = .ok r) ↔
      ∃ p, Entry.makePacket v uptime realData = some p ∧ (p.payloadType = .AudioMessage →
        self.counterVolumeMeter_spk % counterCycle = 0 →
          (decode self.decoder p.payload).2 = [] ∨ 2 * blockSize ≤ (decode self.decoder p.payload).2.length) := by
  unfold receive
  rw [getNetPacketType_eq, getNetPacketPayload_eq]
  rcases Entry.makePacket v uptime realData with _ | p
  · refine iff_of_false ?_ ?_
    · rintro ⟨r, hr⟩
      cases hr
    · rintro ⟨p, hp, -⟩
      cases hp
  · have hone : ∀ {P : NetPacket → Prop}, (∃ q, some p = some q ∧ P q) ↔ P p := by simp
    rw [hone]
    show (∃ r, (if p.payloadType = .AudioMessage then
      if self.counterVolumeMeter_spk % counterCycle = 0 then
        calcVolume (decode self.decoder p.payload).2 .Out now now now now >>= fun level =>
          pure (_, _, some (level + 10))
      else pure (_, _, none)
      else pure (self, none, none)) = .ok r) ↔ _
    by_cases htype : p.payloadType = .AudioMessage
    · by_cases hdue : self.counterVolumeMeter_spk % counterCycle = 0
      · rw [if_pos htype, if_pos hdue, ← calcVolume_ok_iff _ .Out now now now now]
        constructor
        · rintro ⟨r, hr⟩ - -
          obtain ⟨level, hlevel, -⟩ := Fallible.bind_eq_ok.mp hr
          exact ⟨level, hlevel⟩
        · intro h
          obtain ⟨level, hlevel⟩ := h htype hdue
          exact ⟨_, Fallible.bind_eq_ok.mpr ⟨level, hlevel, rfl⟩⟩
      · rw [if_pos htype, if_neg hdue]
        exact iff_of_true ⟨_, rfl⟩ fun _ h => absurd h hdue
    · rw [if_neg htype]
      exact iff_of_true ⟨_, rfl⟩ fun h => absurd h htype

end DownStreamThread

/-- **Which arrays are safe.** Of whatever array of bytes, the type and the payload of the
packet are read, without a null pointer used and within the array, exactly where it holds a
header and the payload that announces; and its volume within the array exactly where it
is empty or holds a whole block. So the thread that receives survives the array, whatever
the decoder does, exactly where `makePacket` accepts it and what decodes of an audio packet
is empty or a whole block each time its level is looked at. -/
theorem native_safe_iff (v : Version) (uptime : UInt32) (inOut : AudioInOut) (start now onExpiry onRise : ℤ)
    (array : Bytes) :
    ((∃ type, getNetPacketType v uptime array = .ok type) ↔ Framed array) ∧
    ((∃ payload, getNetPacketPayload v uptime array = .ok payload) ↔ Framed array) ∧
    ((∃ level, calcVolume array inOut start now onExpiry onRise = .ok level) ↔
      array = [] ∨ 2 * blockSize ≤ array.length) ∧
    ∀ {D : Type} (decode : D → Bytes → D × Bytes) (self : DownStreamThread D),
      (∃ r, self.receive v decode array uptime now = .ok r) ↔
        ∃ p, Entry.makePacket v uptime array = some p ∧ (p.payloadType = .AudioMessage →
          self.counterVolumeMeter_spk % DownStreamThread.counterCycle = 0 →
            (decode self.decoder p.payload).2 = [] ∨ 2 * blockSize ≤ (decode self.decoder p.payload).2.length) := by
  refine ⟨?_, ?_, calcVolume_ok_iff array inOut start now onExpiry onRise, fun decode self =>
    self.receive_ok_iff v decode array uptime now⟩
  · rw [getNetPacketType_eq]
    exact deref_makePacket_iff v uptime array payloadType
  · rw [getNetPacketPayload_eq]
    exact deref_makePacket_iff v uptime array payload

/-- A datagram of one byte, and a frame of 40 samples. -/
theorem native_unsafe : getNetPacketType sampleVersion 0 [0] = .error .nullPacket ∧
    getNetPacketPayload sampleVersion 0 [0] = .error .nullPacket ∧
    calcVolume (List.replicate 80 0) .Out 0 0 0 0 = .error .pastEnd :=
  ⟨rfl, rfl, rfl⟩

end EasyVoiceCall
