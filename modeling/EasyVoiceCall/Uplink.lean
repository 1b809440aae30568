/-
# What a worker sends of its microphone

`Worker::nsAecVolumeVadSend` in `client_essential/Worker.cpp`, the part from the
voice decision on. For each block of the microphone the audio callback sends
an Opus packet, or, once a second without voice has passed, what the comfort
noise encoder has to say, if anything. Both kinds share one serial number.

A `Frame` is a block with what the libraries and the clock make of it: the
voice decision, the readings of `system_clock`, the encoders' output. A step
is `none` where the program ends: a failed echo canceller or encoder is a
`throw` with nothing to rethrow.

Key theorems: `Uplink.step_sends`, `Uplink.sent_exec`, `Uplink.serial_lt_iff`.
-/
import EasyVoiceCall.Lib.Machine
import EasyVoiceCall.NetPacket

namespace EasyVoiceCall

open Buffer NetPacket

/-- A block of the microphone. `first` is the reading `lastTimeStamp` starts
from, `now` and `later` the two others; `opus` is the encoder's output, or
none if it fails, and `cng` that of the comfort noise encoder. -/
structure Frame where
  aecFails : Bool
  haveVoice : Bool
  first : ℤ
  now : ℤ
  later : ℤ
  opus : Option Bytes
  cng : Bytes
  upTime : UInt32

/-- The members of `Worker` that sending reads and writes, `lastTimeStamp` among
them once it is there. -/
structure Uplink where
  mute_ : Bool
  needAec_ : Bool
  vadCounter_ : UInt8
  sendOpus_ : Bool
  lastTimeStamp : Option ℤ
  sn_sendingAudio_ : UInt32

/-- The UI's `setMute`, or the callback on a block. -/
inductive UplinkOp
  | setMute (mute : Bool)
  | frame (f : Frame)

namespace Uplink

def create (needAec : Bool) : Uplink := ⟨false, needAec, 0, true, none, 0⟩

/-- The clock's ticks in a second. -/
def seconds : ℤ := 1000000000

/-- The voice decision. -/
def onVoice (self : Uplink) (f : Frame) : Uplink :=
  if f.haveVoice then { self with vadCounter_ := self.vadCounter_ + 1, sendOpus_ := true } else self

/-- The window of one second: a second without voice ends the Opus packets. -/
def onClock (self : Uplink) (f : Frame) : Uplink :=
  let lastTimeStamp := self.lastTimeStamp.getD f.first
  if f.now - lastTimeStamp > seconds then
    { self with
      sendOpus_ := if self.vadCounter_ = 0 then false else self.sendOpus_
      lastTimeStamp := some f.later
      vadCounter_ := 0 }
  else { self with lastTimeStamp := some lastTimeStamp }

/-- The packet of a type, with the next serial number. -/
def sendNext (v : Version) (self : Uplink) (upTime : UInt32) (type : PayloadType) (payload : Bytes) :
    Option (Uplink × List NetPacket) :=
  let sn := self.sn_sendingAudio_ + 1
  match withPayload v upTime type sn payload with
  | .ok packet => some ({ self with sn_sendingAudio_ := sn }, [packet])
  | .error _ => none

/-- `nsAecVolumeVadSend` once it has found `mute_` false. -/
def vadSend (v : Version) (self : Uplink) (f : Frame) : Option (Uplink × List NetPacket) :=
  if self.needAec_ ∧ f.aecFails then none
  else
    let self := (self.onVoice f).onClock f
    if self.sendOpus_ then
      match f.opus with
      | none => none
      | some outData => self.sendNext v f.upTime .AudioMessage outData
    else if f.cng.length > 0 then self.sendNext v f.upTime .AudioMessage_CN f.cng
    else some (self, [])

/-- `nsAecVolumeVadSend`. -/
def nsAecVolumeVadSend (v : Version) (self : Uplink) (f : Frame) : Option (Uplink × List NetPacket) :=
  if self.mute_ then some (self, []) else self.vadSend v f

def step (v : Version) (self : Uplink) : UplinkOp → Option (Uplink × List NetPacket)
  | .setMute mute => some ({ self with mute_ := mute }, [])
  | .frame f => self.nsAecVolumeVadSend v f

/-- A run of a worker's audio, and what it sent. -/
abbrev exec (v : Version) (needAec : Bool) (ops : List UplinkOp) : Option (Uplink × List NetPacket) :=
  Lts.exec (step v) (create needAec) ops

/-! ### Serial numbers -/

theorem sn_onClock (self : Uplink) (f : Frame) :
    ((self.onVoice f).onClock f).sn_sendingAudio_ = self.sn_sendingAudio_ := by
  have h1 : ∀ u : Uplink, (u.onClock f).sn_sendingAudio_ = u.sn_sendingAudio_ := by
    intro u
    unfold onClock
    dsimp only
    split <;> rfl
  rw [h1]
  unfold onVoice
  split <;> rfl

/-- The packets of a step: none, or one audio packet with the next serial number. -/
def Sends (self self' : Uplink) (sent : List NetPacket) : Prop :=
  (sent = [] ∧ self'.sn_sendingAudio_ = self.sn_sendingAudio_) ∨
  ∃ p, sent = [p] ∧ self'.sn_sendingAudio_ = self.sn_sendingAudio_ + 1 ∧
    p.serialNumber = self.sn_sendingAudio_ + 1 ∧
    (p.payloadType = .AudioMessage ∨ p.payloadType = .AudioMessage_CN)

/-- What `sendNext` makes has the type it is given and the next number. -/
theorem sendNext_spec {v : Version} {self self' : Uplink} {up : UInt32} {t : PayloadType} {payload : Bytes}
    {sent : List NetPacket} (h : self.sendNext v up t payload = some (self', sent)) :
    ∃ p, sent = [p] ∧ p.payloadType = t ∧ p.serialNumber = self.sn_sendingAudio_ + 1 ∧
      self' = { self with sn_sendingAudio_ := self.sn_sendingAudio_ + 1 } := by
  rcases Nat.lt_or_ge 65535 payload.length with hlong | hfit
  · rw [sendNext, withPayload_error _ _ _ _ _ hlong] at h
    cases h
  · obtain ⟨p, hp, hbytes⟩ := withPayload_ok v up t (self.sn_sendingAudio_ + 1) payload hfit
    rw [sendNext, hp] at h
    cases h
    exact ⟨p, rfl, payloadType_of_bytes hbytes, serialNumber_of_bytes hbytes, rfl⟩

theorem sendNext_sends {v : Version} {self self' : Uplink} {up : UInt32} {t : PayloadType} {payload : Bytes}
    {sent : List NetPacket} (ht : t = .AudioMessage ∨ t = .AudioMessage_CN)
    (h : self.sendNext v up t payload = some (self', sent)) : Sends self self' sent := by
  obtain ⟨p, hsent, htype, hserial, hself⟩ := sendNext_spec h
  refine Or.inr ⟨p, hsent, by rw [hself], hserial, ?_⟩
  rwa [htype]

/-- A block that is not muted. -/
theorem vadSend_sends {v : Version} {self self' : Uplink} {f : Frame} {sent : List NetPacket}
    (h : self.vadSend v f = some (self', sent)) : Sends self self' sent := by
  have hsn := sn_onClock self f
  unfold vadSend at h
  set u := (self.onVoice f).onClock f
  have hnext : ∀ {t payload}, t = .AudioMessage ∨ t = .AudioMessage_CN →
      u.sendNext v f.upTime t payload = some (self', sent) → Sends self self' sent := by
    intro t payload ht hs
    have hsends := sendNext_sends ht hs
    unfold Sends at hsends ⊢
    rwa [hsn] at hsends
  split at h
  · cases h
  · dsimp only at h
    split at h
    · split at h
      · cases h
      · exact hnext (Or.inl rfl) h
    · split at h
      · exact hnext (Or.inr rfl) h
      · obtain ⟨hu, hsent⟩ := Prod.mk.inj (Option.some.inj h)
        exact Or.inl ⟨hsent.symm, hu ▸ hsn⟩

/-- **One step.** -/
theorem step_sends {v : Version} {self self' : Uplink} {op : UplinkOp} {sent : List NetPacket}
    (h : self.step v op = some (self', sent)) : Sends self self' sent := by
  cases op with
  | setMute mute =>
    cases h
    exact Or.inl ⟨rfl, rfl⟩
  | frame f =>
    simp only [step, nsAecVolumeVadSend] at h
    split at h
    · cases h
      exact Or.inl ⟨rfl, rfl⟩
    · exact vadSend_sends h

/-- **A run.** The packets are audio, numbered from one on. -/
theorem sent_exec {v : Version} {needAec : Bool} {ops : List UplinkOp} {self : Uplink} {sent : List NetPacket}
    (h : exec v needAec ops = some (self, sent)) :
    self.sn_sendingAudio_ = UInt32.ofNat sent.length ∧ ∀ i p, sent[i]? = some p →
      p.serialNumber = UInt32.ofNat (i + 1) ∧
      (p.payloadType = .AudioMessage ∨ p.payloadType = .AudioMessage_CN) := by
  refine Lts.history_rule (step v) (fun _ (self : Uplink) sent =>
    self.sn_sendingAudio_ = UInt32.ofNat sent.length ∧ ∀ i p, sent[i]? = some p →
      p.serialNumber = UInt32.ofNat (i + 1) ∧
      (p.payloadType = .AudioMessage ∨ p.payloadType = .AudioMessage_CN))
    ⟨rfl, fun i p hp => by cases hp⟩ ?_ h
  rintro _ self sent op self' sent' ⟨hsn, ih⟩ hstep
  rcases step_sends hstep with ⟨rfl, hsn'⟩ | ⟨p, rfl, hsn', hp, ht⟩
  · rw [List.append_nil]
    exact ⟨hsn'.trans hsn, ih⟩
  · have hnext : self.sn_sendingAudio_ + 1 = UInt32.ofNat (sent.length + 1) := by
      rw [hsn, UInt32.ofNat_add]
      rfl
    refine ⟨by rw [hsn', hnext, List.length_append]; rfl, fun i q hq => ?_⟩
    rcases Nat.lt_trichotomy i sent.length with hi | rfl | hi
    · rw [List.getElem?_append_left hi] at hq
      exact ih i q hq
    · rw [List.getElem?_concat_length] at hq
      cases hq
      exact ⟨hp.trans hnext, ht⟩
    · rw [List.getElem?_eq_none (by rw [List.length_append]; exact hi)] at hq
      cases hq

/-- Fewer than 2³² packets: the serial numbers order them as they were sent. -/
theorem serial_lt_iff {v : Version} {needAec : Bool} {ops : List UplinkOp} {self : Uplink} {sent : List NetPacket}
    (h : exec v needAec ops = some (self, sent)) (hlt : sent.length < 2 ^ 32) {i j : ℕ} {p q : NetPacket}
    (hp : sent[i]? = some p) (hq : sent[j]? = some q) : p.serialNumber < q.serialNumber ↔ i < j := by
  have hi : i < sent.length := (List.getElem?_eq_some_iff.mp hp).1
  have hj : j < sent.length := (List.getElem?_eq_some_iff.mp hq).1
  rw [((sent_exec h).2 i p hp).1, ((sent_exec h).2 j q hq).1, UInt32.lt_iff_toNat_lt, UInt32.toNat_ofNat',
    UInt32.toNat_ofNat', Nat.mod_eq_of_lt (by omega), Nat.mod_eq_of_lt (by omega)]
  omega

end Uplink

end EasyVoiceCall
