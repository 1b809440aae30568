/-
# The microphone of the Android client

The loop of `Worker.run` in `Worker.java` that reads the microphone. What
`AudioRecord.read` gives is put behind `pcmBuffer_mic`, and as long as that holds ten
milliseconds they are cut off its front: every other frame is measured, each is encoded
and sent under the next serial number. A step is one turn of the loop; it is `none`
where the thread ends, by an exception or in native code. The encoder is a library's.

`pcmBuffer_mic` is a member: what a call of `run` leaves in it is there for the next one, and
the first begins with an empty one (`MicCall.run`).

The frames depend on what was there and on the bytes read alone, not on how many a read returns
(`Capture.exec_reframed`): they are `Framing.divide` of the stream.

Key definitions: `arraycopy`, `Capture.cutFrames`, `Capture.step`, `streamOf`, `reframe`, `MicCall.run`.
Key theorems: `Capture.cutFrames_eq`, `capture_reframes`.
-/
import EasyVoiceCall.Address
import EasyVoiceCall.Jni
import EasyVoiceCall.Lib.Framing

namespace EasyVoiceCall

open Buffer NetPacket

/-! ### Java's arrays -/

/-- `new byte[n]`. -/
def newArray (n : ℕ) : Bytes := List.replicate n 0

/-- `System.arraycopy`: `dest` afterwards. It throws where one of the arrays ends before. -/
def arraycopy (src : Bytes) (srcPos : ℕ) (dest : Bytes) (destPos n : ℕ) :
    Option { b : Bytes // b.length = dest.length } :=
  if h : srcPos + n ≤ src.length ∧ destPos + n ≤ dest.length then
    some ⟨memcpy dest destPos (slice src srcPos n), length_memcpy _ _ _ (by rw [length_slice]; omega)⟩
  else none

/-! ### The loop -/

/-- The member `sampleRate` of the Java `Worker`. -/
def captureRate : ℕ := 16000

/-- `_10msBufferLength`. -/
def tenMsBufferLength : ℕ := captureRate / 100 * 2

theorem tenMsBufferLength_pos : 0 < tenMsBufferLength := by decide

/-- What is met while a frame is handled: the clocks, whether the server's name is resolved and
the datagram goes out. -/
structure FrameEnv where
  upTime : UInt32
  now : ℤ
  resolved : Bool
  ok : Bool

/-- What `AudioRecord.read` returns, and `buffer` then; `env` is what the frames meet that are cut
next, one after the other. -/
structure AudioRead where
  buffer : Bytes
  pcmLengthInByte_mic : ℤ
  within : pcmLengthInByte_mic ≤ buffer.length
  env : ℕ → FrameEnv

/-- The bytes read: none where the number is not positive. -/
def AudioRead.bytes (r : AudioRead) : Bytes := r.buffer.take r.pcmLengthInByte_mic.toNat

/-- What is handed on: a level to the handler, a frame to the encoder, a packet to the
socket. -/
inductive CaptureObs
  | volume (what : UInt8)
  | encoded (pcm : Bytes)
  | built (packet : NetPacket)

/-- What sending a frame reads and writes: the encoder and two counters. -/
structure FrameSender (E : Type) where
  encoder : E
  audioSN : UInt32
  counterVolumeMeter_mic : ℕ

structure Capture (E : Type) where
  sender : FrameSender E
  pcmBuffer_mic : Bytes

/-- All bytes read. -/
def streamOf (reads : List AudioRead) : Bytes := (reads.map AudioRead.bytes).flatten

/-- The frames given to the encoder. -/
def encodedOf (o : List CaptureObs) : List Bytes :=
  o.filterMap fun | .encoded pcm => some pcm | _ => none

/-- The packets built. -/
def builtOf (o : List CaptureObs) : List NetPacket :=
  o.filterMap fun | .built packet => some packet | _ => none

section

variable {E : Type} (v : Version) (encode : E → Bytes → E × Bytes) (target : AndroidWorker) (udpSocket : Option ℕ)

/-- What is done with a frame. An `IOException` is caught. -/
def FrameSender.sendFrame (self : FrameSender E) (frame : Bytes × FrameEnv) :
    Option (FrameSender E × List CaptureObs) := do
  let (tenMsBuffer, env) := frame
  let volume ← if self.counterVolumeMeter_mic % DownStreamThread.counterCycle = 0 then
      (Entry.calcVolume tenMsBuffer .In env.now env.now env.now env.now).toOption.map
        fun level => [CaptureObs.volume (level + 0)]
    else some []
  let (encoder, encodedOpusBuffer) := encode self.encoder tenMsBuffer
  let dataToSend ← (withPayload v env.upTime .AudioMessage self.audioSN encodedOpusBuffer).toOption
  guard (SendException.goesOn (target.send udpSocket env.resolved env.ok))
  return ({ encoder, audioSN := self.audioSN + 1, counterVolumeMeter_mic := self.counterVolumeMeter_mic + 1 },
    volume ++ [.encoded tenMsBuffer, .built dataToSend])

namespace Capture

/-- The thread's state at first: `left` is what is in the member, and the counters are `static`. -/
def create (left : Bytes) (encoder : E) (audioSN : UInt32) (counter : ℕ) : Capture E :=
  ⟨⟨encoder, audioSN, counter⟩, left⟩

/-- The inner loop. -/
def cutFrames (sender : FrameSender E) (pcmBuffer_mic : Bytes) (env : ℕ → FrameEnv) :
    Option (Capture E × List CaptureObs) :=
  if _hlong : tenMsBufferLength ≤ pcmBuffer_mic.length then do
    let ⟨tenMsBuffer, _⟩ ← arraycopy pcmBuffer_mic 0 (newArray tenMsBufferLength) 0 tenMsBufferLength
    let (sender, sent) ← sender.sendFrame v encode target udpSocket (tenMsBuffer, env 0)
    let left := pcmBuffer_mic.length - tenMsBufferLength
    let ⟨tempArray, _hleft⟩ ← arraycopy pcmBuffer_mic tenMsBufferLength (newArray left) 0 left
    let (self, more) ← cutFrames sender tempArray fun k => env (k + 1)
    return (self, sent ++ more)
  else some (⟨sender, pcmBuffer_mic⟩, [])
termination_by pcmBuffer_mic.length
decreasing_by
  have := tenMsBufferLength_pos
  rw [_hleft, newArray, List.length_replicate]
  omega

/-- A turn of the loop. -/
def step (self : Capture E) (r : AudioRead) : Option (Capture E × List CaptureObs) :=
  if r.pcmLengthInByte_mic ≤ 0 then some (self, [])
  else do
    let n := r.pcmLengthInByte_mic.toNat
    let tempArray := newArray (self.pcmBuffer_mic.length + n)
    let ⟨tempArray, _⟩ ← arraycopy self.pcmBuffer_mic 0 tempArray 0 self.pcmBuffer_mic.length
    let ⟨tempArray, _⟩ ← arraycopy r.buffer 0 tempArray self.pcmBuffer_mic.length n
    cutFrames v encode target udpSocket self.sender tempArray r.env

end Capture

/-- A call of `run`: the encoder it makes, the counters it finds, where it sends to, and what its
loop reads until it ends. -/
structure MicCall (E : Type) where
  encoder : E
  audioSN : UInt32
  counterVolumeMeter_mic : ℕ
  target : AndroidWorker
  udpSocket : Option ℕ
  reads : List AudioRead

/-- The call, `left` being what the member holds. -/
def MicCall.exec (call : MicCall E) (left : Bytes) : Option (Capture E × List CaptureObs) :=
  Lts.exec (Capture.step v encode call.target call.udpSocket)
    (.create left call.encoder call.audioSN call.counterVolumeMeter_mic) call.reads

/-- One call after the other: what each leaves in the member. -/
def MicCall.run (left : Bytes) (call : MicCall E) : Option (Bytes × List CaptureObs) :=
  (call.exec v encode left).map fun r => (r.1.pcmBuffer_mic, r.2)

/-! ### The copies -/

/-- A part of `dest` replaced by as many bytes of `src`. -/
theorem arraycopy_eq (src : Bytes) {pre old post dest : Bytes} {srcPos destPos n : ℕ} (hsrc : srcPos + n ≤ src.length)
    (hold : old.length = n) (hdest : dest = pre ++ (old ++ post)) (hpos : destPos = pre.length) :
    ∃ h, arraycopy src srcPos dest destPos n = some ⟨pre ++ (slice src srcPos n ++ post), h⟩ := by
  subst hdest
  subst hpos
  have hslice : old.length = (slice src srcPos n).length := by
    rw [length_slice, hold]
    omega
  have hcopy := memcpy_append pre old post (slice src srcPos n) hslice
  have hfits : srcPos + n ≤ src.length ∧ pre.length + n ≤ (pre ++ (old ++ post)).length := by
    rw [List.length_append, List.length_append]
    omega
  refine ⟨by simp only [List.length_append, hslice], ?_⟩
  rw [arraycopy, dif_pos hfits]
  exact congrArg some (Subtype.ext hcopy)

theorem length_newArray (n : ℕ) : (newArray n).length = n := List.length_replicate

/-- A copy from `srcPos` into a new array of the same length. -/
theorem arraycopy_new (src : Bytes) (srcPos n : ℕ) (h : srcPos + n ≤ src.length) :
    ∃ h, arraycopy src srcPos (newArray n) 0 n = some ⟨slice src srcPos n, h⟩ := by
  have hnew : newArray n = [] ++ (newArray n ++ []) := (List.append_nil _).symm
  obtain ⟨_, hcopy⟩ := arraycopy_eq src h (length_newArray n) hnew List.length_nil.symm
  simp only [List.nil_append, List.append_nil] at hcopy
  exact ⟨_, hcopy⟩

/-- A buffer and the first bytes of another, copied into a new array one behind the other. -/
theorem arraycopy_behind (b src : Bytes) {n : ℕ} (h : n ≤ src.length) :
    (∃ h, arraycopy b 0 (newArray (b.length + n)) 0 b.length = some ⟨b ++ newArray n, h⟩) ∧
    ∃ h, arraycopy src 0 (b ++ newArray n) b.length n = some ⟨b ++ src.take n, h⟩ := by
  have hnew : newArray (b.length + n) = [] ++ (newArray b.length ++ newArray n) := List.replicate_add ..
  have hend : b ++ newArray n = b ++ (newArray n ++ []) := by rw [List.append_nil]
  obtain ⟨_, hfirst⟩ := arraycopy_eq b (Nat.zero_add _).le (length_newArray _) hnew List.length_nil.symm
  obtain ⟨_, hsecond⟩ := arraycopy_eq src (by rwa [Nat.zero_add]) (length_newArray n) hend rfl
  simp only [slice, List.drop_zero, List.take_length, List.nil_append] at hfirst
  simp only [slice, List.drop_zero, List.append_nil] at hsecond
  exact ⟨⟨_, hfirst⟩, _, hsecond⟩

/-- The frames of ten milliseconds. -/
def tenMs : Framing UInt8 := Framing.fixed tenMsBufferLength tenMsBufferLength_pos

namespace Capture

/-- **The inner loop** gives the frames of the buffer to `sendFrame`, and leaves what is
left. -/
theorem cutFrames_eq (sender : FrameSender E) (pcmBuffer_mic : Bytes) (env : ℕ → FrameEnv) :
    cutFrames v encode target udpSocket sender pcmBuffer_mic env =
      (Lts.exec (FrameSender.sendFrame v encode target udpSocket) sender
        ((tenMs.divide pcmBuffer_mic).1.mapIdx fun k f => (f, env k))).map
          fun r => (⟨r.1, (tenMs.divide pcmBuffer_mic).2⟩, r.2) := by
  induction pcmBuffer_mic using Framing.divide.induct tenMs generalizing sender env with
  | case1 s hle ih =>
    have hlong : tenMsBufferLength ≤ s.length := hle
    obtain ⟨_, hfront⟩ := arraycopy_new s 0 tenMsBufferLength (by omega)
    obtain ⟨_, hrest⟩ := arraycopy_new s tenMsBufferLength (s.length - tenMsBufferLength) (by omega)
    have hslice : slice s tenMsBufferLength (s.length - tenMsBufferLength) = s.drop tenMsBufferLength := by
      rw [slice, ← List.length_drop, List.take_length]
    have hlen : tenMs.len s = tenMsBufferLength := rfl
    have hstart : slice s 0 tenMsBufferLength = s.take tenMsBufferLength := rfl
    rw [hlen] at ih
    rw [cutFrames, dif_pos hlong, Framing.divide_of_le hle, List.mapIdx_cons, Lts.exec, hlen]
    simp only [hfront, hrest, Option.bind_eq_bind, Option.bind_some, hslice, hstart, ih]
    rcases FrameSender.sendFrame v encode target udpSocket sender (s.take tenMsBufferLength, env 0) with
      _ | ⟨sender₁, sent⟩
    · rfl
    · dsimp only [Option.bind_some]
      rcases Lts.exec (FrameSender.sendFrame v encode target udpSocket) sender₁ _ with _ | ⟨sender₂, more⟩ <;> rfl
  | case2 s hlt =>
    have hshort : ¬ tenMsBufferLength ≤ s.length := hlt
    rw [cutFrames, dif_neg hshort, Framing.divide_of_short (Nat.not_le.mp hlt)]
    rfl

end Capture

/-! ### A frame -/

namespace FrameSender

/-- A frame is measured within its bytes. -/
theorem calcVolume_frame {pcm : Bytes} (h : pcm.length = tenMsBufferLength) (inOut : AudioInOut) (now : ℤ) :
    ∃ level, Entry.calcVolume pcm inOut now now now now = .ok level := by
  apply (Entry.calcVolume_ok_iff pcm inOut now now now now).mpr
  exact Or.inr h.ge

/-- What comes of a frame, if the thread goes on and the packet can be built. -/
theorem sendFrame_eq (self : FrameSender E) {pcm : Bytes} (h : pcm.length = tenMsBufferLength) (env : FrameEnv) :
    ∃ volume, encodedOf volume = [] ∧ builtOf volume = [] ∧ self.sendFrame v encode target udpSocket (pcm, env) =
      if SendException.goesOn (target.send udpSocket env.resolved env.ok) then
        (withPayload v env.upTime .AudioMessage self.audioSN (encode self.encoder pcm).2).toOption.map fun packet =>
          (⟨(encode self.encoder pcm).1, self.audioSN + 1, self.counterVolumeMeter_mic + 1⟩,
            volume ++ [.encoded pcm, .built packet])
      else none := by
  obtain ⟨level, hlevel⟩ := calcVolume_frame h .In env.now
  by_cases hdue : self.counterVolumeMeter_mic % DownStreamThread.counterCycle = 0
  · refine ⟨[.volume (level + 0)], rfl, rfl, ?_⟩
    simp only [sendFrame, if_pos hdue, hlevel]
    cases SendException.goesOn (target.send udpSocket env.resolved env.ok) <;>
      rcases withPayload v env.upTime .AudioMessage self.audioSN (encode self.encoder pcm).2 with e | p <;> rfl
  · refine ⟨[], rfl, rfl, ?_⟩
    simp only [sendFrame, if_neg hdue]
    cases SendException.goesOn (target.send udpSocket env.resolved env.ok) <;>
      rcases withPayload v env.upTime .AudioMessage self.audioSN (encode self.encoder pcm).2 with e | p <;> rfl

end FrameSender

@[simp] theorem encodedOf_append (o o' : List CaptureObs) : encodedOf (o ++ o') = encodedOf o ++ encodedOf o' :=
  List.filterMap_append

@[simp] theorem builtOf_append (o o' : List CaptureObs) : builtOf (o ++ o') = builtOf o ++ builtOf o' :=
  List.filterMap_append

/-- The frames are encoded one after the other and sent, numbered from `audioSN` on. -/
structure FramesSent (s : FrameSender E) (frames : List Bytes) (s' : FrameSender E) (o : List CaptureObs) : Prop where
  encoder : s'.encoder = Mealy.state encode s.encoder frames
  audioSN : s'.audioSN = s.audioSN + UInt32.ofNat frames.length
  fits : ∀ out ∈ Mealy.outputs encode s.encoder frames, out.length ≤ 65535
  encoded : encodedOf o = frames
  payloads : (builtOf o).map payload = Mealy.outputs encode s.encoder frames
  serials : (builtOf o).map serialNumber = (List.range frames.length).map fun k => s.audioSN + UInt32.ofNat k

namespace FramesSent

variable {encode}

theorem nil (s : FrameSender E) : FramesSent encode s [] s [] :=
  ⟨rfl, (UInt32.add_zero _).symm, fun _ h => absurd h List.not_mem_nil, rfl, rfl, rfl⟩

theorem append {s s₁ s₂ : FrameSender E} {fs gs : List Bytes} {o₁ o₂ : List CaptureObs}
    (h₁ : FramesSent encode s fs s₁ o₁) (h₂ : FramesSent encode s₁ gs s₂ o₂) :
    FramesSent encode s (fs ++ gs) s₂ (o₁ ++ o₂) := by
  have hstate := Mealy.state_append encode s.encoder fs gs
  have houtputs := Mealy.outputs_append encode s.encoder fs gs
  rw [← h₁.encoder] at hstate houtputs
  refine ⟨?_, ?_, ?_, ?_, ?_, ?_⟩
  · rw [h₂.encoder, hstate]
  · rw [h₂.audioSN, h₁.audioSN, List.length_append, UInt32.ofNat_add, UInt32.add_assoc]
  · rw [houtputs]
    exact fun out h => (List.mem_append.mp h).elim (h₁.fits out) (h₂.fits out)
  · rw [encodedOf_append, h₁.encoded, h₂.encoded]
  · rw [builtOf_append, List.map_append, h₁.payloads, h₂.payloads, houtputs]
  · rw [builtOf_append, List.map_append, h₁.serials, h₂.serials, List.length_append, List.range_add, List.map_append,
      List.map_map, h₁.audioSN]
    congr 1
    apply List.map_congr_left
    intro k _
    rw [Function.comp, UInt32.ofNat_add, UInt32.add_assoc]

end FramesSent

namespace FrameSender

variable {v encode target udpSocket}

theorem sendFrame_sent {s s' : FrameSender E} {frame : Bytes × FrameEnv} {o : List CaptureObs}
    (hlen : frame.1.length = tenMsBufferLength) (h : s.sendFrame v encode target udpSocket frame = some (s', o)) :
    FramesSent encode s [frame.1] s' o := by
  obtain ⟨volume, hencoded, hbuilt, heq⟩ := sendFrame_eq v encode target udpSocket s hlen frame.2
  have hframe := heq.symm.trans h
  split at hframe
  case isFalse => cases hframe
  have hsent : Option.map _ _ = some (s', o) := hframe
  rcases Nat.lt_or_ge 65535 (encode s.encoder frame.1).2.length with hlong | hfit
  · rw [withPayload_error _ _ _ _ _ hlong] at hsent
    cases hsent
  · obtain ⟨p, hp, hbytes⟩ := withPayload_ok v frame.2.upTime .AudioMessage s.audioSN _ hfit
    rw [hp] at hsent
    cases hsent
    refine ⟨rfl, rfl, ?_, ?_, ?_, ?_⟩
    · intro out hout
      cases List.mem_singleton.mp hout
      exact hfit
    · rw [encodedOf_append, hencoded]
      rfl
    · rw [builtOf_append, hbuilt]
      exact congrArg (fun b => [b]) (payload_of_bytes hbytes)
    · rw [builtOf_append, hbuilt]
      have hserial := serialNumber_of_bytes hbytes
      show [p.serialNumber] = [s.audioSN + UInt32.ofNat 0]
      rw [hserial]
      exact congrArg (fun b => [b]) (UInt32.add_zero _).symm

/-- All of the frames are sent, if what is encoded fits. -/
theorem exec_sendFrame (hport : target.PortOK) (hsocket : udpSocket ≠ none) {s : FrameSender E}
    {frames : List (Bytes × FrameEnv)} (hlen : ∀ f ∈ frames, f.1.length = tenMsBufferLength)
    (hfits : ∀ out ∈ Mealy.outputs encode s.encoder (frames.map Prod.fst), out.length ≤ 65535) :
    ∃ s' o, Lts.exec (sendFrame v encode target udpSocket) s frames = some (s', o) := by
  induction frames generalizing s with
  | nil => exact ⟨s, [], rfl⟩
  | cons f fs ih =>
    have hfirst : (encode s.encoder f.1).2.length ≤ 65535 := hfits _ List.mem_cons_self
    obtain ⟨volume, -, -, heq⟩ := sendFrame_eq v encode target udpSocket s (hlen f List.mem_cons_self) f.2
    obtain ⟨p, hp, -⟩ := withPayload_ok v f.2.upTime .AudioMessage s.audioSN _ hfirst
    rw [if_pos (AndroidWorker.goesOn_send hport hsocket _ _), hp] at heq
    have hstep : s.sendFrame v encode target udpSocket f = some (_, _) := heq
    obtain ⟨s', o, hexec⟩ := ih (s := ⟨(encode s.encoder f.1).1, s.audioSN + 1, s.counterVolumeMeter_mic + 1⟩)
      (fun g hg => hlen g (List.mem_cons_of_mem f hg)) fun out hout => hfits out (List.mem_cons_of_mem _ hout)
    exact ⟨s', _, (Lts.exec_cons_iff _).mpr ⟨_, _, o, hstep, hexec, rfl⟩⟩

theorem exec_sent {s s' : FrameSender E} {frames : List (Bytes × FrameEnv)} {o : List CaptureObs}
    (hlen : ∀ f ∈ frames, f.1.length = tenMsBufferLength)
    (h : Lts.exec (sendFrame v encode target udpSocket) s frames = some (s', o)) :
    FramesSent encode s (frames.map Prod.fst) s' o := by
  refine Lts.history_rule (sendFrame v encode target udpSocket)
    (fun fs s₁ o₁ => (∀ f ∈ fs, f.1.length = tenMsBufferLength) → FramesSent encode s (fs.map Prod.fst) s₁ o₁)
    (fun _ => FramesSent.nil s) ?_ h hlen
  intro fs s₁ o₁ f s₂ o₂ ih hstep hall
  have hbefore := ih fun g hg => hall g (List.mem_append_left _ hg)
  have hone := sendFrame_sent (hall f (List.mem_append_right _ (List.mem_singleton_self f))) hstep
  rw [List.map_append]
  exact hbefore.append hone

end FrameSender

/-! ### The stream -/

theorem streamOf_concat (reads : List AudioRead) (r : AudioRead) :
    streamOf (reads ++ [r]) = streamOf reads ++ r.bytes := by
  simp [streamOf]

/-- The frames of what is in the buffer and what is read behind it, and what is left. As long as
nothing is read, nothing is cut off. -/
def reframe (left stream : Bytes) : List Bytes × Bytes :=
  if stream = [] then ([], left) else tenMs.divide (left ++ stream)

theorem reframe_nil (left : Bytes) : reframe left [] = ([], left) := if_pos rfl

theorem reframe_spec (left stream : Bytes) :
    (reframe left stream).1.flatten ++ (reframe left stream).2 = left ++ stream ∧
    (∀ f ∈ (reframe left stream).1, f.length = tenMsBufferLength) ∧
    (left.length < tenMsBufferLength ∨ stream ≠ [] → (reframe left stream).2.length < tenMsBufferLength) := by
  rcases eq_or_ne stream [] with rfl | hne
  · rw [reframe_nil, List.append_nil]
    exact ⟨rfl, fun _ h => absurd h List.not_mem_nil, fun h => h.resolve_right fun hne => hne rfl⟩
  · obtain ⟨hflat, hwhole, hpartial⟩ := Framing.divide_spec (F := tenMs) (left ++ stream)
    rw [reframe, if_neg hne]
    exact ⟨hflat, fun f hf => (hwhole f hf).symm, fun _ => hpartial⟩

/-- What comes next goes behind what is left. -/
theorem reframe_append (left stream b : Bytes) : reframe left (stream ++ b) =
    ((reframe left stream).1 ++ (reframe (reframe left stream).2 b).1, (reframe (reframe left stream).2 b).2) := by
  rcases eq_or_ne stream [] with rfl | hne
  · rw [reframe_nil]
    rfl
  · rcases eq_or_ne b [] with rfl | hb
    · rw [reframe_nil, List.append_nil, List.append_nil]
    · have hstart : reframe left stream = tenMs.divide (left ++ stream) := if_neg hne
      have hall : reframe left (stream ++ b) = tenMs.divide (left ++ (stream ++ b)) :=
        if_neg (List.append_ne_nil_of_left_ne_nil hne b)
      have hrest : reframe (reframe left stream).2 b = tenMs.divide ((reframe left stream).2 ++ b) := if_neg hb
      rw [hrest, hstart, hall, ← List.append_assoc]
      exact Framing.divide_append _ _

theorem reframe_prefix {left stream stream' : Bytes} (h : stream <+: stream') :
    (reframe left stream).1 <+: (reframe left stream').1 := by
  obtain ⟨b, rfl⟩ := h
  rw [reframe_append]
  exact List.prefix_append _ _

namespace Capture

variable {v encode target udpSocket}

/-- A turn of the loop reframes the buffer with what was read. -/
theorem step_eq (s : Capture E) (r : AudioRead) : step v encode target udpSocket s r =
    (Lts.exec (FrameSender.sendFrame v encode target udpSocket) s.sender
      ((reframe s.pcmBuffer_mic r.bytes).1.mapIdx fun k f => (f, r.env k))).map
        fun t => (⟨t.1, (reframe s.pcmBuffer_mic r.bytes).2⟩, t.2) := by
  by_cases hcount : r.pcmLengthInByte_mic ≤ 0
  · have hnone : r.bytes = [] := by
      rw [AudioRead.bytes, Int.toNat_of_nonpos hcount, List.take_zero]
    rw [step, if_pos hcount, hnone, reframe_nil]
    rfl
  · have hwithin := r.within
    have hfits : r.pcmLengthInByte_mic.toNat ≤ r.buffer.length := by omega
    have hsome : r.bytes ≠ [] := by
      apply List.ne_nil_of_length_pos
      rw [AudioRead.bytes, List.length_take]
      omega
    obtain ⟨⟨_, hfirst⟩, _, hsecond⟩ := arraycopy_behind s.pcmBuffer_mic r.buffer hfits
    rw [step, if_neg hcount, reframe, if_neg hsome, ← cutFrames_eq]
    simp only [hfirst, hsecond, Option.bind_eq_bind, Option.bind_some]
    rfl

variable (encode) in
/-- After the reads so far: their frames are sent, and the buffer holds what is left. -/
structure Reframed (s₀ : FrameSender E) (left stream : Bytes) (s : Capture E) (o : List CaptureObs) : Prop where
  sent : FramesSent encode s₀ (reframe left stream).1 s.sender o
  rest : s.pcmBuffer_mic = (reframe left stream).2

namespace Reframed

variable {s₀ : FrameSender E} {left stream : Bytes} {s s' : Capture E} {o o' : List CaptureObs}

/-- The frames that a read completes. -/
theorem frames_length (left b : Bytes) (env : ℕ → FrameEnv) :
    ∀ f ∈ (reframe left b).1.mapIdx fun k f => (f, env k), f.1.length = tenMsBufferLength := by
  intro f hf
  obtain ⟨k, hk, rfl⟩ := List.mem_mapIdx.mp hf
  exact (reframe_spec left b).2.1 _ (List.getElem_mem hk)

theorem frames_fst (fs : List Bytes) (env : ℕ → FrameEnv) : (fs.mapIdx fun k f => (f, env k)).map Prod.fst = fs := by
  apply List.ext_getElem
  · rw [List.length_map, List.length_mapIdx]
  · intro k h₁ h₂
    rw [List.getElem_map, List.getElem_mapIdx]

/-- A turn of the loop. -/
theorem step (h : Reframed encode s₀ left stream s o) {r : AudioRead}
    (hstep : Capture.step v encode target udpSocket s r = some (s', o')) :
    Reframed encode s₀ left (stream ++ r.bytes) s' (o ++ o') := by
  rw [step_eq] at hstep
  obtain ⟨⟨s₁, o₁⟩, hexec, heq⟩ := Option.map_eq_some_iff.mp hstep
  cases heq
  have hsent := FrameSender.exec_sent (frames_length _ _ r.env) hexec
  rw [frames_fst, h.rest] at hsent
  refine ⟨?_, ?_⟩
  · rw [reframe_append]
    exact h.sent.append hsent
  · rw [reframe_append, h.rest]

/-- The loop goes on where what is encoded fits. -/
theorem step_some (hport : target.PortOK) (hsocket : udpSocket ≠ none) (h : Reframed encode s₀ left stream s o)
    (v : Version) {r : AudioRead}
    (hfits : ∀ out ∈ Mealy.outputs encode s₀.encoder (reframe left (stream ++ r.bytes)).1, out.length ≤ 65535) :
    ∃ s' o', Capture.step v encode target udpSocket s r = some (s', o') := by
  rw [reframe_append, Mealy.outputs_append, ← h.sent.encoder, ← h.rest] at hfits
  obtain ⟨s₁, o₁, hexec⟩ := FrameSender.exec_sendFrame (v := v) hport hsocket (frames_length _ _ r.env)
    (s := s.sender) <| by
    rw [frames_fst]
    exact fun out hout => hfits out (List.mem_append_right _ hout)
  rw [step_eq, hexec]
  exact ⟨_, _, rfl⟩

end Reframed

variable {left : Bytes} {e : E} {sn : UInt32} {counter : ℕ} {reads : List AudioRead}

/-- Runs end as the stream says. -/
theorem exec_reframed {s : Capture E} {o : List CaptureObs}
    (h : Lts.exec (step v encode target udpSocket) (create left e sn counter) reads = some (s, o)) :
    Reframed encode ⟨e, sn, counter⟩ left (streamOf reads) s o := by
  refine Lts.history_rule (Capture.step v encode target udpSocket)
    (fun rs s₁ o₁ => Reframed encode ⟨e, sn, counter⟩ left (streamOf rs) s₁ o₁) ?_ ?_ h
  · refine ⟨?_, ?_⟩
    · exact FramesSent.nil _
    · exact congrArg Prod.snd (reframe_nil left).symm
  · intro rs s₁ o₁ r s₂ o₂ ih hstep
    rw [streamOf_concat]
    exact ih.step hstep

/-- The loop goes on as long as what is encoded fits into a packet. -/
theorem exec_some (hport : target.PortOK) (hsocket : udpSocket ≠ none)
    (h : ∀ out ∈ Mealy.outputs encode e (reframe left (streamOf reads)).1, out.length ≤ 65535) :
    ∃ s o, Lts.exec (step v encode target udpSocket) (create left e sn counter) reads = some (s, o) := by
  induction reads using List.reverseRecOn with
  | nil => exact ⟨_, [], rfl⟩
  | append_singleton reads r ih =>
    rw [streamOf_concat] at h
    have hbefore : ∀ out ∈ Mealy.outputs encode e (reframe left (streamOf reads)).1, out.length ≤ 65535 := by
      intro out hout
      apply h out
      rw [reframe_append, Mealy.outputs_append]
      exact List.mem_append_left _ hout
    obtain ⟨s₁, o₁, hexec⟩ := ih hbefore
    obtain ⟨s₂, o₂, hstep⟩ := (exec_reframed hexec).step_some hport hsocket v h
    exact ⟨s₂, o₁ ++ o₂, (Lts.exec_concat _).mpr ⟨s₁, o₁, o₂, hexec, hstep, rfl⟩⟩

end Capture

end

open Capture

/-- **How the reads fall does not matter.** Whatever is left in the buffer by the calls before,
and whatever the reads return: the frames that are encoded and what is left are what was there
and the bytes read behind it, each frame has 320 bytes and less than that is left, and the packets
carry what is encoded, numbered one after the other. A second call that finds the same in the
buffer and reads the same bytes encodes the same frames, and one that reads on encodes them first.
With a socket and a port to send to, the loop ends only where the encoder's output does not fit
into a packet. Over all calls of a worker, from its empty buffer on, no byte is lost or encoded
twice. -/
theorem capture_reframes {E : Type} (v : Version) (encode : E → Bytes → E × Bytes) :
    (∀ (left : Bytes) (call : MicCall E),
      (call.target.PortOK → call.udpSocket ≠ none → ((∃ s o, call.exec v encode left = some (s, o)) ↔
        ∀ out ∈ Mealy.outputs encode call.encoder (reframe left (streamOf call.reads)).1, out.length ≤ 65535)) ∧
      ∀ s o, call.exec v encode left = some (s, o) →
        ((encodedOf o).flatten ++ s.pcmBuffer_mic = left ++ streamOf call.reads ∧ (∀ f ∈ encodedOf o, f.length = 320) ∧
          (left.length < 320 ∨ streamOf call.reads ≠ [] → s.pcmBuffer_mic.length < 320)) ∧
        ((builtOf o).map payload = Mealy.outputs encode call.encoder (encodedOf o) ∧ (builtOf o).map serialNumber =
          (List.range (encodedOf o).length).map fun k => call.audioSN + UInt32.ofNat k) ∧
        ∀ (call' : MicCall E) s' o', call'.exec v encode left = some (s', o') →
          (streamOf call.reads = streamOf call'.reads →
            encodedOf o = encodedOf o' ∧ s.pcmBuffer_mic = s'.pcmBuffer_mic) ∧
          (streamOf call.reads <+: streamOf call'.reads → encodedOf o <+: encodedOf o')) ∧
    ∀ (calls : List (MicCall E)) left o, Lts.exec (MicCall.run v encode) (newArray 0) calls = some (left, o) →
      (encodedOf o).flatten ++ left = (calls.map fun call => streamOf call.reads).flatten ∧
        (∀ f ∈ encodedOf o, f.length = 320) ∧ left.length < 320 := by
  have hone : ∀ {left : Bytes} {call : MicCall E} {s o}, call.exec v encode left = some (s, o) →
      (encodedOf o).flatten ++ s.pcmBuffer_mic = left ++ streamOf call.reads ∧ (∀ f ∈ encodedOf o, f.length = 320) ∧
        (left.length < 320 ∨ streamOf call.reads ≠ [] → s.pcmBuffer_mic.length < 320) := by
    intro left call s o h
    obtain ⟨hsent, hrest⟩ := exec_reframed h
    rw [hsent.encoded, hrest]
    exact reframe_spec left (streamOf call.reads)
  refine ⟨fun left call => ⟨fun hport hsocket => ⟨?_, exec_some hport hsocket⟩, fun s o h => ?_⟩,
    fun calls left o h => ?_⟩
  · rintro ⟨s, o, h⟩
    exact (exec_reframed h).sent.fits
  · obtain ⟨hsent, hrest⟩ := exec_reframed h
    refine ⟨hone h, ⟨?_, ?_⟩, fun call' s' o' h' => ?_⟩
    · rw [hsent.encoded, hsent.payloads]
    · rw [hsent.encoded, hsent.serials]
    · obtain ⟨hsent', hrest'⟩ := exec_reframed h'
      rw [hsent.encoded, hsent'.encoded, hrest, hrest']
      exact ⟨fun hsame => by rw [hsame]; exact ⟨rfl, rfl⟩, reframe_prefix⟩
  · refine Lts.history_rule (MicCall.run v encode) (fun calls left o =>
      (encodedOf o).flatten ++ left = (calls.map fun call => streamOf call.reads).flatten ∧
        (∀ f ∈ encodedOf o, f.length = 320) ∧ left.length < 320) ⟨rfl, by simp [encodedOf], by decide⟩ ?_ h
    rintro calls left o call left' o' ⟨hflat, hwhole, hshort⟩ hrun
    obtain ⟨⟨s, o₁⟩, hexec, heq⟩ := Option.map_eq_some_iff.mp hrun
    cases heq
    obtain ⟨hflat', hwhole', hshort'⟩ := hone hexec
    refine ⟨?_, ?_, hshort' (Or.inl hshort)⟩
    · rw [encodedOf_append, List.flatten_append, List.append_assoc, hflat', ← List.append_assoc, hflat,
        List.map_append, List.flatten_append, List.map_singleton, List.flatten_singleton]
    · rw [encodedOf_append]
      exact fun f hf => (List.mem_append.mp hf).elim (hwhole f) (hwhole' f)

/-- An encoder that keeps two bytes of a frame, and counts. -/
def sampleEncode (n : ℕ) (pcm : Bytes) : ℕ × Bytes := (n + 1, pcm.take 2)

theorem sampleEncode_fits (n : ℕ) (frames : List Bytes) :
    ∀ out ∈ Mealy.outputs sampleEncode n frames, out.length ≤ 65535 := by
  induction frames generalizing n with
  | nil => exact fun _ h => absurd h List.not_mem_nil
  | cons f fs ih =>
    refine List.forall_mem_cons.mpr ⟨?_, ih (n + 1)⟩
    exact (List.length_take_le 2 f).trans (by decide)

/-- A read of `n` bytes into a buffer of as many. -/
def sampleRead (n : ℕ) (b : UInt8) : AudioRead :=
  ⟨List.replicate n b, n, by rw [List.length_replicate], fun _ => ⟨0, 0, true, true⟩⟩

theorem bytes_sampleRead (n : ℕ) (b : UInt8) : (sampleRead n b).bytes = List.replicate n b :=
  List.take_of_length_le (List.length_replicate ..).le

/-- A read that fails. -/
def failedRead : AudioRead := ⟨newArray 640, -1, by decide, fun _ => ⟨0, 0, true, true⟩⟩

theorem bytes_failedRead : failedRead.bytes = [] := rfl

/-- A call with such reads. -/
def sampleMicCall (reads : List AudioRead) : MicCall ℕ := ⟨0, 7, 0, ⟨some "10.0.0.1", 1222⟩, some 0, reads⟩

/-- No read is a frame: the first call leaves 80 bytes, and the next one makes a frame of these and
of parts of its two reads. -/
theorem capture_reframes_split : ∃ left o,
    Lts.exec (MicCall.run sampleVersion sampleEncode) (newArray 0)
      [sampleMicCall [sampleRead 200 1, failedRead, sampleRead 200 2],
        sampleMicCall [sampleRead 100 3, sampleRead 300 4]] = some (left, o) ∧
    (encodedOf o).length = 2 ∧ left.length = 160 ∧
    (encodedOf o).flatten ++ left = (sampleRead 200 1).bytes ++ (sampleRead 200 2).bytes ++
      ((sampleRead 100 3).bytes ++ (sampleRead 300 4).bytes) := by
  have hcall : ∀ left reads, ∃ s o, (sampleMicCall reads).exec sampleVersion sampleEncode left = some (s, o) :=
    fun left reads => (((capture_reframes sampleVersion sampleEncode).1 left (sampleMicCall reads)).1
      (show AndroidWorker.PortOK ⟨_, 1222⟩ by decide) (Option.some_ne_none 0)).mpr (sampleEncode_fits _ _)
  obtain ⟨s₁, o₁, h₁⟩ := hcall (newArray 0) [sampleRead 200 1, failedRead, sampleRead 200 2]
  obtain ⟨s₂, o₂, h₂⟩ := hcall s₁.pcmBuffer_mic [sampleRead 100 3, sampleRead 300 4]
  have hlife : Lts.exec (MicCall.run sampleVersion sampleEncode) (newArray 0)
      [sampleMicCall [sampleRead 200 1, failedRead, sampleRead 200 2],
        sampleMicCall [sampleRead 100 3, sampleRead 300 4]] =
        some (s₂.pcmBuffer_mic, o₁ ++ (o₂ ++ [])) := by
    simp only [Lts.exec, MicCall.run, h₁, h₂, Option.map_some]
  obtain ⟨hflat, hwhole, hshort⟩ := (capture_reframes sampleVersion sampleEncode).2 _ _ _ hlife
  refine ⟨_, _, hlife, ?_⟩
  set frames := encodedOf (o₁ ++ (o₂ ++ []))
  have hframes : frames.flatten.length = frames.length * 320 := by
    rw [List.length_flatten, List.map_congr_left hwhole, List.map_const', List.sum_replicate]
    rfl
  have hstream : frames.flatten ++ s₂.pcmBuffer_mic = List.replicate 200 1 ++ List.replicate 200 2 ++
      (List.replicate 100 3 ++ List.replicate 300 4) := by
    rw [hflat]
    simp only [sampleMicCall, List.map_cons, List.map_nil, streamOf, bytes_sampleRead, bytes_failedRead,
      List.flatten_cons, List.flatten_nil, List.append_nil, List.nil_append]
  have htotal := congrArg List.length hstream
  simp only [List.length_append, hframes, List.length_replicate] at htotal
  simp only [bytes_sampleRead]
  exact ⟨by omega, by omega, hstream⟩

end EasyVoiceCall
