/-
# `DownstreamProcessor`: from packets to the loudspeaker

`audio_engine/JitterBuffer.hpp` and `audio_engine/DownstreamProcessor.cpp`.
`append` decodes an audio packet into a segment and pushes it, `fetch` pops one
for every 10 ms of output, or makes one up, and plays the one it got the time
before. The two are atomic here. `boost::lockfree::spsc_queue` is a bounded
queue; the Opus decoder and the comfort noise decoder are given as functions
on states of their own.

What an observer sees of a call is a record (`Appended`, `Fetched`). A run is a
list of calls, from a processor just constructed.

Key theorems: `DownstreamProcessor.append_spec`, `DownstreamProcessor.fetch_spec`.
-/
import EasyVoiceCall.Fade
import EasyVoiceCall.Lib.Fifo
import EasyVoiceCall.Lib.Machine
import EasyVoiceCall.NetPacket

namespace EasyVoiceCall

open Buffer

/-! ### The jitter buffer -/

/-- The `std::tuple` of a timestamp and a segment. -/
structure Item where
  timestamp : UInt32
  segment : Ptr
  deriving DecidableEq

/-- `decodedBuffer_`. -/
abbrev JitterBuffer := List Item

namespace JitterBuffer

def capacity : ℕ := 100

def append (buffer : JitterBuffer) (pcm : Item) : JitterBuffer × Bool := Fifo.push capacity buffer pcm

def fetch (buffer : JitterBuffer) : JitterBuffer × Option Item := Fifo.pop buffer

end JitterBuffer

/-! ### The decoders -/

/-- `AudioDecoder` and `webrtc::ComfortNoiseDecoder`. A failed `decode` leaves the
vector as it was; `Generate` fills a whole block. -/
structure Decoders (D N : Type) where
  decode : D → Bytes → D × Option (List Int16)
  UpdateSid : N → Bytes → N
  Generate : N → Bool → N × PcmSegment

/-- A decoder that fails, and silence for comfort noise. -/
def sampleDecoders : Decoders Unit Unit := ⟨fun d _ => (d, none), fun n _ => n, fun n _ => (n, PcmSegment.silence)⟩

/-! ### The processor -/

structure DownstreamProcessor (D N : Type) where
  heap : Heap
  jitterBuffer_ : JitterBuffer
  decoder_ : D
  largestReceivedMediaDataTimestamp_ : UInt32
  lastReceivedAudioSn_ : UInt32
  lastIsCnPacket_ : Bool
  cnDecoder_ : N
  m1_ : Option Item
  m2_ : Option Item

/-- A call of `append`, as seen: the packet, the segment made of it, whether the
buffer had room, the size of `decodedPcm`, the flag given to `Generate`, and
the two complaints about the order. -/
structure Appended where
  packet : NetPacket
  item : Item
  samples : PcmSegment
  kept : Bool
  pcmSize : ℕ
  newPeriod : Option Bool
  descending : Bool
  skipped : Bool

/-- A call of `fetch`, as seen: what it obtained and from where, its samples
then, the flag given to `Generate`, and what it played. -/
structure Fetched where
  obtained : Item
  fromBuffer : Bool
  data : PcmSegment
  newPeriod : Option Bool
  played : Option Item
  outData : PcmSegment

inductive DownObs
  | appended (a : Appended)
  | fetched (f : Fetched)

/-- A call. `beyond` is what memory holds after the decoded samples, where the
copy of a block runs past them. -/
inductive DownOp
  | append (netPacket : NetPacket) (beyond : PcmSegment)
  | fetch

namespace DownstreamProcessor

variable {D N : Type} {K : Type} [Field K] [LinearOrder K] [IsStrictOrderedRing K] [FloorRing K]

/-- The constructor, with decoders in their first states. -/
def create (d : D) (n : N) : DownstreamProcessor D N :=
  ⟨[], [], d, 0, 0, false, n, none, none⟩

/-- What `decodeAndAecBufferFarend` makes of the packet: the decoders' states, the
vector `decodedPcm`, the flag given to `Generate`. -/
def decodePacket (dec : Decoders D N) (self : DownstreamProcessor D N) (netPacket : NetPacket)
    (decodedPcm : List Int16) : DownstreamProcessor D N × List Int16 × Option Bool :=
  if netPacket.payloadType = .AudioMessage then
    let r := dec.decode self.decoder_ netPacket.payload
    ({ self with decoder_ := r.1, lastIsCnPacket_ := false }, r.2.getD decodedPcm, none)
  else if netPacket.payloadType = .AudioMessage_CN then
    let cn := dec.UpdateSid self.cnDecoder_ netPacket.payload
    let r := dec.Generate cn self.lastIsCnPacket_
    ({ self with cnDecoder_ := r.1, lastIsCnPacket_ := true }, List.ofFn r.2, some self.lastIsCnPacket_)
  else (self, decodedPcm, none)

/-- `currentTS < largestReceivedMediaDataTimestamp_`. -/
def isDescending (self : DownstreamProcessor D N) (netPacket : NetPacket) : Bool :=
  netPacket.timestamp < self.largestReceivedMediaDataTimestamp_

/-- The check of the serial number: it is made while the last one is zero. -/
def isSkipped (self : DownstreamProcessor D N) (netPacket : NetPacket) : Bool :=
  self.lastReceivedAudioSn_ = 0 ∧ self.lastReceivedAudioSn_ + 1 ≠ netPacket.serialNumber

/-- `decodeAndAecBufferFarend`, with the two runtime verifications. -/
def decodeAndAecBufferFarend (dec : Decoders D N) (self : DownstreamProcessor D N) (netPacket : NetPacket)
    (decodedPcm : List Int16) : DownstreamProcessor D N × List Int16 × Option Bool :=
  let r := self.decodePacket dec netPacket decodedPcm
  ({ r.1 with
      largestReceivedMediaDataTimestamp_ :=
        if self.isDescending netPacket then self.largestReceivedMediaDataTimestamp_ else netPacket.timestamp
      lastReceivedAudioSn_ := netPacket.serialNumber }, r.2)

/-- The `memcpy` of a block from the vector, which may be shorter. -/
def copyBlock (pcm : List Int16) (beyond : PcmSegment) : PcmSegment :=
  fun pos => pcm.getD pos (beyond pos)

/-- `append`. -/
def append (dec : Decoders D N) (self : DownstreamProcessor D N) (netPacket : NetPacket) (beyond : PcmSegment) :
    DownstreamProcessor D N × Appended :=
  let r := self.decodeAndAecBufferFarend dec netPacket (List.replicate blockSize 0)
  let segment := self.heap.length
  let samples := copyBlock r.2.1 beyond
  let item : Item := ⟨netPacket.timestamp, segment⟩
  let q := self.jitterBuffer_.append item
  ({ r.1 with heap := self.heap ++ [samples], jitterBuffer_ := q.1 },
    { packet := netPacket, item, samples, kept := q.2, pcmSize := r.2.1.length, newPeriod := r.2.2
      descending := self.isDescending netPacket, skipped := self.isSkipped netPacket })

/-- The part of `fetch` that makes up a segment: silence at the start, later a
block of comfort noise, with the last two segments faded out. -/
def predicted (dec : Decoders D N) (c : FadeCurve K) (self : DownstreamProcessor D N) :
    Except FadeError (DownstreamProcessor D N × Item × Option Bool) :=
  let predicted := self.heap.length
  let heap := self.heap ++ [PcmSegment.silence]
  match self.m1_, self.m2_ with
  | some m1, some m2 => do
    let heap ← PacketLossConcealment_ZeroInsertion.predict c [m1.segment, m2.segment] predicted heap
    let tmpCN := dec.Generate self.cnDecoder_ self.lastIsCnPacket_
    return ({ self with heap := heap.write predicted tmpCN.2, cnDecoder_ := tmpCN.1, lastIsCnPacket_ := true },
      ⟨0, predicted⟩, some self.lastIsCnPacket_)
  | _, _ => .ok ({ self with heap }, ⟨0, predicted⟩, none)

/-- The rest of `fetch`: shifts `data` in and plays the item before it. -/
def play (self : DownstreamProcessor D N) (data : Item) (fromBuffer : Bool) (newPeriod : Option Bool) :
    DownstreamProcessor D N × Fetched :=
  ({ self with m1_ := some data, m2_ := self.m1_ },
    { obtained := data, fromBuffer, data := self.heap.read data.segment, newPeriod, played := self.m1_
      outData := match self.m1_ with
        | some m2 => self.heap.read m2.segment
        | none => PcmSegment.silence })

/-- `fetch`. -/
def fetch (dec : Decoders D N) (c : FadeCurve K) (self : DownstreamProcessor D N) :
    Except FadeError (DownstreamProcessor D N × Fetched) :=
  let q := self.jitterBuffer_.fetch
  let self := { self with jitterBuffer_ := q.1 }
  match q.2 with
  | some data => .ok (self.play data true none)
  | none => do
    let r ← self.predicted dec c
    return r.1.play r.2.1 false r.2.2

/-- One call; `none` where it ends the program. -/
def step (dec : Decoders D N) (c : FadeCurve K) (self : DownstreamProcessor D N) :
    DownOp → Option (DownstreamProcessor D N × List DownObs)
  | .append netPacket beyond =>
    let r := self.append dec netPacket beyond
    some (r.1, [.appended r.2])
  | .fetch =>
    match self.fetch dec c with
    | .ok r => some (r.1, [.fetched r.2])
    | .error _ => none

omit [IsStrictOrderedRing K] in
theorem step_fetch {dec : Decoders D N} {c : FadeCurve K} {self : DownstreamProcessor D N} {r}
    (hr : self.fetch dec c = .ok r) : self.step dec c .fetch = some (r.1, [.fetched r.2]) := by
  unfold step
  rw [hr]

/-- A run from the constructor. -/
abbrev exec (dec : Decoders D N) (c : FadeCurve K) (d : D) (n : N) (ops : List DownOp) :
    Option (DownstreamProcessor D N × List DownObs) :=
  Lts.exec (step dec c) (create d n) ops

/-! ### What a call does -/

omit [LinearOrder K] [IsStrictOrderedRing K] [FloorRing K] [Field K] in
/-- Decoding leaves the segments and the pointers to them alone. -/
theorem decodePacket_frame (dec : Decoders D N) (self : DownstreamProcessor D N) (p : NetPacket) (pcm : List Int16) :
    (self.decodePacket dec p pcm).1.m1_ = self.m1_ ∧ (self.decodePacket dec p pcm).1.m2_ = self.m2_ := by
  unfold decodePacket
  split
  · exact ⟨rfl, rfl⟩
  · split <;> exact ⟨rfl, rfl⟩

/-- **`append`**: a new segment at the end of the memory, pushed if there is room. -/
theorem append_spec (dec : Decoders D N) (self : DownstreamProcessor D N) (p : NetPacket) (beyond : PcmSegment) :
    let r := self.append dec p beyond
    r.1.heap = self.heap ++ [r.2.samples] ∧ r.1.m1_ = self.m1_ ∧ r.1.m2_ = self.m2_ ∧
    r.1.jitterBuffer_ = (Fifo.push JitterBuffer.capacity self.jitterBuffer_ r.2.item).1 ∧
    r.2.kept = (Fifo.push JitterBuffer.capacity self.jitterBuffer_ r.2.item).2 ∧
    r.2.item = ⟨p.timestamp, self.heap.length⟩ ∧ r.2.packet = p := by
  obtain ⟨h1, h2⟩ := decodePacket_frame dec self p (List.replicate blockSize 0)
  exact ⟨rfl, h1, h2, rfl, rfl, rfl, rfl⟩

/-- The last two items are two segments of the memory. -/
def Valid (self : DownstreamProcessor D N) : Prop :=
  (∀ m1, self.m1_ = some m1 → m1.segment < self.heap.length) ∧
  (∀ m2, self.m2_ = some m2 → m2.segment < self.heap.length) ∧
  ∀ m1 m2, self.m1_ = some m1 → self.m2_ = some m2 → m1.segment ≠ m2.segment

/-- What a fetch does to the sample memory: nothing, unless it finds the buffer
empty with two items before it. -/
def fadeOf (c : FadeCurve K) (self : DownstreamProcessor D N) (p : Ptr) : PcmSegment :=
  match self.m1_, self.m2_ with
  | some m1, some m2 =>
    if p = m1.segment then FadeExponential.faded c 0 (self.heap.read p)
    else if p = m2.segment then FadeExponential.faded c 1 (self.heap.read p)
    else self.heap.read p
  | _, _ => self.heap.read p

/-- A made-up segment: a new one at the end of the memory. -/
theorem predicted_spec (dec : Decoders D N) (c : FadeCurve K) {self : DownstreamProcessor D N} (hv : self.Valid) :
    ∃ r, self.predicted dec c = .ok r ∧ r.2.1.segment = self.heap.length ∧
      r.1.heap.length = self.heap.length + 1 ∧ r.1.m1_ = self.m1_ ∧ r.1.m2_ = self.m2_ ∧
      r.1.jitterBuffer_ = self.jitterBuffer_ ∧
      ∀ p < self.heap.length, r.1.heap.read p = self.fadeOf c p := by
  have hsilent : ∀ p < self.heap.length, (self.heap ++ [PcmSegment.silence]).read p = self.heap.read p :=
    fun p hp => Heap.read_append_of_lt hp _
  rcases h1 : self.m1_ with _ | m1
  · exact ⟨_, by rw [predicted, h1], rfl, by simp, rfl, rfl, rfl, fun p hp => by
      rw [fadeOf, h1]
      exact hsilent p hp⟩
  rcases h2 : self.m2_ with _ | m2
  · exact ⟨_, by rw [predicted, h1, h2], rfl, by simp, rfl, rfl, rfl, fun p hp => by
      rw [fadeOf, h1, h2]
      exact hsilent p hp⟩
  have hlt1 := hv.1 m1 h1
  have hlt2 := hv.2.1 m2 h2
  have hlt1' : m1.segment < (self.heap ++ [PcmSegment.silence]).length := hlt1.trans_le (by simp)
  have hlt2' : m2.segment < (self.heap ++ [PcmSegment.silence]).length := hlt2.trans_le (by simp)
  obtain ⟨heap', hpredict, hlen, hread⟩ :=
    PacketLossConcealment_ZeroInsertion.predict_pair c self.heap.length (hv.2.2 m1 m2 h1 h2) hlt1' hlt2'
  refine ⟨_, by rw [predicted, h1, h2]; dsimp only; rw [hpredict]; rfl, rfl, ?_, rfl, rfl, rfl, fun p hp => ?_⟩
  · simp [hlen]
  · rw [Heap.read_write (by rw [hlen]; simp), if_neg hp.ne, hread p hp.ne, hsilent _ hlt1, hsilent _ hlt2,
      hsilent p hp, fadeOf, h1, h2]
    dsimp only
    by_cases hp1 : p = m1.segment
    · rw [if_pos hp1, if_pos hp1, hp1]
    · rw [if_neg hp1, if_neg hp1]
      by_cases hp2 : p = m2.segment
      · rw [if_pos hp2, if_pos hp2, hp2]
      · rw [if_neg hp2, if_neg hp2]

/-- What a `fetch` does: it takes the front of the buffer or, where that is empty, a new
segment, and plays the item that was the last one obtained. -/
structure FetchSpec (c : FadeCurve K) (s : DownstreamProcessor D N) (r : DownstreamProcessor D N × Fetched) :
    Prop where
  m1 : r.1.m1_ = some r.2.obtained
  m2 : r.1.m2_ = s.m1_
  played : r.2.played = s.m1_
  data : r.2.data = r.1.heap.read r.2.obtained.segment
  outData : r.2.outData = match s.m1_ with
    | some m2 => r.1.heap.read m2.segment
    | none => PcmSegment.silence
  source :
    (s.jitterBuffer_ = r.2.obtained :: r.1.jitterBuffer_ ∧ r.2.fromBuffer = true ∧ r.1.heap = s.heap) ∨
    (s.jitterBuffer_ = [] ∧ r.1.jitterBuffer_ = [] ∧ r.2.obtained.segment = s.heap.length ∧
      r.2.fromBuffer = false ∧ r.1.heap.length = s.heap.length + 1 ∧
      ∀ p < s.heap.length, r.1.heap.read p = s.fadeOf c p)

/-- **`fetch`** never fails. -/
theorem fetch_spec (dec : Decoders D N) (c : FadeCurve K) {self : DownstreamProcessor D N} (hv : self.Valid) :
    ∃ r, self.fetch dec c = .ok r ∧ FetchSpec c self r := by
  unfold fetch JitterBuffer.fetch
  rcases hbuf : self.jitterBuffer_ with _ | ⟨data, rest⟩
  · have hv' : Valid { self with jitterBuffer_ := [] } := hv
    obtain ⟨r, hr, hseg, hlen, hm1, hm2, hbuf', hread⟩ := predicted_spec dec c hv'
    refine ⟨r.1.play r.2.1 false r.2.2, ?_, rfl, hm1, hm1, rfl, ?_, Or.inr ⟨hbuf, hbuf', hseg, rfl, hlen, hread⟩⟩
    · simp only [Fifo.pop, hr]
      rfl
    · show (match r.1.m1_ with | some m2 => _ | none => _) = _
      rw [hm1]
      rfl
  · exact ⟨_, rfl, rfl, rfl, rfl, rfl, rfl, Or.inl ⟨hbuf, rfl, rfl⟩⟩

theorem spec_of_fetch {dec : Decoders D N} {c : FadeCurve K} {self : DownstreamProcessor D N} (hv : self.Valid) {r}
    (hr : self.fetch dec c = .ok r) : FetchSpec c self r := by
  obtain ⟨r', hr', hspec⟩ := fetch_spec dec c hv
  rw [hr] at hr'
  cases hr'
  exact hspec

end DownstreamProcessor

end EasyVoiceCall
