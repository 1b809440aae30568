/-
# What `append` reads

The reads of `DownstreamProcessor::append` on a packet from the network. The
vector the samples are copied from holds a block when it is made, and
`OpusDec::decode` gives it the size of the frame it decoded: a frame of 2.5 ms
leaves it 40 samples, of which 160 are copied. A comfort noise packet without a
payload leaves `UpdateSid` nothing to read. No other packet reads past an end
(`append_reads_iff`).

A `Read` is an array and how many of its elements are read, from the first on.
-/
import EasyVoiceCall.Downstream
import EasyVoiceCall.MakePacket

namespace EasyVoiceCall

open Buffer NetPacket

/-- The arrays `append` and what it calls read. -/
inductive ReadArray
  | payload
  | out
  | sid
  | decodedPcm
  | floatFarend
  | pcm
  deriving DecidableEq

/-- The first `count` elements of an array of `size`. -/
structure Read where
  array : ReadArray
  size : ℕ
  count : ℕ
  deriving DecidableEq

namespace Read

def InBounds (r : Read) : Prop := r.count ≤ r.size

instance (r : Read) : Decidable r.InBounds := by
  unfold InBounds
  infer_instance

end Read

/-- `MAX_FRAME_SIZE` of `OpusDec.hpp`. -/
def MAX_FRAME_SIZE : ℕ := 6 * 960

/-- What the documentation of `opus_decode` says of a frame that it decodes: it fits the
array it is given. -/
structure Decoders.Legal {D N : Type} (dec : Decoders D N) : Prop where
  longest : ∀ d payload pcm, (dec.decode d payload).2 = some pcm → pcm.length ≤ MAX_FRAME_SIZE

namespace DownstreamProcessor

variable {D N : Type}

/-- What `OpusDec::decode` reads of what it decoded. -/
def outReads (decoded : Option (List Int16)) : List Read :=
  match decoded with
  | none => []
  | some out => [⟨.out, MAX_FRAME_SIZE, out.length⟩]

/-- The reads of the part of `decodeAndAecBufferFarend` that decodes. -/
def decodeReads (dec : Decoders D N) (self : DownstreamProcessor D N) (netPacket : NetPacket) : List Read :=
  if netPacket.payloadType = .AudioMessage then
    ⟨.payload, netPacket.payload.length, netPacket.payloadLength⟩ ::
      outReads (dec.decode self.decoder_ netPacket.payload).2
  else if netPacket.payloadType = .AudioMessage_CN then
    [⟨.payload, netPacket.payload.length, netPacket.payloadLength⟩, ⟨.sid, netPacket.payload.length, 1⟩]
  else []

/-- Those of the part for the echo canceller. -/
def farendReads (needAec : Bool) (decodedPcm : List Int16) : List Read :=
  if needAec then
    [⟨.decodedPcm, decodedPcm.length, decodedPcm.length⟩, ⟨.floatFarend, decodedPcm.length, 160⟩]
  else []

/-- The reads of `append`. -/
def appendReads (dec : Decoders D N) (needAec : Bool) (self : DownstreamProcessor D N) (netPacket : NetPacket) :
    List Read :=
  let pcm := (self.decodeAndAecBufferFarend dec netPacket (List.replicate blockSize 0)).2.1
  self.decodeReads dec netPacket ++ farendReads needAec pcm ++ [⟨.pcm, pcm.length, blockSize⟩]

theorem outReads_inBounds {dec : Decoders D N} (hdec : dec.Legal) (d : D) (payload : Bytes) :
    ∀ r ∈ outReads (dec.decode d payload).2, r.InBounds := by
  intro r hr
  rcases hout : (dec.decode d payload).2 with _ | out
  · rw [hout] at hr
    cases hr
  · rw [hout, outReads, List.mem_singleton] at hr
    rw [hr]
    exact hdec.longest d payload out hout

/-- Decoding reads past an end only where there is no comfort noise parameter. -/
theorem decodeReads_inBounds_iff {dec : Decoders D N} (hdec : dec.Legal) (self : DownstreamProcessor D N)
    (p : NetPacket) : (∀ r ∈ self.decodeReads dec p, r.InBounds) ↔
      (p.payloadType = .AudioMessage_CN → p.payload ≠ []) := by
  have hpayload : Read.InBounds ⟨.payload, p.payload.length, p.payloadLength⟩ := (length_payload p).ge
  unfold decodeReads
  by_cases ha : p.payloadType = .AudioMessage
  · rw [if_pos ha, List.forall_mem_cons]
    have hcn : p.payloadType ≠ .AudioMessage_CN := by
      rw [ha]
      decide
    exact iff_of_true ⟨hpayload, outReads_inBounds hdec _ _⟩ fun h => absurd h hcn
  · rw [if_neg ha]
    by_cases hc : p.payloadType = .AudioMessage_CN
    · have hsid : Read.InBounds ⟨.sid, p.payload.length, 1⟩ ↔ p.payload ≠ [] := List.length_pos_iff
      rw [if_pos hc, List.forall_mem_cons, List.forall_mem_singleton, hsid]
      exact ⟨fun h _ => h.2, fun h => ⟨hpayload, h hc⟩⟩
    · rw [if_neg hc]
      exact iff_of_true (fun r hr => by cases hr) fun h => absurd h hc

/-- The vector has a block, but for a decoded frame that is shorter. -/
theorem block_le_pcm_iff (dec : Decoders D N) (self : DownstreamProcessor D N) (p : NetPacket) :
    blockSize ≤ (self.decodeAndAecBufferFarend dec p (List.replicate blockSize 0)).2.1.length ↔
      (p.payloadType = .AudioMessage → ∀ pcm, (dec.decode self.decoder_ p.payload).2 = some pcm →
        blockSize ≤ pcm.length) := by
  show blockSize ≤ (self.decodePacket dec p (List.replicate blockSize 0)).2.1.length ↔ _
  have hblock : blockSize ≤ (List.replicate blockSize (0 : Int16)).length := List.length_replicate.ge
  unfold decodePacket
  by_cases ha : p.payloadType = .AudioMessage
  · rw [if_pos ha]
    dsimp only
    rcases (dec.decode self.decoder_ p.payload).2 with _ | out
    · exact iff_of_true hblock fun _ pcm h => by cases h
    · exact ⟨fun h _ pcm hpcm => by cases hpcm; exact h, fun h => h ha out rfl⟩
  · rw [if_neg ha]
    refine iff_of_true ?_ fun h => absurd h ha
    by_cases hc : p.payloadType = .AudioMessage_CN
    · rw [if_pos hc]
      exact (List.length_ofFn).ge
    · rw [if_neg hc]
      exact hblock

end DownstreamProcessor

open DownstreamProcessor

/-- **What `append` may be given.** In whatever state, with or without the echo
canceller, `append` of a packet reads only elements there are, exactly when an
Opus payload that decodes gives a block at least, and a comfort noise payload
is not empty. -/
theorem append_reads_iff {D N : Type} {dec : Decoders D N} (hdec : dec.Legal) (needAec : Bool)
    (self : DownstreamProcessor D N) (p : NetPacket) :
    (∀ r ∈ self.appendReads dec needAec p, r.InBounds) ↔
      (p.payloadType = .AudioMessage → ∀ pcm, (dec.decode self.decoder_ p.payload).2 = some pcm →
        blockSize ≤ pcm.length) ∧
      (p.payloadType = .AudioMessage_CN → p.payload ≠ []) := by
  set pcm := (self.decodeAndAecBufferFarend dec p (List.replicate blockSize 0)).2.1 with hpcm
  have hcopy : Read.InBounds ⟨.pcm, pcm.length, blockSize⟩ ↔ blockSize ≤ pcm.length := Iff.rfl
  have hfarend : blockSize ≤ pcm.length → ∀ r ∈ farendReads needAec pcm, r.InBounds := by
    intro hle r hr
    unfold farendReads at hr
    split at hr
    · rcases List.mem_pair.mp hr with rfl | rfl
      · exact le_refl _
      · exact hle
    · cases hr
  rw [← block_le_pcm_iff, ← hpcm, ← decodeReads_inBounds_iff hdec self p]
  unfold appendReads
  dsimp only
  rw [← hpcm, List.forall_mem_append, List.forall_mem_append, List.forall_mem_singleton, hcopy]
  exact ⟨fun h => ⟨h.2, h.1.1⟩, fun h => ⟨⟨h.2, hfarend h.1⟩, h.1⟩⟩

/-- An audio packet of one byte, in which Opus has the duration of the frame. -/
def audioPacket (toc : UInt8) : Bytes :=
  headMarker ++ sampleVersion.bytes ++ [0, 0, 0, 0] ++ [7, 0] ++ [1, 0, 0, 0] ++ [1, 0] ++ [toc]

/-- Decoders that know one frame of 2.5 ms and one of 10 ms. -/
def frameDecoders : Decoders Unit Unit where
  decode d payload := (d, if payload = [0x80] then some (List.replicate 40 0)
    else if payload = [0x90] then some (List.replicate 160 0) else none)
  UpdateSid n _ := n
  Generate n _ := (n, PcmSegment.silence)

theorem frameDecoders_decode {d : Unit} {payload : Bytes} {pcm : List Int16}
    (h : (frameDecoders.decode d payload).2 = some pcm) : pcm.length = 40 ∨ pcm.length = 160 := by
  unfold frameDecoders at h
  dsimp only at h
  split at h
  · rw [← Option.some.inj h]
    exact Or.inl List.length_replicate
  · split at h
    · rw [← Option.some.inj h]
      exact Or.inr List.length_replicate
    · cases h

theorem frameDecoders_legal : frameDecoders.Legal where
  longest d payload pcm h := by
    unfold MAX_FRAME_SIZE
    rcases frameDecoders_decode h with hlen | hlen <;> omega

/-- The frame of 10 ms. -/
theorem append_reads_block : ∃ p, RawUdpClientImpl.makePacket sampleVersion 0 (audioPacket 0x90) = some p ∧
    p.payloadType = .AudioMessage ∧ ∀ r ∈ (create () ()).appendReads frameDecoders true p, r.InBounds := by
  refine ⟨⟨audioPacket 0x90, by decide⟩, RawUdpConnection.makePacket_of_framed _ _ (by decide), by decide,
    (append_reads_iff frameDecoders_legal true _ _).mpr ⟨fun _ pcm h => ?_, fun h => absurd h (by decide)⟩⟩
  have hpcm : List.replicate 160 0 = pcm := Option.some.inj h
  rw [← hpcm, List.length_replicate]
  exact le_refl blockSize

/-- Two packets that `makePacket` accepts: the block is copied from 40 samples, and
there is no comfort noise parameter. -/
theorem append_reads_beyond : ∃ p q,
    RawUdpClientImpl.makePacket sampleVersion 0 (audioPacket 0x80) = some p ∧
    RawUdpClientImpl.makePacket sampleVersion 0 (sampleBytes 8) = some q ∧
    p.payloadType = .AudioMessage ∧ q.payloadType = .AudioMessage_CN ∧ frameDecoders.Legal ∧
    (¬ ∀ r ∈ (create () ()).appendReads frameDecoders false p, r.InBounds) ∧
    ¬ ∀ r ∈ (create () ()).appendReads frameDecoders false q, r.InBounds := by
  refine ⟨⟨audioPacket 0x80, by decide⟩, ⟨sampleBytes 8, by decide⟩,
    RawUdpConnection.makePacket_of_framed _ _ (by decide), RawUdpConnection.makePacket_of_framed _ _ (by decide),
    by decide, by decide, frameDecoders_legal, fun h => ?_, fun h => ?_⟩
  · exact absurd (h ⟨.pcm, 40, blockSize⟩ (by decide)) (by decide)
  · exact absurd (h ⟨.sid, 0, 1⟩ (by decide)) (by decide)

end EasyVoiceCall
