/-
# Whether a lost packet is noticed

The second runtime verification of `decodeAndAecBufferFarend`
(`audio_engine/DownstreamProcessor.cpp`). A worker numbers its audio packets one
after the other, and `append` compares a packet's number with that of the one
before it. It does so under `if (!lastReceivedAudioSn_)`, that is, only where the
last number was zero: at the first packet, and after one with which the number
has wrapped. After any other packet nothing is reported. So what is reported is
right exactly in the runs in which each packet is the one sent after the one
before it, up to the wrap, or comes after a packet numbered zero
(`loss_reported_iff`).

Key theorems: `loss_reported_iff`, `Playout.checks_exec`.
-/
import EasyVoiceCall.Lib.Except
import EasyVoiceCall.Order

namespace EasyVoiceCall

namespace Playout

/-- The packets appended. -/
def packetsOf (ops : List DownOp) : List NetPacket :=
  ops.filterMap fun
    | .append p _ => some p
    | .fetch => none

/-- What `append` reports of a packet, and of the one before it. -/
def Checked (a b : Appended) : Prop :=
  b.skipped = true ↔ a.packet.serialNumber = 0 ∧ a.packet.serialNumber + 1 ≠ b.packet.serialNumber

/-- The last packet's number is remembered, and each report is what `Checked` says. -/
structure Checks {D N : Type} (ops : List DownOp) (s : DownstreamProcessor D N) (outs : List DownObs) : Prop where
  packets : (appends outs).map (·.packet) = packetsOf ops
  last : s.lastReceivedAudioSn_ = ((appends outs).getLast?.map (·.packet.serialNumber)).getD 0
  checked : (appends outs).IsChain Checked

section

variable {D N K : Type} [Field K] [LinearOrder K] [FloorRing K]
variable {dec : Decoders D N} {c : FadeCurve K}

/-- Neither making up a segment nor a fetch looks at the numbers. -/
theorem sn_of_predicted {s : DownstreamProcessor D N} {r} (hr : s.predicted dec c = .ok r) :
    r.1.lastReceivedAudioSn_ = s.lastReceivedAudioSn_ := by
  unfold DownstreamProcessor.predicted at hr
  split at hr
  · obtain ⟨heap, -, hret⟩ := Fallible.bind_eq_ok.mp hr
    cases hret
    rfl
  · cases hr
    rfl

theorem sn_of_fetch {s : DownstreamProcessor D N} {r} (hr : s.fetch dec c = .ok r) :
    r.1.lastReceivedAudioSn_ = s.lastReceivedAudioSn_ := by
  unfold DownstreamProcessor.fetch at hr
  dsimp only at hr
  split at hr
  · cases hr
    rfl
  · obtain ⟨q, hq, hret⟩ := Fallible.bind_eq_ok.mp hr
    cases hret
    have hsn := sn_of_predicted hq
    exact hsn

/-- **One call.** -/
theorem Checks.step {op : DownOp} {ops : List DownOp} {s s' : DownstreamProcessor D N} {outs o : List DownObs}
    (h : Checks ops s outs) (hstep : s.step dec c op = some (s', o)) : Checks (ops ++ [op]) s' (outs ++ o) := by
  have hops : packetsOf (ops ++ [op]) = packetsOf ops ++ packetsOf [op] := List.filterMap_append
  cases op with
  | append p beyond =>
    cases hstep
    refine ⟨?_, ?_, ?_⟩
    · rw [appends_appended, List.map_append, hops, h.packets]
      rfl
    · rw [appends_appended, List.getLast?_concat]
      rfl
    · rw [appends_appended]
      refine List.isChain_append.mpr ⟨h.checked, List.isChain_singleton _, fun a ha b hb => ?_⟩
      have hlast : s.lastReceivedAudioSn_ = a.packet.serialNumber := by
        rw [h.last, ha]
        rfl
      obtain rfl : (s.append dec p beyond).2 = b := Option.some.inj hb
      show s.isSkipped p = true ↔ _
      rw [DownstreamProcessor.isSkipped, hlast, decide_eq_true_iff]
      rfl
  | fetch =>
    rcases hr : s.fetch dec c with e | r
    · rw [DownstreamProcessor.step, hr] at hstep
      cases hstep
    · rw [DownstreamProcessor.step_fetch hr] at hstep
      cases hstep
      refine ⟨?_, ?_, ?_⟩
      · rw [appends_fetched, hops, h.packets]
        exact (List.append_nil _).symm
      · rw [appends_fetched, sn_of_fetch hr]
        exact h.last
      · rw [appends_fetched]
        exact h.checked

/-- **Every run.** -/
theorem checks_exec {d : D} {n : N} {ops : List DownOp} {s : DownstreamProcessor D N} {outs : List DownObs}
    (h : DownstreamProcessor.exec dec c d n ops = some (s, outs)) : Checks ops s outs :=
  Lts.history_rule (DownstreamProcessor.step dec c) Checks ⟨rfl, rfl, List.isChain_nil⟩
    (fun _ _ _ _ _ _ hP hstep => hP.step hstep) h

end

end Playout

namespace Uplink

/-- The number of one packet is that of another plus one where it was sent next, up to the
wrap, and zero where the number has wrapped. -/
theorem serial_succ_iff {v : Version} {needAec : Bool} {us : List UplinkOp} {w : Uplink} {sent : List NetPacket}
    (h : exec v needAec us = some (w, sent)) {i j : ℕ} {p q : NetPacket} (hp : sent[i]? = some p)
    (hq : sent[j]? = some q) : (q.serialNumber = p.serialNumber + 1 ↔ j ≡ i + 1 [MOD 2 ^ 32]) ∧
      (p.serialNumber = 0 ↔ 2 ^ 32 ∣ i + 1) := by
  have hps := ((sent_exec h).2 i p hp).1
  have hqs := ((sent_exec h).2 j q hq).1
  have hnext : p.serialNumber + 1 = UInt32.ofNat (i + 1 + 1) := by
    rw [hps, UInt32.ofNat_add (i + 1) 1]
    rfl
  refine ⟨?_, ?_⟩
  · rw [hnext, hqs, ← UInt32.toNat_inj, UInt32.toNat_ofNat', UInt32.toNat_ofNat', Nat.ModEq]
    omega
  · rw [hps, ← UInt32.toNat_inj, UInt32.toNat_ofNat', Nat.dvd_iff_mod_eq_zero]
    rfl

end Uplink

open Playout

/-- **When a lost packet is noticed.** Of the audio packets that a worker sent, those at
`places` are appended, in whatever order and number, between fetches. No call fails; and for
every packet but the first the error is reported exactly where its number is not that of
the one before it plus one, if and only if each is the packet sent after the one before it,
up to the wrap, or that one is numbered zero. -/
theorem loss_reported_iff {D N K : Type} [Field K] [LinearOrder K] [IsStrictOrderedRing K] [FloorRing K]
    {v : Version} {needAec : Bool} {us : List UplinkOp} {w : Uplink} {sent : List NetPacket}
    (hsent : Uplink.exec v needAec us = some (w, sent)) (dec : Decoders D N) (c : FadeCurve K) (d : D) (n : N)
    (ops : List DownOp) (places : List ℕ) (hplaces : places.map (sent[·]?) = (packetsOf ops).map some) :
    ∃ s outs, DownstreamProcessor.exec dec c d n ops = some (s, outs) ∧
      ((∀ (k : ℕ) a b, (appends outs)[k]? = some a → (appends outs)[k + 1]? = some b →
          (b.skipped = true ↔ b.packet.serialNumber ≠ a.packet.serialNumber + 1)) ↔
        ∀ (k : ℕ) i j, places[k]? = some i → places[k + 1]? = some j → j ≡ i + 1 [MOD 2 ^ 32] ∨ 2 ^ 32 ∣ i + 1) := by
  obtain ⟨s, outs, hexec, -⟩ := inv_exec dec c d n ops
  refine ⟨s, outs, hexec, ?_⟩
  have hchecks := checks_exec hexec
  -- the packets appended, by their places in what was sent
  have hpair : ∀ k : ℕ, places[k]?.map (sent[·]?) = (appends outs)[k]?.map fun x => some x.packet := by
    intro k
    have hk := congrArg (·[k]?) hplaces
    simpa only [← hchecks.packets, List.map_map, List.getElem?_map, Function.comp_def] using hk
  have hat : ∀ (k : ℕ) i, places[k]? = some i → ∃ a, (appends outs)[k]? = some a ∧ sent[i]? = some a.packet := by
    intro k i hi
    have hk := hpair k
    rw [hi, Option.map_some, eq_comm, Option.map_eq_some_iff] at hk
    obtain ⟨a, ha, hsa⟩ := hk
    exact ⟨a, ha, hsa.symm⟩
  have hof : ∀ (k : ℕ) a, (appends outs)[k]? = some a → ∃ i, places[k]? = some i ∧ sent[i]? = some a.packet := by
    intro k a ha
    have hk := hpair k
    rw [ha, Option.map_some, Option.map_eq_some_iff] at hk
    exact hk
  have hreport : ∀ (k : ℕ) a b, (appends outs)[k]? = some a → (appends outs)[k + 1]? = some b → Checked a b := by
    intro k a b ha hb
    obtain ⟨hlt, rfl⟩ := List.getElem?_eq_some_iff.mp hb
    obtain ⟨-, rfl⟩ := List.getElem?_eq_some_iff.mp ha
    exact List.isChain_iff_getElem.mp hchecks.checked k hlt
  constructor
  · intro h k i j hi hj
    obtain ⟨a, ha, hsa⟩ := hat k i hi
    obtain ⟨b, hb, hsb⟩ := hat (k + 1) j hj
    obtain ⟨hnext, hzero⟩ := Uplink.serial_succ_iff hsent hsa hsb
    rw [← hnext, ← hzero]
    have h1 := h k a b ha hb
    have h2 := hreport k a b ha hb
    by_contra hno
    obtain ⟨hne, hne0⟩ := not_or.mp hno
    exact hne0 (h2.mp (h1.mpr hne)).1
  · intro h k a b ha hb
    obtain ⟨i, hi, hsa⟩ := hof k a ha
    obtain ⟨j, hj, hsb⟩ := hof (k + 1) b hb
    obtain ⟨hnext, hzero⟩ := Uplink.serial_succ_iff hsent hsa hsb
    have h2 := hreport k a b ha hb
    rcases h k i j hi hj with hij | hi0
    · refine ⟨fun hs => absurd (hnext.mpr hij).symm (h2.mp hs).2, fun hne => absurd (hnext.mpr hij) hne⟩
    · exact ⟨fun hs => (h2.mp hs).2.symm, fun hne => h2.mpr ⟨hzero.mpr hi0, hne.symm⟩⟩

/-- The three packets of `sampleSent` arrive in order. -/
theorem loss_reported_iff_speech : ∃ s outs,
    DownstreamProcessor.exec sampleDecoders sampleCurve () ()
      (sampleSent.map fun p => DownOp.append p PcmSegment.silence) = some (s, outs) ∧
    ∀ (k : ℕ) a b, (appends outs)[k]? = some a → (appends outs)[k + 1]? = some b →
      (b.skipped = true ↔ b.packet.serialNumber ≠ a.packet.serialNumber + 1) := by
  obtain ⟨s, outs, hexec, hiff⟩ := loss_reported_iff sampleSent_exec sampleDecoders sampleCurve () ()
    (sampleSent.map fun p => DownOp.append p PcmSegment.silence) [0, 1, 2] (by decide)
  refine ⟨s, outs, hexec, hiff.mpr fun k i j hi hj => Or.inl ?_⟩
  have hplaces : ∀ (k : ℕ) i, [0, 1, 2][k]? = some i → i = k := by
    rintro (_ | _ | _ | k) i h <;> cases h <;> rfl
  rw [hplaces k i hi, hplaces (k + 1) j hj]

/-- The second of the three is lost, and the third is not reported. -/
theorem loss_not_reported : ¬ ∀ (us : List UplinkOp) (w : Uplink) (sent : List NetPacket) (ops : List DownOp)
    (s : DownstreamProcessor Unit Unit) (outs : List DownObs),
    Uplink.exec sampleVersion false us = some (w, sent) →
    (∀ p beyond, DownOp.append p beyond ∈ ops → p ∈ sent) →
    DownstreamProcessor.exec sampleDecoders sampleCurve () () ops = some (s, outs) →
    ∀ (k : ℕ) a b, (appends outs)[k]? = some a → (appends outs)[k + 1]? = some b →
      (b.skipped = true ↔ b.packet.serialNumber ≠ a.packet.serialNumber + 1) := by
  intro h
  have h1 := h sampleSpeech _ sampleSent
    ((sampleSent.eraseIdx 1).map fun p => DownOp.append p PcmSegment.silence) _ _ sampleSent_exec ?_ rfl 0 _ _ rfl rfl
  · exact absurd h1 (by decide)
  · intro p beyond hp
    obtain ⟨q, hq, he⟩ := List.mem_map.mp hp
    cases he
    exact List.mem_of_mem_eraseIdx hq

end EasyVoiceCall
