/-
# Comfort noise at the receiver

Two things about the comfort noise of `DownstreamProcessor`, over every run.

The flag given to `Generate` is to say that a period of comfort noise begins.
It is `lastIsCnPacket_`, which says that one goes on: every call gets the
opposite of what it should (`flag_inverted`), so the periods are delimited in
the runs that never generate noise, and in no other (`delimited_iff`).

A fetch that finds the buffer empty fades the last two segments, whatever they
are. In an underrun that lasts, these are the noise that earlier fetches made,
and the first of them is still to be played. Only silence comes out of a fade
as it was (`fades_received_iff`).

Key theorems: `Comfort.flag_inverted`, `delimited_iff`, `fades_received_iff`.
-/
import EasyVoiceCall.Playout

namespace EasyVoiceCall

open Playout FadeExponential

namespace Comfort

/-! ### Periods of comfort noise -/

/-- The flag given to `Generate` in a call. -/
def newPeriod : DownObs → Option Bool
  | .appended a => a.newPeriod
  | .fetched f => f.newPeriod

/-- Whether what a call produced is comfort noise, if it produced audio: `append`
does of the two kinds of packets, `fetch` where it generates noise. -/
def noise : DownObs → Option Bool
  | .appended a =>
    if a.packet.payloadType = .AudioMessage then some false
    else if a.packet.payloadType = .AudioMessage_CN then some true
    else none
  | .fetched f => if f.newPeriod.isSome then some true else none

/-- The last call that produced audio produced comfort noise. -/
def InPeriod (outs : List DownObs) : Prop := (outs.filterMap noise).getLast? = some true

instance (outs : List DownObs) : Decidable (InPeriod outs) := by
  unfold InPeriod
  infer_instance

/-- Each `Generate` is told of a new period exactly when there was none. -/
def Delimited (outs : List DownObs) : Prop :=
  ∀ pre o flag, pre ++ [o] <+: outs → newPeriod o = some flag → (flag = true ↔ ¬ InPeriod pre)

theorem inPeriod_concat (outs : List DownObs) (o : DownObs) :
    InPeriod (outs ++ [o]) ↔ (noise o).getD (decide (InPeriod outs)) = true := by
  unfold InPeriod
  rw [List.filterMap_append]
  rcases ho : noise o with _ | b
  · simp [ho]
  · simp [ho]

end Comfort

namespace DownstreamProcessor

variable {D N : Type} {K : Type} [Field K] [LinearOrder K] [IsStrictOrderedRing K] [FloorRing K]

/-- The call generates comfort noise: `append` of a comfort noise packet, or a
`fetch` that finds the buffer empty with two segments before it. -/
def Generates (self : DownstreamProcessor D N) : DownOp → Prop
  | .append netPacket _ => netPacket.payloadType = .AudioMessage_CN
  | .fetch => self.jitterBuffer_ = [] ∧ self.m1_ ≠ none ∧ self.m2_ ≠ none

instance (self : DownstreamProcessor D N) (op : DownOp) : Decidable (self.Generates op) := by
  unfold Generates
  cases op <;> infer_instance

omit [IsStrictOrderedRing K] in
/-- A made-up segment is noise where there are two before it. -/
theorem predicted_flag {dec : Decoders D N} {c : FadeCurve K} {self : DownstreamProcessor D N} {r}
    (hr : self.predicted dec c = .ok r) :
    (self.m1_ ≠ none ∧ self.m2_ ≠ none → r.2.2 = some self.lastIsCnPacket_ ∧ r.1.lastIsCnPacket_ = true) ∧
    (¬ (self.m1_ ≠ none ∧ self.m2_ ≠ none) → r.2.2 = none ∧ r.1.lastIsCnPacket_ = self.lastIsCnPacket_) := by
  rcases h1 : self.m1_ with _ | m1
  · rw [predicted, h1] at hr
    cases hr
    exact ⟨fun h => absurd rfl h.1, fun _ => ⟨rfl, rfl⟩⟩
  rcases h2 : self.m2_ with _ | m2
  · rw [predicted, h1, h2] at hr
    cases hr
    exact ⟨fun h => absurd rfl h.2, fun _ => ⟨rfl, rfl⟩⟩
  refine ⟨fun _ => ?_, fun h => absurd ⟨Option.some_ne_none _, Option.some_ne_none _⟩ h⟩
  rw [predicted, h1, h2] at hr
  dsimp only at hr
  rcases hpredict : PacketLossConcealment_ZeroInsertion.predict c [m1.segment, m2.segment] self.heap.length
      (self.heap ++ [PcmSegment.silence]) with e | heap
  · rw [hpredict] at hr
    cases hr
  · rw [hpredict] at hr
    cases hr
    exact ⟨rfl, rfl⟩

/-- The noise is what `Generate` makes. -/
theorem predicted_data {dec : Decoders D N} {c : FadeCurve K} {self : DownstreamProcessor D N} (hv : self.Valid)
    (h1 : self.m1_ ≠ none) (h2 : self.m2_ ≠ none) {r} (hr : self.predicted dec c = .ok r) :
    r.1.heap.read r.2.1.segment = (dec.Generate self.cnDecoder_ self.lastIsCnPacket_).2 := by
  obtain ⟨m1, hm1⟩ := Option.ne_none_iff_exists'.mp h1
  obtain ⟨m2, hm2⟩ := Option.ne_none_iff_exists'.mp h2
  have hlen : self.heap.length < (self.heap ++ [PcmSegment.silence]).length := by
    rw [List.length_append]
    exact Nat.lt_succ_self _
  obtain ⟨heap, hpredict, hheap, -⟩ := PacketLossConcealment_ZeroInsertion.predict_pair c self.heap.length
    (hv.2.2 m1 m2 hm1 hm2) ((hv.1 m1 hm1).trans hlen) ((hv.2.1 m2 hm2).trans hlen)
  rw [predicted, hm1, hm2] at hr
  dsimp only at hr
  rw [hpredict] at hr
  cases hr
  rw [Heap.read_write (by rw [hheap]; exact hlen), if_pos rfl]

omit [IsStrictOrderedRing K] in
theorem fetch_eq (dec : Decoders D N) (c : FadeCurve K) (self : DownstreamProcessor D N) :
    self.fetch dec c = match self.jitterBuffer_ with
      | [] => (predicted dec c { self with jitterBuffer_ := [] }).map fun r => r.1.play r.2.1 false r.2.2
      | data :: rest => .ok ({ self with jitterBuffer_ := rest }.play data true none) := by
  unfold fetch JitterBuffer.fetch
  rcases self.jitterBuffer_ with _ | ⟨data, rest⟩ <;> rfl

omit [IsStrictOrderedRing K] in
/-- `fetch` takes the front of the buffer, or makes a segment up. -/
theorem fetch_cases {dec : Decoders D N} {c : FadeCurve K} {self : DownstreamProcessor D N} {r}
    (hr : self.fetch dec c = .ok r) :
    (∃ data rest, self.jitterBuffer_ = data :: rest ∧ r = { self with jitterBuffer_ := rest }.play data true none) ∨
    (self.jitterBuffer_ = [] ∧ ∃ q, predicted dec c { self with jitterBuffer_ := [] } = .ok q ∧
      r = q.1.play q.2.1 false q.2.2) := by
  rw [fetch_eq] at hr
  rcases hbuf : self.jitterBuffer_ with _ | ⟨data, rest⟩
  · rw [hbuf] at hr
    dsimp only at hr
    rcases hp : predicted dec c { self with jitterBuffer_ := [] } with e | q
    · rw [hp] at hr
      cases hr
    · rw [hp] at hr
      cases hr
      exact Or.inr ⟨rfl, q, rfl, rfl⟩
  · rw [hbuf] at hr
    cases hr
    exact Or.inl ⟨data, rest, rfl, rfl⟩

omit [IsStrictOrderedRing K] in
/-- A fetch gives `lastIsCnPacket_` to `Generate`, where it generates noise. -/
theorem fetch_flag {dec : Decoders D N} {c : FadeCurve K} {self : DownstreamProcessor D N} {r}
    (hr : self.fetch dec c = .ok r) :
    (self.Generates .fetch → r.2.newPeriod = some self.lastIsCnPacket_ ∧ r.1.lastIsCnPacket_ = true) ∧
    (¬ self.Generates .fetch → r.2.newPeriod = none ∧ r.1.lastIsCnPacket_ = self.lastIsCnPacket_) := by
  have hgen : self.Generates .fetch ↔ self.jitterBuffer_ = [] ∧ self.m1_ ≠ none ∧ self.m2_ ≠ none := Iff.rfl
  rw [hgen]
  obtain ⟨data, rest, hbuf, rfl⟩ | ⟨hbuf, q, hp, rfl⟩ := fetch_cases hr
  · rw [hbuf]
    exact ⟨fun h => absurd h.1 (List.cons_ne_nil _ _), fun _ => ⟨rfl, rfl⟩⟩
  · obtain ⟨hyes, hno⟩ := predicted_flag hp
    exact ⟨fun h => hyes h.2, fun h => hno fun hm => h ⟨hbuf, hm⟩⟩

/-- What it obtains then is what `Generate` makes. -/
theorem fetch_data {dec : Decoders D N} {c : FadeCurve K} {self : DownstreamProcessor D N} (hv : self.Valid)
    (hg : self.Generates .fetch) {r} (hr : self.fetch dec c = .ok r) :
    r.2.fromBuffer = false ∧ r.2.data = (dec.Generate self.cnDecoder_ self.lastIsCnPacket_).2 := by
  obtain ⟨hempty, hm1, hm2⟩ := hg
  obtain ⟨data, rest, hbuf, rfl⟩ | ⟨-, q, hp, rfl⟩ := fetch_cases hr
  · rw [hempty] at hbuf
    cases hbuf
  · have hv' : Valid { self with jitterBuffer_ := [] } := hv
    exact ⟨rfl, predicted_data hv' hm1 hm2 hp⟩

omit [LinearOrder K] [IsStrictOrderedRing K] [FloorRing K] [Field K] in
theorem append_flag (dec : Decoders D N) (self : DownstreamProcessor D N) (p : NetPacket)
    (beyond : PcmSegment) :
    let r := self.append dec p beyond
    r.2.newPeriod = (if self.Generates (.append p beyond) then some self.lastIsCnPacket_ else none) ∧
      r.1.lastIsCnPacket_ = (Comfort.noise (.appended r.2)).getD self.lastIsCnPacket_ := by
  have hnewPeriod : (self.append dec p beyond).2.newPeriod =
      (self.decodePacket dec p (List.replicate blockSize 0)).2.2 := rfl
  have hlast : (self.append dec p beyond).1.lastIsCnPacket_ =
      (self.decodePacket dec p (List.replicate blockSize 0)).1.lastIsCnPacket_ := rfl
  have hpacket : (self.append dec p beyond).2.packet = p := rfl
  have hgen : self.Generates (.append p beyond) ↔ p.payloadType = .AudioMessage_CN := Iff.rfl
  dsimp only
  rw [hnewPeriod, hlast, Comfort.noise, hpacket, if_congr hgen rfl rfl]
  unfold decodePacket
  by_cases ha : p.payloadType = .AudioMessage
  · have hcn : p.payloadType ≠ .AudioMessage_CN := by
      rw [ha]
      decide
    rw [if_pos ha, if_pos ha, if_neg hcn]
    exact ⟨rfl, rfl⟩
  · rw [if_neg ha, if_neg ha]
    by_cases hc : p.payloadType = .AudioMessage_CN
    · rw [if_pos hc, if_pos hc, if_pos hc]
      exact ⟨rfl, rfl⟩
    · rw [if_neg hc, if_neg hc, if_neg hc]
      exact ⟨rfl, rfl⟩

omit [IsStrictOrderedRing K] in
/-- **One call**, and `lastIsCnPacket_`. -/
theorem step_flag {dec : Decoders D N} {c : FadeCurve K} {s s' : DownstreamProcessor D N} {op : DownOp}
    {o : List DownObs} (h : s.step dec c op = some (s', o)) :
    ∃ x, o = [x] ∧ Comfort.newPeriod x = (if s.Generates op then some s.lastIsCnPacket_ else none) ∧
      s'.lastIsCnPacket_ = (Comfort.noise x).getD s.lastIsCnPacket_ := by
  cases op with
  | append p beyond =>
    cases h
    exact ⟨_, rfl, append_flag dec s p beyond⟩
  | fetch =>
    have hstep := h
    simp only [step] at hstep
    rcases hr : s.fetch dec c with e | r
    · rw [hr] at hstep
      cases hstep
    · rw [hr] at hstep
      cases hstep
      obtain ⟨hyes, hno⟩ := fetch_flag hr
      refine ⟨_, rfl, ?_⟩
      show r.2.newPeriod = _ ∧ r.1.lastIsCnPacket_ = (if r.2.newPeriod.isSome then some true else none).getD _
      by_cases hg : s.Generates .fetch
      · obtain ⟨hflag, hlast⟩ := hyes hg
        rw [hflag, hlast, if_pos hg]
        exact ⟨rfl, rfl⟩
      · obtain ⟨hflag, hlast⟩ := hno hg
        rw [hflag, hlast, if_neg hg]
        exact ⟨rfl, rfl⟩

end DownstreamProcessor

namespace Comfort

section

variable {D N : Type} {K : Type} [Field K] [LinearOrder K] [FloorRing K] {dec : Decoders D N} {c : FadeCurve K}
  {d : D} {n : N} {ops : List DownOp} {s : DownstreamProcessor D N} {outs : List DownObs}

/-- Over runs `lastIsCnPacket_` says whether a period of comfort noise goes on, and
each `Generate` is given it. -/
theorem flag_exec (h : DownstreamProcessor.exec dec c d n ops = some (s, outs)) :
    (s.lastIsCnPacket_ = true ↔ InPeriod outs) ∧
      ∀ pre o flag, pre ++ [o] <+: outs → newPeriod o = some flag → (flag = true ↔ InPeriod pre) := by
  refine Lts.history_rule (DownstreamProcessor.step dec c) (fun _ s outs => (s.lastIsCnPacket_ = true ↔ InPeriod outs) ∧
    ∀ pre o flag, pre ++ [o] <+: outs → newPeriod o = some flag → (flag = true ↔ InPeriod pre)) ⟨?_, ?_⟩ ?_ h
  · exact iff_of_false Bool.false_ne_true (by decide)
  · intro pre o flag hpre
    exact absurd (List.prefix_nil.mp hpre) (List.append_ne_nil_of_right_ne_nil _ (List.cons_ne_nil _ _))
  · rintro _ s outs op s' o' ⟨hlast, ih⟩ hstep
    obtain ⟨x, rfl, hflag, hlast'⟩ := DownstreamProcessor.step_flag hstep
    refine ⟨?_, fun pre o flag hpre ho => ?_⟩
    · rw [hlast', inPeriod_concat]
      have hlast_eq : s.lastIsCnPacket_ = decide (InPeriod outs) :=
        Bool.eq_iff_iff.mpr (hlast.trans decide_eq_true_iff.symm)
      rw [hlast_eq]
    · rcases List.prefix_concat_iff.mp hpre with heq | hpre
      · obtain ⟨rfl, hox⟩ := List.append_inj' heq rfl
        cases hox
        rw [hflag] at ho
        split at ho
        · rw [← Option.some.inj ho]
          exact hlast
        · cases ho
      · exact ih pre o flag hpre ho

/-- **Every flag is the wrong one.** -/
theorem flag_inverted (h : DownstreamProcessor.exec dec c d n ops = some (s, outs)) {pre : List DownObs}
    {o : DownObs} {flag : Bool} (hpre : pre ++ [o] <+: outs) (ho : newPeriod o = some flag) :
    ¬ (flag = true ↔ ¬ InPeriod pre) := by
  rw [(flag_exec h).2 pre o flag hpre ho]
  exact iff_not_self

/-- The periods are delimited where no noise is generated. -/
theorem delimited_iff_forall (h : DownstreamProcessor.exec dec c d n ops = some (s, outs)) :
    Delimited outs ↔ ∀ o ∈ outs, newPeriod o = none := by
  constructor
  · intro hdel o ho
    by_contra hne
    obtain ⟨flag, hflag⟩ := Option.ne_none_iff_exists'.mp hne
    obtain ⟨pre, post, rfl⟩ := List.append_of_mem ho
    have hpre : pre ++ [o] <+: pre ++ o :: post := ⟨post, by simp⟩
    exact flag_inverted h hpre hflag (hdel pre o flag hpre hflag)
  · intro hnone pre o flag hpre hflag
    rw [hnone o (hpre.subset (List.mem_append_right _ (List.mem_singleton.mpr rfl)))] at hflag
    cases hflag

theorem along_iff_forall (h : DownstreamProcessor.exec dec c d n ops = some (s, outs)) :
    Lts.Along (DownstreamProcessor.step dec c) (fun s op => ¬ s.Generates op) (DownstreamProcessor.create d n) ops ↔
      ∀ o ∈ outs, newPeriod o = none := by
  refine Lts.along_iff_outputs _ (fun s op s' o hstep => ?_) h
  obtain ⟨x, rfl, hflag, -⟩ := DownstreamProcessor.step_flag hstep
  rw [List.forall_mem_singleton, hflag]
  by_cases hg : s.Generates op
  · rw [if_pos hg]
    exact iff_of_false (not_not_intro hg) (Option.some_ne_none _)
  · rw [if_neg hg]
    exact iff_of_true hg rfl

end

end Comfort

/-- **When periods of comfort noise are delimited.** Over every run, `Generate` is
told of a new period exactly where the audio before it was not comfort noise,
if and only if no call of the run generates noise. -/
theorem delimited_iff {D N K : Type} [Field K] [LinearOrder K] [IsStrictOrderedRing K] [FloorRing K]
    (dec : Decoders D N) (c : FadeCurve K) (d : D) (n : N) (ops : List DownOp) :
    ∃ s outs, DownstreamProcessor.exec dec c d n ops = some (s, outs) ∧
      (Comfort.Delimited outs ↔ Lts.Along (DownstreamProcessor.step dec c) (fun s op => ¬ s.Generates op)
        (DownstreamProcessor.create d n) ops) := by
  obtain ⟨s, outs, hexec, -⟩ := inv_exec dec c d n ops
  exact ⟨s, outs, hexec, (Comfort.delimited_iff_forall hexec).trans (Comfort.along_iff_forall hexec).symm⟩

/-- A fetch before anything has come, a packet of speech, and a fetch that finds it: no noise is
generated. -/
theorem delimited_speech : ∃ s outs, DownstreamProcessor.exec louderDecoders sampleCurve 1000 ()
      [.fetch, .append ⟨sampleBytes 7, by decide⟩ PcmSegment.silence, .fetch] = some (s, outs) ∧
    (fetches outs).map (·.fromBuffer) = [false, true] ∧ Comfort.Delimited outs := by
  obtain ⟨s, outs, hexec, hiff⟩ := delimited_iff louderDecoders sampleCurve 1000 ()
    [.fetch, .append ⟨sampleBytes 7, by decide⟩ PcmSegment.silence, .fetch]
  refine ⟨s, outs, hexec, ?_, hiff.mpr (by decide)⟩
  have hrun : DownstreamProcessor.exec louderDecoders sampleCurve 1000 ()
    [.fetch, .append ⟨sampleBytes 7, by decide⟩ PcmSegment.silence, .fetch] = some (_, _) := rfl
  cases hexec.symm.trans hrun
  rfl

/-- A call whose first packet is comfort noise: `Generate` is not told that a period
begins. -/
theorem first_period_missed : ∃ s outs, DownstreamProcessor.exec sampleDecoders sampleCurve () ()
      [.append ⟨sampleBytes 8, by decide⟩ PcmSegment.silence] = some (s, outs) ∧ ¬ Comfort.Delimited outs := by
  obtain ⟨s, outs, hexec, -⟩ := inv_exec sampleDecoders sampleCurve () ()
    [.append ⟨sampleBytes 8, by decide⟩ PcmSegment.silence]
  refine ⟨s, outs, hexec, fun hdel => ?_⟩
  have halong := (Comfort.along_iff_forall hexec).mpr ((Comfort.delimited_iff_forall hexec).mp hdel)
  exact halong [] _ _ _ (List.prefix_refl _) rfl (by decide)

/-! ### What is faded -/

namespace Comfort

section

variable {D N : Type} {K : Type} [Field K] [LinearOrder K] [FloorRing K]

/-- The segment was made of a packet. -/
def Received (outs : List DownObs) (p : Ptr) : Prop := ∃ a ∈ appends outs, a.item.segment = p

/-- Noise that a fetch generates is what the next one plays, and no fetch changes a segment
that was not received. -/
structure FadesReceived (dec : Decoders D N) (c : FadeCurve K) (d : D) (n : N) (ops : List DownOp)
    (outs : List DownObs) : Prop where
  played : ∀ pre s o g, pre ++ [.fetch] <+: ops → DownstreamProcessor.exec dec c d n pre = some (s, o) →
    s.Generates .fetch → (fetches outs)[(fetches o).length + 1]? = some g →
    g.outData = (dec.Generate s.cnDecoder_ s.lastIsCnPacket_).2
  changed : ∀ pre s o r, pre ++ [.fetch] <+: ops → DownstreamProcessor.exec dec c d n pre = some (s, o) →
    s.fetch dec c = .ok r → ∀ p < s.heap.length, r.1.heap.read p ≠ s.heap.read p → Received o p

/-- A fetch that finds the buffer empty has two segments before it that were
received, or that a fade leaves as they are. -/
def NoiseSpared (dec : Decoders D N) (c : FadeCurve K) (d : D) (n : N) (ops : List DownOp) : Prop :=
  ∀ pre s o m1 m2, pre ++ [.fetch] <+: ops → DownstreamProcessor.exec dec c d n pre = some (s, o) →
    s.jitterBuffer_ = [] → s.m1_ = some m1 → s.m2_ = some m2 →
    (Received o m1.segment ∨ Quiet 0 (s.heap.read m1.segment)) ∧
    (Received o m2.segment ∨ Quiet 1 (s.heap.read m2.segment))

end

section

variable {D N : Type} {K : Type} [Field K] [LinearOrder K] [IsStrictOrderedRing K] [FloorRing K] {dec : Decoders D N}
  {c : FadeCurve K} {d : D} {n : N} {ops : List DownOp} {s : DownstreamProcessor D N} {outs : List DownObs}

theorem inv_of_exec (h : DownstreamProcessor.exec dec c d n ops = some (s, outs)) : Inv c outs s := by
  obtain ⟨s', outs', h', hinv⟩ := inv_exec dec c d n ops
  rw [h] at h'
  cases h'
  exact hinv

/-- The run up to a fetch that was seen. -/
theorem exists_fetch (h : DownstreamProcessor.exec dec c d n ops = some (s, outs)) {m : ℕ} {g : Fetched}
    (hg : (fetches outs)[m]? = some g) : ∃ pre s₁ o₁ r, pre ++ [.fetch] <+: ops ∧
      DownstreamProcessor.exec dec c d n pre = some (s₁, o₁) ∧ s₁.fetch dec c = .ok r ∧ r.2 = g ∧
      (fetches o₁).length = m ∧ o₁ <+: outs := by
  induction ops using List.reverseRecOn generalizing s outs with
  | nil =>
    cases h
    cases hg
  | append_singleton ops op ih =>
    obtain ⟨s₁, o₁, o₂, hrun, hstep, rfl⟩ := (Lts.exec_concat _).mp h
    have hearlier : (fetches o₁)[m]? = some g → _ := fun hg' => ih hrun hg'
    have hextend : (∃ pre s' o' r, pre ++ [.fetch] <+: ops ∧
        DownstreamProcessor.exec dec c d n pre = some (s', o') ∧ s'.fetch dec c = .ok r ∧ r.2 = g ∧
        (fetches o').length = m ∧ o' <+: o₁) → ∃ pre s' o' r, pre ++ [.fetch] <+: ops ++ [op] ∧
        DownstreamProcessor.exec dec c d n pre = some (s', o') ∧ s'.fetch dec c = .ok r ∧ r.2 = g ∧
        (fetches o').length = m ∧ o' <+: o₁ ++ o₂ := by
      rintro ⟨pre, s', o', r, hpre, hexec, hfetch, hr, hlen, ho⟩
      exact ⟨pre, s', o', r, hpre.trans (List.prefix_append _ _), hexec, hfetch, hr, hlen,
        ho.trans (List.prefix_append _ _)⟩
    cases op with
    | append p beyond =>
      cases hstep
      rw [fetches_appended] at hg
      exact hextend (hearlier hg)
    | fetch =>
      obtain ⟨r, hr, -⟩ := s₁.fetch_spec dec c (inv_of_exec hrun).valid
      rw [DownstreamProcessor.step_fetch hr] at hstep
      cases hstep
      rw [fetches_fetched] at hg
      rcases getElem?_concat_iff.mp hg with hg | ⟨rfl, hrg⟩
      · exact hextend (hearlier hg)
      · exact ⟨ops, s₁, o₁, r, List.prefix_refl _, hrun, hr, hrg, rfl, List.prefix_append _ _⟩

/-- A fetch that leaves received segments to the fade spares the others. -/
theorem FadesReceived.spared (h : FadesReceived dec c d n ops outs) : NoiseSpared dec c d n ops := by
  intro pre s o m1 m2 hpre hexec hbuf hm1 hm2
  have hv := (inv_of_exec hexec).valid
  obtain ⟨r, hr, hspec⟩ := s.fetch_spec dec c hv
  have hread : ∀ p < s.heap.length, r.1.heap.read p = s.fadeOf c p := by
    rcases hspec.source with ⟨hcons, -⟩ | ⟨-, -, -, -, -, hread⟩
    · rw [hbuf] at hcons
      cases hcons
    · exact hread
  have hfade : ∀ (k : ℕ) (it : Item), it.segment < s.heap.length →
      s.fadeOf c it.segment = faded c k (s.heap.read it.segment) →
      Received o it.segment ∨ Quiet k (s.heap.read it.segment) := by
    intro k it hlt hk
    by_cases hq : Quiet k (s.heap.read it.segment)
    · exact Or.inr hq
    · refine Or.inl (h.changed pre s o r hpre hexec hr it.segment hlt ?_)
      rw [hread _ hlt, hk]
      exact mt (faded_eq_self_iff c k _).mp hq
  refine ⟨hfade 0 m1 (hv.1 m1 hm1) ?_, hfade 1 m2 (hv.2.1 m2 hm2) ?_⟩
  · unfold DownstreamProcessor.fadeOf
    rw [hm1, hm2]
    exact if_pos rfl
  · unfold DownstreamProcessor.fadeOf
    rw [hm1, hm2]
    exact (if_neg (hv.2.2 m1 m2 hm1 hm2).symm).trans (if_pos rfl)

/-- Where the noise is spared, a fetch changes received segments only. -/
theorem NoiseSpared.changed (h : NoiseSpared dec c d n ops) {pre : List DownOp} {s : DownstreamProcessor D N}
    {o : List DownObs} {r} (hpre : pre ++ [.fetch] <+: ops)
    (hexec : DownstreamProcessor.exec dec c d n pre = some (s, o)) (hr : s.fetch dec c = .ok r) {p : Ptr}
    (hp : p < s.heap.length) (hne : r.1.heap.read p ≠ s.heap.read p) : Received o p := by
  have hspec := DownstreamProcessor.spec_of_fetch (inv_of_exec hexec).valid hr
  rcases hspec.source with ⟨-, -, hheap⟩ | ⟨hbuf, -, -, -, -, hread⟩
  · rw [hheap] at hne
    exact absurd rfl hne
  rw [hread p hp] at hne
  unfold DownstreamProcessor.fadeOf at hne
  rcases hm1 : s.m1_ with _ | m1
  · rw [hm1] at hne
    exact absurd rfl hne
  rcases hm2 : s.m2_ with _ | m2
  · rw [hm1, hm2] at hne
    exact absurd rfl hne
  rw [hm1, hm2] at hne
  dsimp only at hne
  obtain ⟨h1, h2⟩ := h pre s o m1 m2 hpre hexec hbuf hm1 hm2
  by_cases hp1 : p = m1.segment
  · rw [if_pos hp1] at hne
    rw [hp1] at hne ⊢
    exact h1.resolve_right (mt (faded_eq_self_iff c 0 _).mpr hne)
  rw [if_neg hp1] at hne
  by_cases hp2 : p = m2.segment
  · rw [if_pos hp2] at hne
    rw [hp2] at hne ⊢
    exact h2.resolve_right (mt (faded_eq_self_iff c 1 _).mpr hne)
  · rw [if_neg hp2] at hne
    exact absurd rfl hne

theorem getElem?_of_prefix {α : Type*} {l₁ l₂ : List α} (h : l₁ <+: l₂) {i : ℕ} {x : α} (hx : l₁[i]? = some x) :
    l₂[i]? = some x := by
  obtain ⟨t, rfl⟩ := h
  rw [List.getElem?_append_left (List.getElem?_eq_some_iff.mp hx).1, hx]

/-- The fetch that generates noise, as it is seen. -/
theorem generated_fetch {pre : List DownOp} {s' : DownstreamProcessor D N} {o : List DownObs}
    (h : DownstreamProcessor.exec dec c d n ops = some (s, outs)) (hpre : pre ++ [.fetch] <+: ops)
    (hexec : DownstreamProcessor.exec dec c d n pre = some (s', o)) (hg : s'.Generates .fetch) :
    ∃ f, o ++ [.fetched f] <+: outs ∧ f.fromBuffer = false ∧
      f.data = (dec.Generate s'.cnDecoder_ s'.lastIsCnPacket_).2 := by
  have hv := (inv_of_exec hexec).valid
  obtain ⟨r, hr, -⟩ := s'.fetch_spec dec c hv
  obtain ⟨hfrom, hdata⟩ := DownstreamProcessor.fetch_data hv hg hr
  obtain ⟨post, rfl⟩ := hpre
  obtain ⟨s₁, o₁, o₂, hrun, -, rfl⟩ := (Lts.exec_append_iff _).mp h
  obtain ⟨s₂, p₁, p₂, hrun', hstep, rfl⟩ := (Lts.exec_concat _).mp hrun
  have hsame := hexec.symm.trans hrun'
  cases hsame
  rw [DownstreamProcessor.step_fetch hr] at hstep
  cases hstep
  exact ⟨r.2, List.prefix_append _ _, hfrom, hdata⟩

/-- Where the noise is spared, it is played as it was generated. -/
theorem NoiseSpared.played (hspared : NoiseSpared dec c d n ops)
    (h : DownstreamProcessor.exec dec c d n ops = some (s, outs)) {pre : List DownOp} {s' : DownstreamProcessor D N}
    {o : List DownObs} {g : Fetched} (hpre : pre ++ [.fetch] <+: ops)
    (hexec : DownstreamProcessor.exec dec c d n pre = some (s', o)) (hgen : s'.Generates .fetch)
    (hg : (fetches outs)[(fetches o).length + 1]? = some g) :
    g.outData = (dec.Generate s'.cnDecoder_ s'.lastIsCnPacket_).2 := by
  obtain ⟨f, hseen, hfrom, hdata⟩ := generated_fetch h hpre hexec hgen
  have hf : (fetches (o ++ [.fetched f]))[(fetches o).length]? = some f := by
    rw [fetches_fetched]
    exact List.getElem?_concat_length
  have hfetches : ∀ {a b : List DownObs}, a <+: b → fetches a <+: fetches b := fun hab => hab.filterMap _
  have hf' : (fetches outs)[(fetches o).length]? = some f := getElem?_of_prefix (hfetches hseen) hf
  rw [((inv_of_exec h).next _ f g hf' hg).2, ← hdata]
  split
  · rename_i hfade
    obtain ⟨pre₂, s₂, o₂, r₂, hpre₂, hexec₂, hr₂, rfl, hlen₂, ho₂⟩ := exists_fetch h hg
    have hinv₂ := inv_of_exec hexec₂
    -- the noise is the last segment obtained before the fade
    have hlast : (fetches o₂)[(fetches o).length]? = some f := by
      rw [List.prefix_iff_getElem?.mp (hfetches ho₂) _ (by omega)] at hf'
      rw [List.getElem?_eq_getElem (by omega)]
      exact hf'
    obtain ⟨hgetLast, hm1, hm2⟩ := hinv₂.last_place hlast hlen₂.symm
    have hbuf : s₂.jitterBuffer_ = [] := by
      rcases (DownstreamProcessor.spec_of_fetch hinv₂.valid hr₂).source with ⟨-, hb, -⟩ | ⟨hbuf, -⟩
      · rw [hfade.1] at hb
        cases hb
      · exact hbuf
    obtain ⟨m2, hm2'⟩ := Option.ne_none_iff_exists'.mp (mt hm2.mp (by omega))
    obtain ⟨hspare, -⟩ := hspared pre₂ s₂ o₂ _ m2 hpre₂ hexec₂ hbuf hm1 hm2'
    rcases hspare with ⟨a, ha, hseg⟩ | hquiet
    · exact absurd hseg (hinv₂.made f (List.mem_of_getElem? hlast) hfrom a ha)
    · rw [hinv₂.lastSamples f hgetLast] at hquiet
      exact (faded_eq_self_iff c 0 _).mpr hquiet
  · rfl

end

end Comfort

/-- **When concealment fades received audio only.** Over every run, noise that a
fetch generates is played as it was generated, and the fade changes received
segments only, if and only if each fetch that finds the buffer empty has two
segments before it that were received, or that are silent where the fade
would change them. -/
theorem fades_received_iff {D N K : Type} [Field K] [LinearOrder K] [IsStrictOrderedRing K] [FloorRing K]
    (dec : Decoders D N) (c : FadeCurve K) (d : D) (n : N) (ops : List DownOp) :
    ∃ s outs, DownstreamProcessor.exec dec c d n ops = some (s, outs) ∧
      (Comfort.FadesReceived dec c d n ops outs ↔ Comfort.NoiseSpared dec c d n ops) := by
  obtain ⟨s, outs, hexec, -⟩ := inv_exec dec c d n ops
  refine ⟨s, outs, hexec, fun h => h.spared, fun h => ⟨?_, ?_⟩⟩
  · intro pre s' o g hpre hexec' hgen hg
    exact h.played hexec hpre hexec' hgen hg
  · intro pre s' o r hpre hexec' hr p hp hne
    exact h.changed hpre hexec' hr hp hne

/-- Two packets, two fetches that find them, and one that finds nothing: it fades what the
packets were decoded to. -/
theorem fades_received_packet : ∃ s outs,
    DownstreamProcessor.exec louderDecoders sampleCurve 1000 () (sampleFound ++ [.fetch]) = some (s, outs) ∧
    Comfort.FadesReceived louderDecoders sampleCurve 1000 () (sampleFound ++ [.fetch]) outs := by
  obtain ⟨s, outs, hexec, hiff⟩ := fades_received_iff louderDecoders sampleCurve 1000 () (sampleFound ++ [.fetch])
  refine ⟨s, outs, hexec, hiff.mpr ?_⟩
  intro pre s₁ o m1 m2 hpre hexec₁ hempty hm1 hm2
  -- the fetches of the packets do not find the buffer empty
  rcases pre with _ | ⟨x₁, _ | ⟨x₂, _ | ⟨x₃, _ | ⟨x₄, _ | ⟨x₅, t⟩⟩⟩⟩⟩ <;> simp [sampleFound] at hpre
  · obtain ⟨rfl, rfl⟩ := hpre
    cases hexec₁
    cases hempty
  · obtain ⟨rfl, rfl, rfl⟩ := hpre
    cases hexec₁
    cases hempty
  · obtain ⟨rfl, rfl, rfl, rfl⟩ := hpre
    cases hexec₁
    cases hm1
    cases hm2
    exact ⟨Or.inl ⟨_, List.mem_cons_of_mem _ List.mem_cons_self, rfl⟩, Or.inl ⟨_, List.mem_cons_self, rfl⟩⟩

/-- Comfort noise that can be heard once its level has been set. -/
def noiseDecoders : Decoders Unit Bool :=
  ⟨fun d _ => (d, none), fun _ _ => true, fun n _ => (n, fun _ => if n then 100 else 0)⟩

theorem noiseDecoders_not_quiet : ¬ Quiet 0 fun _ => 100 := fun h =>
  absurd (h ⟨1, by decide⟩ (by decide)) (by decide)

/-- A packet of comfort noise, and two fetches. -/
def sampleNoise : List DownOp := .append ⟨sampleBytes 8, by decide⟩ PcmSegment.silence :: List.replicate 2 .fetch

/-- The third fetch generates noise, and the fourth fades it before it plays it. -/
theorem noise_faded : ∃ s outs,
    DownstreamProcessor.exec noiseDecoders sampleCurve () false (sampleNoise ++ List.replicate 2 .fetch) =
      some (s, outs) ∧
    ¬ Comfort.FadesReceived noiseDecoders sampleCurve () false (sampleNoise ++ List.replicate 2 .fetch) outs := by
  obtain ⟨s, outs, hexec, -⟩ := inv_exec noiseDecoders sampleCurve () false (sampleNoise ++ List.replicate 2 .fetch)
  refine ⟨s, outs, hexec, fun h => ?_⟩
  obtain ⟨s₃, o₃, hexec₃, hinv₃⟩ := inv_exec noiseDecoders sampleCurve () false (sampleNoise ++ [.fetch])
  obtain ⟨s₂, o₂, o', hexec₂, hstep, rfl⟩ := (Lts.exec_concat _).mp hexec₃
  obtain ⟨hgen, hset, hlen⟩ : s₂.Generates .fetch ∧ s₂.cnDecoder_ = true ∧ (fetches o₂).length = 2 := by
    have hrun : DownstreamProcessor.exec noiseDecoders sampleCurve () false sampleNoise = some (_, _) := rfl
    cases hexec₂.symm.trans hrun
    exact ⟨by decide, rfl, rfl⟩
  obtain ⟨f, hseen, hfrom, hdata⟩ := Comfort.generated_fetch hexec₃ (List.prefix_refl _) hexec₂ hgen
  -- the noise is what the fourth finds
  have hf : (fetches (o₂ ++ o'))[2]? = some f := by
    refine Comfort.getElem?_of_prefix (hseen.filterMap _) ?_
    show (fetches (o₂ ++ [.fetched f]))[2]? = some f
    rw [fetches_fetched, ← hlen]
    exact List.getElem?_concat_length
  have hv₂ := (Comfort.inv_of_exec hexec₂).valid
  obtain ⟨r, hr, hfetch⟩ := s₂.fetch_spec noiseDecoders sampleCurve hv₂
  cases (DownstreamProcessor.step_fetch hr).symm.trans hstep
  have hthree : 2 + 1 = (fetches (o₂ ++ [.fetched r.2])).length := by
    rw [fetches_fetched, List.length_append, hlen]
    rfl
  have hempty : r.1.jitterBuffer_ = [] := by
    rcases hfetch.source with ⟨hfull, -⟩ | ⟨-, hempty, -⟩
    · rw [hgen.1] at hfull
      cases hfull
    · exact hempty
  obtain ⟨hlast, hm1, hm2⟩ := hinv₃.last_place hf hthree
  obtain ⟨m2, hm2'⟩ := Option.ne_none_iff_exists'.mp (mt hm2.mp (by decide))
  obtain ⟨hspared, -⟩ := h.spared _ _ _ _ m2 (List.prefix_refl _) hexec₃ hempty hm1 hm2'
  rcases hspared with ⟨a, ha, hseg⟩ | hquiet
  · exact hinv₃.made f (List.mem_of_getElem? hf) hfrom a ha hseg
  · rw [hinv₃.lastSamples f hlast, hdata, hset] at hquiet
    exact noiseDecoders_not_quiet hquiet

end EasyVoiceCall
