/-
# What a fade does to its segments

`FadeExponential::fade` (`audio_engine/Fade.hpp`) with its own factors,
`exp(-step * i)`, as real numbers. Its assertion admits two segments or more, and
both directions. Two segments it fades out as meant. The index it goes by,
`segments.size() - nbSegment_ + indexSegment`, leaves the list where there are
more; and fading in, the first factor is compared with a `lastFactor` that starts
as the largest `double`, so that the first sample is thrown at
(`fade_iff`).

Key definitions: `exponential`, `FadeExponential.Shaped`.
Key theorems: `fade_iff`, `FadeExponential.fade_out_shaped`.
-/
import EasyVoiceCall.Fade
import EasyVoiceCall.Lib.Except
import Mathlib.Analysis.SpecialFunctions.Log.Basic

namespace EasyVoiceCall

namespace FadeExponential

/-! ### The factors -/

/-- `step`, with `minFactor` 0.01 at the end of the second segment. -/
noncomputable def step : ℝ := -Real.log (1 / 100) / (blockSize * nbSegment_ : ℕ)

theorem step_pos : 0 < step := by
  have hlog : Real.log (1 / 100) < 0 := Real.log_neg (by norm_num) (by norm_num)
  have hn : (0 : ℝ) < (blockSize * nbSegment_ : ℕ) := Nat.cast_pos.mpr (by decide)
  unfold step
  exact div_pos (neg_pos.mpr hlog) hn

/-- `std::exp(-finalX)`. -/
noncomputable def exponential : FadeCurve ℝ where
  factor i := Real.exp (-(step * i))
  factor_zero := by simp
  factor_pos i := Real.exp_pos _
  strictAnti i j h := by
    apply Real.exp_lt_exp.mpr
    apply neg_lt_neg
    exact mul_lt_mul_of_pos_left (Nat.cast_lt.mpr h) step_pos

/-! ### Where it fails -/

section

variable {K : Type} [Field K] [LinearOrder K] [IsStrictOrderedRing K] [FloorRing K]
variable (c : FadeCurve K) {segments : List Ptr} (heap : Heap)

omit [IsStrictOrderedRing K] in
/-- The assertion holds, and the loops are entered. -/
theorem fails_fade (h : nbSegment_ ≤ segments.length) (inOrOut : FadeInOut)
    (hloop : Fallible.Fails ((List.range segments.length).foldlM
      (fun (st : Heap × K) indexSegment =>
        (List.finRange blockSize).foldlM (fadeSample c inOrOut segments indexSegment) st) (heap, maxDouble))) :
    Fallible.Fails (fade c inOrOut segments heap) := by
  rw [fade, if_neg (not_lt.mpr h)]
  exact Fallible.fails_bind_left hloop

omit [IsStrictOrderedRing K] in
/-- A third segment is looked for behind the end of the list. -/
theorem fade_past_fails (h : 3 ≤ segments.length) (inOrOut : FadeInOut) :
    Fallible.Fails (fade c inOrOut segments heap) := by
  apply fails_fade c heap (le_of_lt h)
  have hpast : segments[segments.length - nbSegment_ + 2]? = none := by
    apply List.getElem?_eq_none
    unfold nbSegment_
    omega
  have hsample : ∀ st, Fallible.Fails (fadeSample c inOrOut segments 2 st ⟨0, by decide⟩) := by
    intro st
    exact ⟨.outOfRange, by simp only [fadeSample, hpast]⟩
  apply Fallible.foldlM_fails (a := 2)
  · intro st
    exact Fallible.foldlM_fails hsample st (List.mem_finRange _)
  · exact List.mem_range.mpr h

/-- Fading in, no factor is as large as `lastFactor` is at first. -/
theorem fade_in_fails (h : 2 ≤ segments.length) : Fallible.Fails (fade c .FadeIn segments heap) := by
  apply fails_fade c heap h
  obtain ⟨n, hn⟩ : ∃ n, segments.length = n + 1 := ⟨segments.length - 1, by omega⟩
  obtain ⟨p, hp⟩ : ∃ p, segments[segments.length - nbSegment_ + 0]? = some p := by
    refine ⟨_, List.getElem?_eq_getElem ?_⟩
    unfold nbSegment_
    omega
  have hfactor : c.factor (segments.length * blockSize - (0 * blockSize + 0)) < maxDouble := by
    apply lt_of_lt_of_le _ one_le_maxDouble
    rw [← c.factor_zero]
    apply c.strictAnti
    unfold blockSize sampleRate
    omega
  have hone : ¬ c.factor (segments.length * blockSize - (0 * blockSize + 0)) > 1 + epsilon :=
    not_lt.mpr ((c.factor_le_one _).trans (le_add_of_nonneg_right epsilon_pos.le))
  have hthrow : fadeSample c .FadeIn segments 0 (heap, maxDouble) ⟨0, by decide⟩ = .error .thrown := by
    simp only [fadeSample, hp, ↓reduceIte]
    rw [if_neg hone, if_pos ⟨trivial, hfactor⟩]
  have hblock : Fallible.Fails ((List.finRange blockSize).foldlM (fadeSample c .FadeIn segments 0)
      (heap, maxDouble)) := by
    obtain ⟨rest, hrest⟩ : ∃ rest : List (Fin blockSize), List.finRange blockSize = ⟨0, by decide⟩ :: rest :=
      ⟨_, List.finRange_succ (n := 159)⟩
    rw [hrest, List.foldlM_cons, hthrow]
    exact ⟨.thrown, rfl⟩
  rw [hn, List.range_succ_eq_map, List.foldlM_cons]
  exact Fallible.fails_bind_left hblock

end

/-! ### Where it does not -/

section

variable {K : Type} [Field K] [LinearOrder K] [FloorRing K]

/-- The segment at `p` with each sample multiplied by a factor, the `k`-th block of
factors. -/
def multiply (factor : ℕ → K) (k : ℕ) (p : Ptr) (heap : Heap) : Heap :=
  heap.write p fun pos => scale (factor (k * blockSize + pos)) (heap.read p pos)

/-- What a fade with these factors is to do: the last two segments are multiplied by them,
the others stay as they are. -/
structure Shaped (inOrOut : FadeInOut) (segments : List Ptr) (factor : ℕ → K) (heap heap' : Heap) : Prop where
  range : ∀ i, 0 < factor i ∧ factor i ≤ 1
  along : ∀ i j, i ≤ j → j < nbSegment_ * blockSize →
    match inOrOut with
    | .FadeIn => factor i ≤ factor j
    | .FadeOut => factor j ≤ factor i
  last : ∃ older a b, segments = older ++ [a, b] ∧ heap' = multiply factor 1 b (multiply factor 0 a heap) ∧
    ∀ p, p ≠ a → p ≠ b → heap'.read p = heap.read p
  quieter : ∀ p pos, |(heap'.read p pos).toInt| ≤ |(heap.read p pos).toInt|

variable [IsStrictOrderedRing K]

/-- A scaled sample lies between zero and the sample. -/
theorem toInt_scale {factor : K} (h0 : 0 < factor) (h1 : factor ≤ 1) (sample : Int16) :
    (0 ≤ sample.toInt → 0 ≤ (scale factor sample).toInt ∧ (scale factor sample).toInt ≤ sample.toInt) ∧
    (sample.toInt ≤ 0 → sample.toInt ≤ (scale factor sample).toInt ∧ (scale factor sample).toInt ≤ 0) := by
  have hlo := sample.le_toInt
  have hhi := sample.toInt_lt
  rcases eq_or_lt_of_le h1 with rfl | h1
  · rw [scale_one]
    omega
  · obtain ⟨hpos, hneg⟩ := truncate_mul sample.toInt h0 h1
    rcases lt_trichotomy sample.toInt 0 with hx | hx | hx
    · obtain ⟨ha, hb⟩ := hneg hx
      rw [scale, Int16.toInt_ofInt_of_le (by omega) (by omega)]
      omega
    · have hzero : sample = 0 := Int16.toInt_inj.mp hx
      rw [(scale_eq_self_iff h0 h1 sample).mpr hzero]
      omega
    · obtain ⟨ha, hb⟩ := hpos hx
      rw [scale, Int16.toInt_ofInt_of_le (by omega) (by omega)]
      omega

/-- A factor up to one makes no sample larger. -/
theorem abs_scale_le {factor : K} (h0 : 0 < factor) (h1 : factor ≤ 1) (sample : Int16) :
    |(scale factor sample).toInt| ≤ |sample.toInt| := by
  obtain ⟨hpos, hneg⟩ := toInt_scale h0 h1 sample
  rcases le_total 0 sample.toInt with hx | hx
  · obtain ⟨ha, hb⟩ := hpos hx
    rw [abs_of_nonneg ha, abs_of_nonneg hx]
    exact hb
  · obtain ⟨ha, hb⟩ := hneg hx
    rw [abs_of_nonpos hb, abs_of_nonpos hx]
    exact neg_le_neg ha

variable {factor : ℕ → K} {heap : Heap} {p : Ptr}

omit [IsStrictOrderedRing K] in
theorem read_multiply (hp : p < heap.length) (k : ℕ) (q : Ptr) : (multiply factor k p heap).read q =
    if q = p then fun pos : Fin blockSize => scale (factor (k * blockSize + pos)) (heap.read p pos)
    else heap.read q :=
  Heap.read_write hp _ q

theorem quieter_multiply (h : ∀ i, 0 < factor i ∧ factor i ≤ 1) (hp : p < heap.length) (k : ℕ) (q : Ptr)
    (pos : Fin blockSize) : |((multiply factor k p heap).read q pos).toInt| ≤ |(heap.read q pos).toInt| := by
  rw [read_multiply hp]
  split
  · rename_i hq
    rw [hq]
    exact abs_scale_le (h _).1 (h _).2 _
  · exact le_rfl

/-- **Two segments faded out**, which may be one and the same. -/
theorem fade_out_shaped (c : FadeCurve K) {a b : Ptr} (ha : a < heap.length) (hb : b < heap.length) :
    ∃ heap', fade c .FadeOut [a, b] heap = .ok heap' ∧ Shaped .FadeOut [a, b] c.factor heap heap' := by
  have hrange : ∀ i, 0 < c.factor i ∧ c.factor i ≤ 1 := fun i => ⟨c.factor_pos i, c.factor_le_one i⟩
  have hb' : b < (multiply c.factor 0 a heap).length := by
    rw [multiply, Heap.length_write]
    exact hb
  refine ⟨_, fade_two c ha hb, hrange, fun i j hij _ => c.strictAnti.antitone hij, ?_, fun p pos => ?_⟩
  · refine ⟨[], a, b, rfl, rfl, fun p hpa hpb => ?_⟩
    show (multiply c.factor 1 b (multiply c.factor 0 a heap)).read p = _
    rw [read_multiply hb', if_neg hpb, read_multiply ha, if_neg hpa]
  · exact (quieter_multiply hrange hb' 1 p pos).trans (quieter_multiply hrange ha 0 p pos)

end

end FadeExponential

open FadeExponential

/-- **When a fade is right.** For two segments or more in memory and either direction:
`fade` ends, having used existing segments only and thrown nothing, and has multiplied the
last two by factors that go down along them (fading out) or up (fading in), if and only if
it fades out and there are no more than two. -/
theorem fade_iff (inOrOut : FadeInOut) {segments : List Ptr} {heap : Heap} (h2 : 2 ≤ segments.length)
    (hsegments : ∀ p ∈ segments, p < heap.length) :
    (∃ heap', ∃ factor : ℕ → ℝ, fade exponential inOrOut segments heap = .ok heap' ∧
      Shaped inOrOut segments factor heap heap') ↔ inOrOut = .FadeOut ∧ segments.length = 2 := by
  constructor
  · rintro ⟨heap', factor, hok, -⟩
    have hno : ¬ Fallible.Fails (fade exponential inOrOut segments heap) := by
      rw [hok]
      exact Fallible.not_fails_ok heap'
    refine ⟨?_, ?_⟩
    · cases inOrOut with
      | FadeIn => exact absurd (fade_in_fails exponential heap h2) hno
      | FadeOut => rfl
    · by_contra hne
      exact hno (fade_past_fails exponential heap (by omega) inOrOut)
  · rintro ⟨rfl, hlen⟩
    obtain ⟨a, b, rfl⟩ := List.length_eq_two.mp hlen
    obtain ⟨heap', hok, hshaped⟩ := fade_out_shaped exponential (hsegments a (by simp)) (hsegments b (by simp))
    exact ⟨heap', exponential.factor, hok, hshaped⟩

/-- Two segments that can be heard, faded out. -/
theorem fade_iff_two : ∃ heap', ∃ factor : ℕ → ℝ,
    fade exponential .FadeOut [0, 1] [fun _ => 1000, fun _ => -1000] = .ok heap' ∧
    Shaped .FadeOut [0, 1] factor [fun _ => 1000, fun _ => -1000] heap' :=
  (fade_iff .FadeOut (show 2 ≤ [0, 1].length by decide) (by decide)).mpr ⟨rfl, rfl⟩

/-- Two segments faded in are thrown at, and three faded out leave the list. -/
theorem fade_fails :
    (¬ ∃ heap', ∃ factor : ℕ → ℝ, fade exponential .FadeIn [0, 1] [PcmSegment.silence, PcmSegment.silence] = .ok heap' ∧
      Shaped .FadeIn [0, 1] factor [PcmSegment.silence, PcmSegment.silence] heap') ∧
    ¬ ∃ heap', ∃ factor : ℕ → ℝ,
      fade exponential .FadeOut [0, 1, 2] [PcmSegment.silence, PcmSegment.silence, PcmSegment.silence] = .ok heap' ∧
        Shaped .FadeOut [0, 1, 2] factor [PcmSegment.silence, PcmSegment.silence, PcmSegment.silence] heap' := by
  refine ⟨?_, ?_⟩
  · rintro ⟨heap', factor, hok, -⟩
    obtain ⟨e, he⟩ := fade_in_fails exponential [PcmSegment.silence, PcmSegment.silence]
      (show 2 ≤ [0, 1].length by decide)
    rw [hok] at he
    cases he
  · rintro ⟨heap', factor, hok, -⟩
    obtain ⟨e, he⟩ := fade_past_fails exponential
      [PcmSegment.silence, PcmSegment.silence, PcmSegment.silence] (show 3 ≤ [0, 1, 2].length by decide) .FadeOut
    rw [hok] at he
    cases he

end EasyVoiceCall
