/-
# What the concealment of a lost packet leaves

`PacketLossConcealment_ZeroInsertion::predict` fades the last two segments out and is
to append a segment of silence. The fade does what it is to do: no sample changes its
sign or grows. The `memset` counts bytes, and is given the number of samples, so the second
half of the output is what it was (`predict_spec`). The one caller passes a new segment,
which is all zeros already.

Key definition: `Concealed`.
Key theorems: `predict_spec`, `concealed_iff`.
-/
import EasyVoiceCall.FadeShape

namespace EasyVoiceCall

namespace FadeExponential

variable {K : Type} [Field K] [LinearOrder K] [IsStrictOrderedRing K] [FloorRing K]

/-- The sign of a sample stays, or the sample becomes zero. -/
theorem sign_scale {factor : K} (h0 : 0 < factor) (h1 : factor ≤ 1) (sample : Int16) :
    (scale factor sample).toInt.sign = sample.toInt.sign ∨ scale factor sample = 0 := by
  obtain ⟨hpos, hneg⟩ := toInt_scale h0 h1 sample
  by_cases hzero : (scale factor sample).toInt = 0
  · exact Or.inr (Int16.toInt_inj.mp hzero)
  · left
    rcases le_total 0 sample.toInt with hx | hx
    · obtain ⟨ha, hb⟩ := hpos hx
      rw [Int.sign_eq_one_of_pos (by omega), Int.sign_eq_one_of_pos (by omega)]
    · obtain ⟨ha, hb⟩ := hneg hx
      rw [Int.sign_eq_neg_one_of_neg (by omega), Int.sign_eq_neg_one_of_neg (by omega)]

end FadeExponential

open FadeExponential

namespace PacketLossConcealment_ZeroInsertion

/-- What `predict` is to do with the two segments `a` and `b` and the output `out`. -/
structure Concealed (a b out : Ptr) (heap heap' : Heap) : Prop where
  silent : ∀ pos, heap'.read out pos = 0
  sign : ∀ p ∈ [a, b], ∀ pos, (heap'.read p pos).toInt.sign = (heap.read p pos).toInt.sign ∨ heap'.read p pos = 0
  quieter : ∀ p ∈ [a, b], ∀ pos, |(heap'.read p pos).toInt| ≤ |(heap.read p pos).toInt|

section

variable {K : Type} [Field K] [LinearOrder K] [IsStrictOrderedRing K] [FloorRing K]
variable (c : FadeCurve K) {a b out : Ptr} {heap : Heap}

/-- **What `predict` does**: it fades the two segments, and clears the first half of the
output. -/
theorem predict_spec (hab : a ≠ b) (houta : out ≠ a) (houtb : out ≠ b) (ha : a < heap.length) (hb : b < heap.length)
    (hout : out < heap.length) : ∃ heap', predict c [a, b] out heap = .ok heap' ∧
      heap'.read a = faded c 0 (heap.read a) ∧ heap'.read b = faded c 1 (heap.read b) ∧
      ∀ pos, heap'.read out pos = if pos.val < blockSize / 2 then 0 else heap.read out pos := by
  obtain ⟨heap', hok, -, hread⟩ := predict_pair c out hab ha hb
  refine ⟨heap', hok, ?_, ?_, fun pos => ?_⟩
  · rw [hread a houta.symm, if_pos rfl]
  · rw [hread b houtb.symm, if_neg hab.symm, if_pos rfl]
  · set heap₁ := heap.write a (faded c 0 (heap.read a)) with hheap₁
    have hb₁ : b < heap₁.length := by
      rw [hheap₁, Heap.length_write]
      exact hb
    have hout₂ : out < (heap₁.write b (faded c 1 (heap.read b))).length := by
      rw [Heap.length_write, hheap₁, Heap.length_write]
      exact hout
    rw [predict, fade_pair c hab ha hb] at hok
    cases hok
    rw [Heap.read_write hout₂, if_pos rfl, Heap.read_write hb₁, if_neg houtb, hheap₁, Heap.read_write ha, if_neg houta]

/-- The fade keeps the signs and makes nothing louder. -/
theorem faded_sign (k : ℕ) (segment : PcmSegment) (pos : Fin blockSize) :
    (faded c k segment pos).toInt.sign = (segment pos).toInt.sign ∨ faded c k segment pos = 0 :=
  sign_scale (c.factor_pos _) (c.factor_le_one _) (segment pos)

theorem faded_quieter (k : ℕ) (segment : PcmSegment) (pos : Fin blockSize) :
    |(faded c k segment pos).toInt| ≤ |(segment pos).toInt| :=
  abs_scale_le (c.factor_pos _) (c.factor_le_one _) (segment pos)

/-- The output is silent where its second half was. -/
theorem silent_iff {segment segment' : PcmSegment}
    (h : ∀ pos, segment' pos = if pos.val < blockSize / 2 then 0 else segment pos) :
    (∀ pos, segment' pos = 0) ↔ ∀ pos : Fin blockSize, blockSize / 2 ≤ pos.val → segment pos = 0 := by
  constructor
  · intro hall pos hpos
    have hzero := hall pos
    rwa [h, if_neg (not_lt.mpr hpos)] at hzero
  · intro hhalf pos
    rw [h]
    split
    · rfl
    · rename_i hpos
      exact hhalf pos (not_lt.mp hpos)

end

end PacketLossConcealment_ZeroInsertion

open PacketLossConcealment_ZeroInsertion

/-- **When the concealment appends silence.** For two segments and an output, all distinct and
in memory: `predict` returns, all of the output is zero, and no sample of the two segments
has changed its sign or grown, if and only if the second half of the output was zero
before. -/
theorem concealed_iff {a b out : Ptr} {heap : Heap} (hab : a ≠ b) (houta : out ≠ a) (houtb : out ≠ b)
    (ha : a < heap.length) (hb : b < heap.length) (hout : out < heap.length) :
    (∃ heap', predict exponential [a, b] out heap = .ok heap' ∧ Concealed a b out heap heap') ↔
      ∀ pos : Fin blockSize, blockSize / 2 ≤ pos.val → heap.read out pos = 0 := by
  obtain ⟨heap', hok, hreada, hreadb, hreadout⟩ := predict_spec exponential hab houta houtb ha hb hout
  rw [← silent_iff hreadout]
  constructor
  · rintro ⟨heap'', hok', hconcealed⟩
    rw [hok] at hok'
    cases hok'
    exact hconcealed.silent
  · intro hsilent
    refine ⟨heap', hok, hsilent, List.forall_mem_cons.mpr ⟨?_, List.forall_mem_singleton.mpr ?_⟩,
      List.forall_mem_cons.mpr ⟨?_, List.forall_mem_singleton.mpr ?_⟩⟩
    · rw [hreada]
      exact faded_sign exponential 0 _
    · rw [hreadb]
      exact faded_sign exponential 1 _
    · rw [hreada]
      exact faded_quieter exponential 0 _
    · rw [hreadb]
      exact faded_quieter exponential 1 _

/-- A segment whose first half can be heard. -/
def halfSegment : PcmSegment := fun pos => if pos.val < blockSize / 2 then 7 else 0

/-- It is the output, after two others that can be heard. -/
theorem concealed_iff_half : ∃ heap',
    predict exponential [0, 1] 2 [fun _ => 1000, fun _ => -1000, halfSegment] = .ok heap' ∧
      Concealed 0 1 2 [fun _ => 1000, fun _ => -1000, halfSegment] heap' :=
  (concealed_iff (by decide) (by decide) (by decide) (by decide) (by decide) (by decide)).mpr
    fun _ hpos => if_neg (not_lt.mpr hpos)

/-- The last sample of an output that held something is still there. -/
theorem concealed_fails : ¬ ∃ heap',
    predict exponential [0, 1] 2 [PcmSegment.silence, PcmSegment.silence, fun _ => 1] = .ok heap' ∧
      Concealed 0 1 2 [PcmSegment.silence, PcmSegment.silence, fun _ => 1] heap' := by
  rintro ⟨heap', hok, hconcealed⟩
  have hspec := @predict_spec ℝ _ _ _ _ exponential 0 1 2 [PcmSegment.silence, PcmSegment.silence, fun _ => 1]
  obtain ⟨heap'', hok', -, -, hread⟩ := hspec (by decide) (by decide) (by decide) (by decide) (by decide) (by decide)
  rw [hok] at hok'
  cases hok'
  have hlast := hread ⟨159, by decide⟩
  rw [hconcealed.silent] at hlast
  exact absurd hlast (by decide)

end EasyVoiceCall
