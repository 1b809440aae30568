/-
# Segments, the fade and the concealment of a lost packet

`include/AudioCommon.hpp`, `audio_engine/Fade.hpp` and
`audio_engine/PacketLossConcealment_ZeroInsertion.hpp`. A `PcmSegment` is 10 ms
of samples, held by `shared_ptr`s: the segments live in a `Heap`, and a pointer
is the place of a segment there. `FadeExponential::fade` scales the samples of
the segments it is given in place, whoever else points to them.

The factors come from a `FadeCurve`, of which only the shape is known: one at
the first sample, positive, and going down.

Key theorems: `FadeExponential.fade_two`, `FadeExponential.faded_eq_self_iff`,
`PacketLossConcealment_ZeroInsertion.predict_pair`.
-/
import Mathlib.Algebra.Order.Floor.Ring
import Mathlib.Algebra.Order.Field.Basic
import Mathlib.Data.List.FinRange
import Mathlib.Data.List.GetD
import Mathlib.Data.Rat.Floor
import Mathlib.Order.Monotone.Basic
import Mathlib.Tactic.Linarith
import Mathlib.Tactic.Positivity

namespace EasyVoiceCall

def sampleRate : ℕ := 16000

abbrev blockSize : ℕ := sampleRate / 100

abbrev PcmSegment := Fin blockSize → Int16

namespace PcmSegment

def silence : PcmSegment := fun _ => 0

end PcmSegment

/-! ### The segments in memory -/

/-- A `std::shared_ptr<PcmSegment>`. -/
abbrev Ptr := ℕ

/-- The segments there have been. A new one goes to the end. -/
abbrev Heap := List PcmSegment

namespace Heap

def read (heap : Heap) (p : Ptr) : PcmSegment := heap.getD p PcmSegment.silence

def write (heap : Heap) (p : Ptr) (segment : PcmSegment) : Heap := heap.set p segment

@[simp] theorem length_write (heap : Heap) (p : Ptr) (s : PcmSegment) :
    (write heap p s).length = heap.length := by
  simp [write]

theorem read_write {heap : Heap} {p : Ptr} (hp : p < heap.length) (s : PcmSegment) (q : Ptr) :
    read (write heap p s) q = if q = p then s else read heap q := by
  unfold read write
  rw [List.getD_eq_getElem?_getD, List.getD_eq_getElem?_getD, List.getElem?_set]
  by_cases h : p = q
  · subst h
    simp [hp]
  · simp [h, Ne.symm h]

theorem write_write (heap : Heap) (p : Ptr) (s t : PcmSegment) : write (write heap p s) p t = write heap p t :=
  List.set_set _

theorem write_read {heap : Heap} {p : Ptr} (hp : p < heap.length) : write heap p (read heap p) = heap := by
  unfold read write
  rw [List.getD_eq_getElem _ _ hp, List.set_getElem_self]

theorem read_append_of_lt {heap : Heap} {p : Ptr} (hp : p < heap.length) (s : PcmSegment) :
    read (heap ++ [s]) p = read heap p := by
  unfold read
  rw [List.getD_append _ _ _ _ hp]

theorem read_append_length (heap : Heap) (s : PcmSegment) : read (heap ++ [s]) heap.length = s := by
  simp [read]

end Heap

/-! ### The fade -/

section Fade

variable {K : Type} [Field K] [LinearOrder K] [IsStrictOrderedRing K] [FloorRing K]

/-- The factor of each sample, by its index. -/
structure FadeCurve (K : Type) [Field K] [LinearOrder K] where
  factor : ℕ → K
  factor_zero : factor 0 = 1
  factor_pos : ∀ n, 0 < factor n
  strictAnti : StrictAnti factor

omit [IsStrictOrderedRing K] [FloorRing K] in
theorem FadeCurve.factor_le_one (c : FadeCurve K) (n : ℕ) : c.factor n ≤ 1 := by
  rw [← c.factor_zero]
  exact c.strictAnti.antitone (Nat.zero_le n)

/-- A curve to evaluate with. -/
def sampleCurve : FadeCurve ℚ where
  factor n := 1 / (n + 1)
  factor_zero := by norm_num
  factor_pos n := by positivity
  strictAnti m n h := by
    have hlt : (m : ℚ) + 1 < n + 1 := by
      have : (m : ℚ) < n := Nat.cast_lt.mpr h
      linarith
    exact one_div_lt_one_div_of_lt (by positivity) hlt

/-- The conversion of a floating-point number to an integer. -/
def truncate (x : K) : ℤ := if 0 ≤ x then ⌊x⌋ else ⌈x⌉

/-- `sample *= factor`. -/
def scale (factor : K) (sample : Int16) : Int16 := Int16.ofInt (truncate (sample.toInt * factor))

inductive FadeInOut
  | FadeIn
  | FadeOut
  deriving DecidableEq

/-- How a fade can fail: the assertion, an index past the list, one of the
`throw` statements. -/
inductive FadeError
  | assertion
  | outOfRange
  | thrown
  deriving DecidableEq

namespace FadeExponential

def nbSegment_ : ℕ := 2

/-- `std::numeric_limits<double>::max()`. -/
def maxDouble : K := (2 ^ 53 - 1) * 2 ^ 971

/-- `std::numeric_limits<double>::epsilon()`. -/
def epsilon : K := 1 / 2 ^ 52

/-- The body of the two loops: the memory and `lastFactor`. -/
def fadeSample (c : FadeCurve K) (inOrOut : FadeInOut) (segments : List Ptr) (indexSegment : ℕ)
    (st : Heap × K) (posOfOneSeg : Fin blockSize) : Except FadeError (Heap × K) :=
  let currentSegmentIndex := segments.length - nbSegment_ + indexSegment
  let indexSample := indexSegment * blockSize + posOfOneSeg
  let indexSample := if inOrOut = .FadeIn then segments.length * blockSize - indexSample else indexSample
  match segments[currentSegmentIndex]? with
  | none => .error .outOfRange
  | some currentSegment =>
    let finalFactor := c.factor indexSample
    if finalFactor > 1 + epsilon then .error .thrown
    else if inOrOut = .FadeIn ∧ finalFactor < st.2 then .error .thrown
    else if inOrOut = .FadeOut ∧ finalFactor > st.2 then .error .thrown
    else
      let samples := st.1.read currentSegment
      .ok (st.1.write currentSegment
        (Function.update samples posOfOneSeg (scale finalFactor (samples posOfOneSeg))), finalFactor)

/-- `FadeExponential::fade`. -/
def fade (c : FadeCurve K) (inOrOut : FadeInOut) (segments : List Ptr) (heap : Heap) :
    Except FadeError Heap :=
  if segments.length < nbSegment_ then .error .assertion
  else do
    let st ← (List.range segments.length).foldlM
      (fun (st : Heap × K) indexSegment =>
        (List.finRange blockSize).foldlM (fadeSample c inOrOut segments indexSegment) st)
      (heap, maxDouble)
    return st.1

/-- A segment after a fade that reached it as the `k`-th. -/
def faded (c : FadeCurve K) (k : ℕ) (segment : PcmSegment) : PcmSegment :=
  fun pos => scale (c.factor (k * blockSize + pos)) (segment pos)

theorem one_le_maxDouble : (1 : K) ≤ maxDouble := by
  have h53 : (1 : K) ≤ 2 ^ 53 - 1 := by norm_num
  exact one_le_mul_of_one_le_of_one_le h53 (one_le_pow₀ one_le_two)

omit [FloorRing K] in
theorem epsilon_pos : (0 : K) < epsilon := by
  unfold epsilon
  positivity

/-- Fading out, a sample whose factor is not above the last one is scaled. -/
theorem fadeSample_out (c : FadeCurve K) {segments : List Ptr} {k : ℕ} {p : Ptr}
    (hp : segments[segments.length - nbSegment_ + k]? = some p) {heap : Heap} {last : K} {pos : Fin blockSize}
    (hlast : c.factor (k * blockSize + pos) ≤ last) :
    fadeSample c .FadeOut segments k (heap, last) pos =
      .ok (heap.write p (Function.update (heap.read p) pos
        (scale (c.factor (k * blockSize + pos)) (heap.read p pos))), c.factor (k * blockSize + pos)) := by
  have h1 : ¬ c.factor (k * blockSize + pos) > 1 + epsilon :=
    not_lt.mpr ((c.factor_le_one _).trans (le_add_of_nonneg_right epsilon_pos.le))
  simp only [fadeSample, hp, reduceCtorEq, ↓reduceIte, h1, false_and, true_and]
  rw [if_neg (not_lt.mpr hlast)]

/-- The inner loop over the samples `js` of one segment. -/
theorem fadeBlock_out (c : FadeCurve K) {segments : List Ptr} {k : ℕ} {p : Ptr}
    (hp : segments[segments.length - nbSegment_ + k]? = some p) :
    ∀ (js : List (Fin blockSize)) (heap : Heap) (last : K),
    js.Pairwise (· < ·) → p < heap.length → (∀ j ∈ js, c.factor (k * blockSize + j) ≤ last) →
    ∃ last', js.foldlM (fadeSample c .FadeOut segments k) (heap, last) =
      .ok (heap.write p (fun pos => if pos ∈ js then faded c k (heap.read p) pos else heap.read p pos), last') ∧
      (last' = last ∨ ∃ j ∈ js, last' = c.factor (k * blockSize + j))
  | [], heap, last, _, hlt, _ => ⟨last, by simp [Heap.write_read hlt, pure, Except.pure], Or.inl rfl⟩
  | j :: js, heap, last, hs, hlt, hlast => by
    obtain ⟨hj, hs'⟩ := List.pairwise_cons.mp hs
    have hjs : j ∉ js := fun h => lt_irrefl _ (hj j h)
    set heap' := heap.write p (Function.update (heap.read p) j
      (scale (c.factor (k * blockSize + j)) (heap.read p j))) with hheap'
    have hread : heap'.read p = Function.update (heap.read p) j
        (scale (c.factor (k * blockSize + j)) (heap.read p j)) := by
      rw [hheap', Heap.read_write hlt, if_pos rfl]
    obtain ⟨last', hfold, hlast'⟩ := fadeBlock_out c hp js heap' (c.factor (k * blockSize + j)) hs'
      (by rw [hheap', Heap.length_write]; exact hlt)
      (fun i hi => c.strictAnti.antitone (Nat.add_le_add_left (hj i hi).le _))
    refine ⟨last', ?_, Or.inr ?_⟩
    · rw [List.foldlM_cons, fadeSample_out c hp (hlast j List.mem_cons_self)]
      show List.foldlM (fadeSample c .FadeOut segments k) (heap', _) js = _
      rw [hfold, hread, hheap', Heap.write_write]
      congr 3
      funext pos
      by_cases hpos : pos = j
      · subst hpos
        simp [hjs, faded]
      · simp [hpos, faded]
    · rcases hlast' with rfl | ⟨i, hi, rfl⟩
      · exact ⟨j, List.mem_cons_self, rfl⟩
      · exact ⟨i, List.mem_cons_of_mem _ hi, rfl⟩

/-- **Two segments faded out.** The first gets the factors from one on; the second, as it
is then, those that follow. -/
theorem fade_two (c : FadeCurve K) {a b : Ptr} {heap : Heap} (ha : a < heap.length) (hb : b < heap.length) :
    fade c .FadeOut [a, b] heap =
      .ok ((heap.write a (faded c 0 (heap.read a))).write b
        (faded c 1 ((heap.write a (faded c 0 (heap.read a))).read b))) := by
  have hsorted := List.pairwise_lt_finRange blockSize
  have hfirst : [a, b][[a, b].length - nbSegment_ + 0]? = some a := rfl
  have hsecond : [a, b][[a, b].length - nbSegment_ + 1]? = some b := rfl
  obtain ⟨last, h0, hlast⟩ := fadeBlock_out c hfirst (List.finRange blockSize) heap maxDouble hsorted ha
    fun j _ => (c.factor_le_one _).trans one_le_maxDouble
  set heap' := heap.write a (faded c 0 (heap.read a)) with hheap'
  have h1 : ∀ j ∈ List.finRange blockSize, c.factor (1 * blockSize + j) ≤ last := by
    intro j _
    rcases hlast with rfl | ⟨i, -, rfl⟩
    · exact (c.factor_le_one _).trans one_le_maxDouble
    · refine c.strictAnti.antitone ?_
      have := i.isLt
      omega
  obtain ⟨last', h1', -⟩ := fadeBlock_out c hsecond (List.finRange blockSize) heap' last hsorted
    (by rw [hheap', Heap.length_write]; exact hb) h1
  simp only [List.mem_finRange, ↓reduceIte] at h0 h1'
  have hout : (List.range [a, b].length).foldlM
      (fun (st : Heap × K) k => (List.finRange blockSize).foldlM (fadeSample c .FadeOut [a, b] k) st)
      (heap, maxDouble) = .ok (heap'.write b (fun pos => faded c 1 (heap'.read b) pos), last') := by
    show ((List.finRange blockSize).foldlM (fadeSample c .FadeOut [a, b] 0) (heap, maxDouble) >>= _) = _
    rw [h0]
    show ((List.finRange blockSize).foldlM (fadeSample c .FadeOut [a, b] 1) (heap', last) >>= _) = _
    rw [h1']
    rfl
  have htwo : ¬ [a, b].length < nbSegment_ := lt_irrefl 2
  rw [fade, if_neg htwo, hout]
  rfl

/-- A pair, each in a place of its own. -/
theorem fade_pair (c : FadeCurve K) {a b : Ptr} {heap : Heap} (hab : a ≠ b) (ha : a < heap.length)
    (hb : b < heap.length) : fade c .FadeOut [a, b] heap =
      .ok ((heap.write a (faded c 0 (heap.read a))).write b (faded c 1 (heap.read b))) := by
  rw [fade_two c ha hb, Heap.read_write ha, if_neg hab.symm]

/-! ### What a fade leaves as it was -/

theorem scale_one (sample : Int16) : scale (1 : K) sample = sample := by
  have htrunc : truncate ((sample.toInt : K) * 1) = sample.toInt := by
    unfold truncate
    rw [mul_one, Int.floor_intCast, Int.ceil_intCast, ite_self]
  rw [scale, htrunc, Int16.ofInt_toInt]

/-- A factor below one brings a sample nearer to zero. -/
theorem truncate_mul (x : ℤ) {factor : K} (h0 : 0 < factor) (h1 : factor < 1) :
    (0 < x → 0 ≤ truncate (x * factor) ∧ truncate (x * factor) < x) ∧
    (x < 0 → x < truncate (x * factor) ∧ truncate (x * factor) ≤ 0) := by
  refine ⟨fun hx => ?_, fun hx => ?_⟩
  · have hpos : (0 : K) < x := Int.cast_pos.mpr hx
    have hlt : (x : K) * factor < x := mul_lt_of_lt_one_right hpos h1
    have hnonneg : 0 ≤ (x : K) * factor := (mul_pos hpos h0).le
    unfold truncate
    rw [if_pos hnonneg]
    exact ⟨Int.floor_nonneg.mpr hnonneg, Int.floor_lt.mpr hlt⟩
  · have hneg : (x : K) < 0 := Int.cast_lt_zero.mpr hx
    have hlt : (x : K) < x * factor := lt_mul_of_lt_one_right hneg h1
    have hprod : (x : K) * factor < 0 := mul_neg_of_neg_of_pos hneg h0
    unfold truncate
    rw [if_neg (not_le.mpr hprod)]
    exact ⟨Int.lt_ceil.mpr hlt, Int.ceil_le.mpr (by rw [Int.cast_zero]; exact hprod.le)⟩

/-- A factor below one keeps no sample but zero. -/
theorem scale_eq_self_iff {factor : K} (h0 : 0 < factor) (h1 : factor < 1) (sample : Int16) :
    scale factor sample = sample ↔ sample = 0 := by
  have hlo := sample.le_toInt
  have hhi := sample.toInt_lt
  obtain ⟨hpos, hneg⟩ := truncate_mul sample.toInt h0 h1
  constructor
  · intro h
    by_contra hne
    have hne' : sample.toInt ≠ 0 := fun h' => hne (Int16.toInt_inj.mp h')
    have hbounds : -2 ^ 15 ≤ truncate ((sample.toInt : K) * factor) ∧
        truncate ((sample.toInt : K) * factor) < 2 ^ 15 := by
      rcases lt_or_gt_of_ne hne' with hx | hx
      · have := hneg hx
        omega
      · have := hpos hx
        omega
    have heq : truncate ((sample.toInt : K) * factor) = sample.toInt := by
      rw [← Int16.toInt_ofInt_of_le hbounds.1 hbounds.2]
      exact congrArg Int16.toInt h
    rcases lt_or_gt_of_ne hne' with hx | hx
    · exact absurd heq (hneg hx).1.ne'
    · exact absurd heq (hpos hx).2.ne
  · rintro rfl
    have hzero : truncate (((0 : Int16).toInt : K) * factor) = 0 := by
      unfold truncate
      rw [Int16.toInt_zero, Int.cast_zero, zero_mul, if_pos le_rfl, Int.floor_zero]
    rw [scale, hzero]
    rfl

/-- The samples that the fade would scale down are zero. -/
def Quiet (k : ℕ) (segment : PcmSegment) : Prop := ∀ pos, 0 < k * blockSize + pos.val → segment pos = 0

instance (k : ℕ) (segment : PcmSegment) : Decidable (Quiet k segment) := by
  unfold Quiet
  infer_instance

/-- **Silence is all that a fade keeps.** -/
theorem faded_eq_self_iff (c : FadeCurve K) (k : ℕ) (segment : PcmSegment) :
    faded c k segment = segment ↔ Quiet k segment := by
  have hsample : ∀ pos : Fin blockSize, faded c k segment pos = segment pos ↔
      (0 < k * blockSize + pos.val → segment pos = 0) := by
    intro pos
    unfold faded
    rcases Nat.eq_zero_or_pos (k * blockSize + pos.val) with h | h
    · rw [h, c.factor_zero, scale_one]
      exact iff_of_true rfl fun h => absurd h (lt_irrefl 0)
    · have hlt : c.factor (k * blockSize + pos.val) < 1 := by
        rw [← c.factor_zero]
        exact c.strictAnti h
      rw [scale_eq_self_iff (c.factor_pos _) hlt]
      exact ⟨fun h' _ => h', fun h' => h' h⟩
  rw [funext_iff]
  exact forall_congr' hsample

end FadeExponential

/-- `PacketLossConcealment_ZeroInsertion::predict`. The `memset` clears as many
bytes as the segment has samples. -/
def PacketLossConcealment_ZeroInsertion.predict (c : FadeCurve K) (older : List Ptr) (outputSegment : Ptr)
    (heap : Heap) : Except FadeError Heap := do
  let heap ← FadeExponential.fade c .FadeOut older heap
  return heap.write outputSegment fun pos =>
    if pos.val < blockSize / 2 then 0 else heap.read outputSegment pos

/-- The concealment of a lost packet after two segments. -/
theorem PacketLossConcealment_ZeroInsertion.predict_pair (c : FadeCurve K) {a b : Ptr} (out : Ptr)
    {heap : Heap} (hab : a ≠ b) (ha : a < heap.length) (hb : b < heap.length) :
    ∃ heap', predict c [a, b] out heap = .ok heap' ∧ heap'.length = heap.length ∧
      ∀ q, q ≠ out → heap'.read q =
        if q = a then FadeExponential.faded c 0 (heap.read a)
        else if q = b then FadeExponential.faded c 1 (heap.read b) else heap.read q := by
  set heap₂ := (heap.write a (FadeExponential.faded c 0 (heap.read a))).write b
    (FadeExponential.faded c 1 (heap.read b)) with hheap₂
  refine ⟨_, by rw [predict, FadeExponential.fade_pair c hab ha hb]; rfl, by simp, fun q hq => ?_⟩
  have hread : ∀ s, Heap.read (Heap.write heap₂ out s) q = Heap.read heap₂ q := by
    intro s
    rw [Heap.write, Heap.read, Heap.read, List.getD_eq_getElem?_getD, List.getElem?_set_ne hq.symm,
      List.getD_eq_getElem?_getD]
  rw [hread, hheap₂, Heap.read_write (by simpa using hb), Heap.read_write ha]
  by_cases hqa : q = a
  · rw [if_pos hqa, if_neg (hqa ▸ hab), if_pos hqa]
  · rw [if_neg hqa, if_neg hqa]

end Fade

end EasyVoiceCall
