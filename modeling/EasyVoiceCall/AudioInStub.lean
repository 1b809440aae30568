/-
# The microphone that is a file

`audio_engine/AudioInStub.hpp`, and `loadPcmFile` of `include/FileUtils.hpp`. A file is read
into a vector with room for half as many samples as it has bytes, rounded down: of an odd
number of bytes the last is stored behind the end. Each call of `get` returns a pointer to the
next block of the vector, or to the first.

`get` starts again where the block ends at the end of the vector or behind it. So a vector
that is a whole number of blocks never plays its last one, unless it has no other
(`pointer_eq`), and a vector shorter than a block is read past its end.

A pointer into the vector is the number of samples before it.

Key definitions: `AudioInStub.get`, `AudioInStub.pointer`, `readPcm`.
Key theorems: `AudioInStub.pointer_eq`, `plays_all_iff`, `replay_in_bounds_iff`.
-/
import EasyVoiceCall.Fade
import EasyVoiceCall.Lib.Bytes
import Mathlib.Data.Nat.ModEq
import Mathlib.Logic.Function.Iterate

namespace EasyVoiceCall

open Buffer

/-! ### Reading a file -/

/-- A file, opened at its end: what `tellg` says, which is −1 where it cannot be opened, and
the bytes that can be read from its start. -/
structure InputFile where
  tellg : ℤ
  bytes : Bytes

namespace InputFile

/-- A file of these bytes. -/
def holding (bytes : Bytes) : InputFile := ⟨bytes.length, bytes⟩

/-- `read` of `n` bytes to the front of `buffer`: the buffer, what is stored behind its end,
and whether there were `n` bytes. -/
def read (ifs : InputFile) (buffer : Bytes) (n : ℕ) : Bytes × Bytes × Bool :=
  let got := ifs.bytes.take n
  (memcpy buffer 0 (got.take buffer.length), got.drop buffer.length, got.length = n)

end InputFile

/-- A vector of samples as the bytes it is in memory. -/
def samplesOf (bytes : Bytes) : List Int16 :=
  (List.range (bytes.length / 2)).map fun i => Int16.ofNat (ofLE (slice bytes (2 * i) 2))

/-- The body of `loadFile` and of `loadPcmFile`: the samples, if the file could be read, and
the bytes stored behind the end of the vector. -/
def readPcm (ifs : InputFile) : Option (List Int16) × Bytes :=
  if ifs.tellg ≤ 0 then (none, [])
  else
    let fileSize := ifs.tellg.toNat
    let wholePcm_ := List.replicate (fileSize / 2 * 2) 0
    let (wholePcm_, beyond, ok) := ifs.read wholePcm_ fileSize
    (if ok then some (samplesOf wholePcm_) else none, beyond)

/-- `loadPcmFile`, and what it stores behind the end. -/
def loadPcmFile (files : String → InputFile) (filePath : String) : List Int16 × Bytes :=
  let (wholePcm_, beyond) := readPcm (files filePath)
  (wholePcm_.getD [], beyond)

@[simp] theorem length_samplesOf (bytes : Bytes) : (samplesOf bytes).length = bytes.length / 2 := by
  rw [samplesOf, List.length_map, List.length_range]

/-- **What is read of a file with a byte in it**: its whole samples; what is left of it is
stored behind the end. -/
theorem readPcm_holding {bytes : Bytes} (h : bytes ≠ []) :
    readPcm (.holding bytes) =
      (some (samplesOf (bytes.take (bytes.length / 2 * 2))), bytes.drop (bytes.length / 2 * 2)) := by
  have hpos : 0 < bytes.length := List.length_pos_iff.mpr h
  have hread : InputFile.read (.holding bytes) (List.replicate (bytes.length / 2 * 2) 0) bytes.length =
      (bytes.take (bytes.length / 2 * 2), bytes.drop (bytes.length / 2 * 2), true) := by
    simp only [InputFile.read, InputFile.holding, List.take_length, List.length_replicate, decide_true]
    rw [memcpy_zero_of_length]
    rw [List.length_replicate, List.length_take]
    omega
  have htellg : ¬ (InputFile.holding bytes).tellg ≤ 0 := not_le.mpr (Int.natCast_pos.mpr hpos)
  have hfileSize : (InputFile.holding bytes).tellg.toNat = bytes.length := Int.toNat_natCast _
  rw [readPcm, if_neg htellg]
  simp only [hfileSize, hread]
  rfl

/-- Nothing is stored behind the end if the number of bytes is even. -/
theorem drop_eq_nil_iff (bytes : Bytes) : bytes.drop (bytes.length / 2 * 2) = [] ↔ 2 ∣ bytes.length := by
  rw [List.drop_eq_nil_iff]
  omega

/-! ### The source -/

structure AudioInStub where
  wholePcm_ : List Int16
  size_ : ℕ
  pos_ : ℕ
  size_eq : size_ = wholePcm_.length

namespace AudioInStub

/-- The constructor. -/
def make (wholePcm : List Int16) : AudioInStub := ⟨wholePcm, wholePcm.length, 0, rfl⟩

/-- `get`: the pointer it returns. -/
def get (self : AudioInStub) : AudioInStub × ℕ :=
  let self := if self.pos_ + blockSize ≥ self.size_ then { self with pos_ := 0 } else self
  let ret := self.pos_
  ({ self with pos_ := self.pos_ + blockSize }, ret)

theorem get_pointer (self : AudioInStub) :
    self.get.2 = if self.pos_ + blockSize ≥ self.size_ then 0 else self.pos_ := by
  unfold get
  dsimp only
  split <;> rfl

theorem get_pos (self : AudioInStub) : self.get.1.pos_ = self.get.2 + blockSize := rfl

theorem get_size (self : AudioInStub) : self.get.1.size_ = self.size_ := by
  unfold get
  dsimp only
  split <;> rfl

/-- `loadFile`, and what it stores behind the end. -/
def loadFile (files : String → InputFile) (filePathOrTag : String) : Option AudioInStub × Bytes :=
  let (wholePcm_, beyond) := readPcm (files filePathOrTag)
  (wholePcm_.map make, beyond)

/-- `create`; `sineWave` are the samples of `SineWave(sampleRate, 440, .8, 10)`. -/
def create (files : String → InputFile) (sineWave : List Int16) (filePathOrTag : String) : Option AudioInStub :=
  match (loadFile files filePathOrTag).1 with
  | some ret => some ret
  | none => if filePathOrTag = "sine" then some (make sineWave) else none

/-- The source after `n` calls of `get`. -/
def after (self : AudioInStub) (n : ℕ) : AudioInStub := (fun s => s.get.1)^[n] self

/-- What the `n`-th call returns, the first being the one with number zero. -/
def pointer (self : AudioInStub) (n : ℕ) : ℕ := (self.after n).get.2

theorem after_succ (self : AudioInStub) (n : ℕ) : self.after (n + 1) = (self.after n).get.1 :=
  Function.iterate_succ_apply' _ n self

/-! ### What is played -/

/-- The blocks that are played, of a vector of `total` samples. -/
def period (total : ℕ) : ℕ := max 1 ((total - 1) / blockSize)

/-- After `n` calls: at the end of the blocks that are played, or at the next one. -/
structure At (total n : ℕ) (s : AudioInStub) : Prop where
  size : s.size_ = total
  pos : s.pos_ = blockSize * (n % period total) ∨ s.pos_ = blockSize * period total ∧ n % period total = 0

/-- **One call** returns the block whose turn it is. -/
theorem At.get {total n : ℕ} {s : AudioInStub} (h : At total n s) :
    s.get.2 = blockSize * (n % period total) ∧ At total (n + 1) s.get.1 := by
  have hblock : blockSize = 160 := rfl
  have hperiod : period total = max 1 ((total - 1) / 160) := rfl
  have hlt : n % period total < period total := Nat.mod_lt _ (by omega)
  have hret : s.get.2 = blockSize * (n % period total) := by
    rw [get_pointer, h.size, hblock]
    rcases h.pos with hpos | ⟨hpos, hzero⟩
    · rw [hblock] at hpos
      split <;> omega
    · rw [hblock] at hpos
      rw [if_pos (by omega), hzero]
  have hnext : s.get.1.pos_ = blockSize * (n % period total + 1) := by
    rw [get_pos, hret, Nat.mul_succ]
  refine ⟨hret, ?_, ?_⟩
  · rw [get_size]
    exact h.size
  · rcases Nat.lt_or_ge (n % period total + 1) (period total) with hnot | hlast
    · left
      rw [hnext, Nat.add_mod, Nat.mod_eq_of_lt (a := 1) (by omega), Nat.mod_eq_of_lt hnot]
    · right
      have hend : n % period total + 1 = period total := by omega
      refine ⟨hnext.trans (by rw [hend]), ?_⟩
      rw [← Nat.mod_add_mod, hend, Nat.mod_self]

theorem at_after (pcm : List Int16) (n : ℕ) : At pcm.length n ((make pcm).after n) := by
  induction n with
  | zero => exact ⟨rfl, Or.inl (by rw [Nat.zero_mod]; rfl)⟩
  | succ n ih =>
    rw [after_succ]
    exact ih.get.2

/-- **What the calls return**: the blocks that end before the end of the vector, in turn, or
the first. -/
theorem pointer_eq (pcm : List Int16) (n : ℕ) : (make pcm).pointer n = blockSize * (n % period pcm.length) :=
  (at_after pcm n).get.1

/-- Counting around `m − 1` and counting around `m` agree at the start of each common round. -/
theorem mod_pred_eq_iff {m : ℕ} (n : ℕ) (hm : 2 ≤ m) : n % (m - 1) = n % m ↔ n % (m * (m - 1)) < m - 1 := by
  constructor
  · intro heq
    have hlt : n % (m - 1) < m - 1 := Nat.mod_lt _ (by omega)
    have hfst : n ≡ n % (m - 1) [MOD m] := by
      rw [heq]
      exact (Nat.mod_modEq n m).symm
    have hsnd : n ≡ n % (m - 1) [MOD m - 1] := (Nat.mod_modEq n (m - 1)).symm
    have hcoprime : m.Coprime (m - 1) := (Nat.coprime_self_sub_right (by omega)).mpr (Nat.coprime_one_right m)
    calc n % (m * (m - 1))
        = n % (m - 1) % (m * (m - 1)) := (Nat.modEq_and_modEq_iff_modEq_mul hcoprime).mp ⟨hfst, hsnd⟩
      _ ≤ n % (m - 1) := Nat.mod_le _ _
      _ < m - 1 := hlt
  · intro hlt
    calc n % (m - 1)
        = n % (m * (m - 1)) % (m - 1) := (Nat.mod_mul_left_mod n m (m - 1)).symm
      _ = n % (m * (m - 1)) := Nat.mod_eq_of_lt hlt
      _ = n % (m * (m - 1)) % m := (Nat.mod_eq_of_lt (by omega)).symm
      _ = n % m := Nat.mod_mul_right_mod n m (m - 1)

/-- The number of whole blocks, or one less. -/
theorem period_eq {total : ℕ} (h : blockSize ≤ total) :
    period total = if blockSize ∣ total ∧ total ≠ blockSize then total / blockSize - 1 else total / blockSize := by
  have hblock : blockSize = 160 := rfl
  rw [period, hblock]
  rw [hblock] at h
  split <;> omega

/-- No block ends behind a vector that has one. -/
theorem pointer_inside {pcm : List Int16} (h : blockSize ≤ pcm.length) (n : ℕ) :
    (make pcm).pointer n + blockSize ≤ pcm.length := by
  have hlt : n % period pcm.length < period pcm.length := Nat.mod_lt _ (Nat.le_max_left 1 _)
  have hblocks : period pcm.length ≤ pcm.length / blockSize := by
    rw [period_eq h]
    split
    · exact Nat.sub_le _ _
    · exact Nat.le_refl _
  calc (make pcm).pointer n + blockSize
      = blockSize * (n % period pcm.length + 1) := by rw [pointer_eq, Nat.mul_succ]
    _ ≤ blockSize * (pcm.length / blockSize) := Nat.mul_le_mul_left _ (hlt.trans_le hblocks)
    _ ≤ pcm.length := Nat.mul_div_le _ _

theorem two_le_blocks {total : ℕ} (hdvd : blockSize ∣ total) (h : blockSize ≤ total) (hone : total ≠ blockSize) :
    2 ≤ total / blockSize := by
  have hblock : blockSize = 160 := rfl
  rw [hblock] at hdvd h hone ⊢
  omega

/-- When the `n`-th call returns the block with the number `n mod ⌊total / 160⌋`. -/
def InTurn (total n : ℕ) : Prop :=
  blockSize ∣ total →
    total = blockSize ∨ n % (total / blockSize * (total / blockSize - 1)) < total / blockSize - 1

theorem pointer_eq_iff {pcm : List Int16} (h : blockSize ≤ pcm.length) (n : ℕ) :
    (make pcm).pointer n = blockSize * (n % (pcm.length / blockSize)) ↔ InTurn pcm.length n := by
  rw [pointer_eq, Nat.mul_right_inj (by decide), period_eq h, InTurn]
  by_cases hdvd : blockSize ∣ pcm.length
  · by_cases hone : pcm.length = blockSize
    · rw [if_neg (fun hand => hand.2 hone)]
      exact iff_of_true rfl fun _ => Or.inl hone
    · rw [if_pos ⟨hdvd, hone⟩, mod_pred_eq_iff n (two_le_blocks hdvd h hone)]
      exact ⟨fun hlt _ => Or.inr hlt, fun hturn => (hturn hdvd).resolve_left hone⟩
  · rw [if_neg (fun hand => hdvd hand.1)]
    exact iff_of_true rfl fun hdvd' => absurd hdvd' hdvd

/-- The source plays everything: the calls return the blocks in turn, each once in a loop, and
no block ends behind the vector. -/
structure PlaysAll (pcm : List Int16) : Prop where
  nth : ∀ n, (make pcm).pointer n = blockSize * (n % (pcm.length / blockSize))
  once : ∀ loop, ∀ k < pcm.length / blockSize,
    ∃! n, n / (pcm.length / blockSize) = loop ∧ (make pcm).pointer n = blockSize * k
  inside : ∀ n, (make pcm).pointer n + blockSize ≤ pcm.length

/-- If the calls return the blocks in turn, they play everything. -/
theorem PlaysAll.of_nth {pcm : List Int16} (h : blockSize ≤ pcm.length)
    (hnth : ∀ n, (make pcm).pointer n = blockSize * (n % (pcm.length / blockSize))) : PlaysAll pcm := by
  have hpos : 0 < pcm.length / blockSize := Nat.div_pos h (by decide)
  refine ⟨hnth, fun loop k hk => ?_, pointer_inside h⟩
  refine ⟨pcm.length / blockSize * loop + k, ⟨?_, ?_⟩, fun n hn => ?_⟩
  · rw [Nat.mul_add_div hpos, Nat.div_eq_of_lt hk, Nat.add_zero]
  · rw [hnth, Nat.mul_add_mod, Nat.mod_eq_of_lt hk]
  · have hmod : n % (pcm.length / blockSize) = k := by
      have hptr := hn.2
      rw [hnth] at hptr
      exact Nat.eq_of_mul_eq_mul_left (by decide) hptr
    rw [← hn.1, ← hmod, Nat.div_add_mod]

end AudioInStub

open AudioInStub

/-- **When the looping source plays everything.** For a vector of at least one block, the
`n`-th call returns the block with the number `n mod ⌊L / 160⌋` if and only if `InTurn`; and
the source plays everything if and only if `L` is no multiple of 160, or is 160. -/
theorem plays_all_iff {pcm : List Int16} (h : blockSize ≤ pcm.length) :
    (∀ n, (make pcm).pointer n = blockSize * (n % (pcm.length / blockSize)) ↔ InTurn pcm.length n) ∧
      (PlaysAll pcm ↔ (blockSize ∣ pcm.length → pcm.length = blockSize)) := by
  refine ⟨pointer_eq_iff h, fun hall hdvd => ?_, fun hone => ?_⟩
  · -- the call after the last one of the loop is the first that is wrong
    have hturn := (pointer_eq_iff h (pcm.length / blockSize - 1)).mp (hall.nth _) hdvd
    by_contra hne
    have htwo := two_le_blocks hdvd h hne
    have hlt : pcm.length / blockSize - 1 < pcm.length / blockSize * (pcm.length / blockSize - 1) := by
      calc pcm.length / blockSize - 1
          < 2 * (pcm.length / blockSize - 1) := by omega
        _ ≤ pcm.length / blockSize * (pcm.length / blockSize - 1) := Nat.mul_le_mul_right _ htwo
    rw [Nat.mod_eq_of_lt hlt] at hturn
    omega
  · exact PlaysAll.of_nth h fun n => (pointer_eq_iff h n).mpr fun hdvd => Or.inl (hone hdvd)

/-- Two blocks and a half are played as two blocks. -/
theorem plays_all_iff_400 : PlaysAll (List.replicate 400 0) := by
  have hlen : (List.replicate 400 (0 : Int16)).length = 400 := List.length_replicate
  refine (plays_all_iff ?_).2.mpr ?_
  · rw [hlen]
    decide
  · rw [hlen]
    decide

/-- Of two whole blocks, the second call returns the first again. -/
theorem plays_all_fails : ¬ PlaysAll (List.replicate 320 0) := by
  intro h
  have hsnd := h.nth 1
  rw [pointer_eq, List.length_replicate] at hsnd
  exact absurd hsnd (by decide)

/-! ### Staying inside the vector -/

namespace AudioInStub

/-- Every block that is played is inside the vector, if the first is. -/
theorem pointers_inside_iff (pcm : List Int16) :
    (∀ n, (make pcm).pointer n + blockSize ≤ pcm.length) ↔ blockSize ≤ pcm.length := by
  constructor
  · intro hall
    have hfst := hall 0
    rwa [pointer_eq, Nat.zero_mod, Nat.mul_zero, Nat.zero_add] at hfst
  · intro h n
    exact pointer_inside h n

/-- Loading the file stores nothing behind the vector, in `loadFile` and in `loadPcmFile`, and
each pointer the source returns has a block after it. -/
structure InBounds (files : String → InputFile) (filePath : String) (s : AudioInStub) : Prop where
  stored : (loadFile files filePath).2 = []
  storedPcm : (loadPcmFile files filePath).2 = []
  pointers : ∀ n, s.pointer n + blockSize ≤ s.wholePcm_.length

end AudioInStub

/-- **When a file is loaded and replayed in bounds.** A file with a byte in it is accepted, and
loading and replaying it stays in bounds if and only if it is a whole number of samples and
holds a block. -/
theorem replay_in_bounds_iff {files : String → InputFile} {filePath : String} {bytes : Bytes}
    (sineWave : List Int16) (h : bytes ≠ []) (hfile : files filePath = .holding bytes) :
    ∃ s, create files sineWave filePath = some s ∧
      (InBounds files filePath s ↔ 2 ∣ bytes.length ∧ 2 * blockSize ≤ bytes.length) := by
  have hread := readPcm_holding h
  set pcm := samplesOf (bytes.take (bytes.length / 2 * 2)) with hpcm
  have hlen : pcm.length = bytes.length / 2 := by
    rw [hpcm, length_samplesOf, List.length_take]
    omega
  have hload : loadFile files filePath = (some (make pcm), bytes.drop (bytes.length / 2 * 2)) := by
    rw [loadFile, hfile, hread]
    rfl
  have hloadPcm : (loadPcmFile files filePath).2 = bytes.drop (bytes.length / 2 * 2) := by
    rw [loadPcmFile, hfile, hread]
  refine ⟨make pcm, by rw [create, hload], fun hbounds => ?_, fun ⟨heven, hblock⟩ => ?_⟩
  · have heven := hbounds.stored
    have hfst := (pointers_inside_iff pcm).mp hbounds.pointers
    rw [hload, drop_eq_nil_iff] at heven
    exact ⟨heven, by omega⟩
  · have hdrop := (drop_eq_nil_iff bytes).mpr heven
    refine ⟨?_, ?_, (pointers_inside_iff pcm).mpr (by omega)⟩
    · rw [hload, hdrop]
    · rw [hloadPcm, hdrop]

/-- A file of two blocks. -/
theorem replay_in_bounds_iff_640 : ∃ s, create (fun _ => .holding (List.replicate 640 0)) [] "" = some s ∧
    InBounds (fun _ => .holding (List.replicate 640 0)) "" s := by
  have hlen : (List.replicate 640 (0 : UInt8)).length = 640 := List.length_replicate
  obtain ⟨s, hcreate, hiff⟩ := @replay_in_bounds_iff (fun _ => .holding (List.replicate 640 0)) ""
    (List.replicate 640 0) [] (List.cons_ne_nil _ _) rfl
  refine ⟨s, hcreate, hiff.mpr ?_⟩
  rw [hlen]
  decide

/-- The one byte of a file of one byte is stored where no vector is. -/
theorem replay_in_bounds_fails : ¬ ∀ s, create (fun _ => .holding [0]) [] "" = some s →
    InBounds (fun _ => .holding [0]) "" s := by
  intro h
  exact absurd (h _ rfl).stored (by decide)

end EasyVoiceCall
