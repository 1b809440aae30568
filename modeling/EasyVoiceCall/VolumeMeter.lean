/-
# The volume meter

`audio_engine/AudioVolumeMeter_Peak.hpp`, and `MainWindow::onVolumeChanged`, which
draws what it says. The level of a segment is the largest magnitude of its
samples on a scale of ten. The meter holds the highest level: it goes down only
when a second has passed since the clock was last noted, and the clock is noted at
the construction, when the held level rises and when it expires. A call reads the
clock once, and again where it notes it.

What a meter says is a function of the calls so far (`Hold`): the level held is
the maximum over the calls since the latest expiry.

Key definitions: `AudioVolumeMeter_Peak.calculate`, `Hold`.
Key theorems: `peak_meter`, `Hold.represents`.
-/
import EasyVoiceCall.Fade
import EasyVoiceCall.Lib.Machine
import Mathlib.Data.Fintype.Basic
import Mathlib.Data.Finset.Lattice.Fold
import Mathlib.Order.Lattice.Nat

namespace EasyVoiceCall

/-- `enum class AudioInOut`. -/
inductive AudioInOut
  | In
  | Out
  deriving DecidableEq

/-- `(uint8_t)` of it. -/
def AudioInOut.value : AudioInOut → ℕ
  | .In => 0
  | .Out => 1

structure AudioIoVolume where
  io_ : AudioInOut
  level_ : UInt8
  recentMaxLevel_ : UInt8
  deriving DecidableEq

def AudioIoVolume.MAX_VOLUME_LEVEL : ℕ := 10

open AudioIoVolume (MAX_VOLUME_LEVEL)

/-! ### The meter -/

structure AudioVolumeMeter_Peak where
  inOut_ : AudioInOut
  recentMaxLevel : UInt8
  lastTimeStamp : ℤ

/-- A call of `calculate`: the segment, and what the clock says where it is read: at first,
where the level expires, where it rises. -/
structure MeterCall where
  buffer : PcmSegment
  now : ℤ
  onExpiry : ℤ
  onRise : ℤ

namespace AudioVolumeMeter_Peak

/-- The clock's ticks in a second. -/
def seconds : ℤ := 1000000000

/-- The constructor; `now` is what the clock says. -/
def create (inOut : AudioInOut) (now : ℤ) : AudioVolumeMeter_Peak := ⟨inOut, 0, now⟩

/-- The loop over the samples: `currentL`. -/
def currentL (buffer : PcmSegment) : ℕ :=
  (List.finRange blockSize).foldl
    (fun currentL pos =>
      let absB := (buffer pos).toInt.natAbs
      if absB > currentL then absB else currentL) 0

/-- `currentLevel`, cut to eight bits and then to the scale. -/
def currentLevel (buffer : PcmSegment) : UInt8 :=
  let currentLevel := UInt8.ofNat ((currentL buffer * MAX_VOLUME_LEVEL) >>> 15)
  if currentLevel.toNat > MAX_VOLUME_LEVEL - 1 then UInt8.ofNat (MAX_VOLUME_LEVEL - 1) else currentLevel

/-- `calculate`. -/
def calculate (self : AudioVolumeMeter_Peak) (call : MeterCall) : AudioVolumeMeter_Peak × AudioIoVolume :=
  let currentLevel := currentLevel call.buffer
  let elapsed := call.now - self.lastTimeStamp
  let self := if elapsed > seconds then { self with recentMaxLevel := 0, lastTimeStamp := call.onExpiry } else self
  let self := if currentLevel > self.recentMaxLevel then
    { self with recentMaxLevel := currentLevel, lastTimeStamp := call.onRise } else self
  (self, ⟨self.inOut_, currentLevel, self.recentMaxLevel⟩)

/-- The meter after the calls. -/
abbrev after (inOut : AudioInOut) (start : ℤ) (calls : List MeterCall) : AudioVolumeMeter_Peak :=
  Mealy.state calculate (create inOut start) calls

end AudioVolumeMeter_Peak

/-- The pictures of a bar of the display. -/
inductive Bar
  | empty
  | half_full
  | full
  deriving DecidableEq

/-- `onVolumeChanged`: the labels that are given a picture, in order, by the row and the
place in `label_img_`, with the picture. -/
def MainWindow.onVolumeChanged (aivl : AudioIoVolume) : List ((ℕ × ℕ) × Bar) :=
  (List.range MAX_VOLUME_LEVEL).map (fun i =>
    ((aivl.io_.value, i), if i < aivl.level_.toNat then Bar.half_full else Bar.empty)) ++
  if aivl.recentMaxLevel_ > aivl.level_ then [((aivl.io_.value, aivl.recentMaxLevel_.toNat), Bar.full)] else []

/-! ### The level of a segment -/

/-- The largest magnitude. -/
def peak (buffer : PcmSegment) : ℕ := Finset.univ.sup fun pos => (buffer pos).toInt.natAbs

/-- The level on the scale. -/
def levelOf (buffer : PcmSegment) : ℕ := min 9 (10 * peak buffer / 32768)

namespace AudioVolumeMeter_Peak

theorem foldl_le_iff {α : Type*} (f : α → ℕ) (n : ℕ) : ∀ (l : List α) (c : ℕ),
    l.foldl (fun m a => if f a > m then f a else m) c ≤ n ↔ c ≤ n ∧ ∀ a ∈ l, f a ≤ n
  | [], c => by simp
  | a :: l, c => by
    rw [List.foldl_cons, foldl_le_iff f n l, List.forall_mem_cons, ← and_assoc]
    apply and_congr_left
    intro _
    split <;> omega

theorem currentL_eq (buffer : PcmSegment) : currentL buffer = peak buffer := by
  apply eq_of_forall_ge_iff
  intro n
  rw [currentL, foldl_le_iff, peak, Finset.sup_le_iff]
  simp

theorem peak_le (buffer : PcmSegment) : peak buffer ≤ 32768 := by
  apply Finset.sup_le
  intro pos _
  have hlo := (buffer pos).le_toInt
  have hhi := (buffer pos).toInt_lt
  omega

/-- The shift is a division, and nothing is cut off. -/
theorem toNat_currentLevel (buffer : PcmSegment) : (currentLevel buffer).toNat = levelOf buffer := by
  have hpeak := peak_le buffer
  have hshift : (currentL buffer * MAX_VOLUME_LEVEL) >>> 15 = 10 * peak buffer / 32768 := by
    rw [Nat.shiftRight_eq_div_pow, currentL_eq, MAX_VOLUME_LEVEL, Nat.mul_comm]
  have hsmall : (UInt8.ofNat (10 * peak buffer / 32768)).toNat = 10 * peak buffer / 32768 := by
    rw [UInt8.toNat_ofNat']
    omega
  unfold currentLevel levelOf
  rw [hshift]
  dsimp only
  rw [hsmall, MAX_VOLUME_LEVEL]
  split
  · rw [UInt8.toNat_ofNat']
    omega
  · rw [hsmall]
    omega

end AudioVolumeMeter_Peak

/-! ### The level held -/

open AudioVolumeMeter_Peak (seconds)

/-- What the calls so far come to: the reading noted last, and the calls since the latest
expiry, with the call that expired. -/
structure Hold where
  recorded : ℤ
  since : List MeterCall

namespace Hold

/-- The highest level of the calls. -/
def highest (calls : List MeterCall) : ℕ := (calls.map fun j => levelOf j.buffer).foldr max 0

/-- More than a second since the reading noted last. -/
def Expires (h : Hold) (j : MeterCall) : Prop := j.now - h.recorded > seconds

instance (h : Hold) (j : MeterCall) : Decidable (h.Expires j) := by
  unfold Expires
  infer_instance

/-- A call: an expiry forgets those before it, and a level above all that are left is a
rise. -/
def call (h : Hold) (j : MeterCall) : Hold :=
  let since := if h.Expires j then [] else h.since
  { recorded :=
      if highest since < levelOf j.buffer then j.onRise
      else if h.Expires j then j.onExpiry else h.recorded
    since := since ++ [j] }

/-- The calls from the construction on, where the clock said `start`. -/
def ofCalls (start : ℤ) (calls : List MeterCall) : Hold := calls.foldl call ⟨start, []⟩

theorem ofCalls_concat (start : ℤ) (calls : List MeterCall) (j : MeterCall) :
    ofCalls start (calls ++ [j]) = (ofCalls start calls).call j := by
  rw [ofCalls, List.foldl_append]
  rfl

theorem highest_le_iff {calls : List MeterCall} {n : ℕ} :
    highest calls ≤ n ↔ ∀ j ∈ calls, levelOf j.buffer ≤ n := by
  induction calls with
  | nil => simp [highest]
  | cons j calls ih =>
    rw [List.forall_mem_cons, ← ih]
    exact max_le_iff

theorem highest_concat (calls : List MeterCall) (j : MeterCall) :
    highest (calls ++ [j]) = max (highest calls) (levelOf j.buffer) := by
  apply eq_of_forall_ge_iff
  intro n
  rw [highest_le_iff, List.forall_mem_append, List.forall_mem_singleton, max_le_iff, highest_le_iff]

theorem highest_mem {calls : List MeterCall} (h : calls ≠ []) :
    ∃ j ∈ calls, highest calls = levelOf j.buffer := by
  induction calls using List.reverseRecOn with
  | nil => exact absurd rfl h
  | append_singleton calls j ih =>
    rw [highest_concat]
    rcases le_total (highest calls) (levelOf j.buffer) with hle | hle
    · exact ⟨j, by simp, max_eq_right hle⟩
    · rw [max_eq_left hle]
      by_cases hcalls : calls = []
      · subst hcalls
        refine ⟨j, by simp, le_antisymm (Nat.zero_le _) hle⟩
      · obtain ⟨k, hk, heq⟩ := ih hcalls
        exact ⟨k, List.mem_append_left _ hk, heq⟩

/-- **The meter is its history.** -/
structure Represents (meter : AudioVolumeMeter_Peak) (inOut : AudioInOut) (h : Hold) : Prop where
  inOut_ : meter.inOut_ = inOut
  recentMaxLevel : meter.recentMaxLevel.toNat = highest h.since
  lastTimeStamp : meter.lastTimeStamp = h.recorded

/-- The part of `calculate` after the test of the clock. -/
theorem Represents.rise {meter : AudioVolumeMeter_Peak} {inOut : AudioInOut} {recorded : ℤ} {since : List MeterCall}
    (h : Represents meter inOut ⟨recorded, since⟩) (j : MeterCall) :
    Represents
      (if AudioVolumeMeter_Peak.currentLevel j.buffer > meter.recentMaxLevel then
        { meter with recentMaxLevel := AudioVolumeMeter_Peak.currentLevel j.buffer, lastTimeStamp := j.onRise }
      else meter) inOut
      ⟨if highest since < levelOf j.buffer then j.onRise else recorded, since ++ [j]⟩ := by
  have hlevel := AudioVolumeMeter_Peak.toNat_currentLevel j.buffer
  have hmax : meter.recentMaxLevel.toNat = highest since := h.recentMaxLevel
  have hrises : AudioVolumeMeter_Peak.currentLevel j.buffer > meter.recentMaxLevel ↔
      highest since < levelOf j.buffer := by
    rw [gt_iff_lt, UInt8.lt_iff_toNat_lt, hlevel, hmax]
  by_cases hr : highest since < levelOf j.buffer
  · rw [if_pos (hrises.mpr hr), if_pos hr]
    refine ⟨h.inOut_, ?_, rfl⟩
    rw [highest_concat, max_eq_right hr.le]
    exact hlevel
  · rw [if_neg (mt hrises.mp hr), if_neg hr]
    refine ⟨h.inOut_, ?_, h.lastTimeStamp⟩
    rw [highest_concat, max_eq_left (not_lt.mp hr)]
    exact hmax

theorem Represents.calculate {meter : AudioVolumeMeter_Peak} {inOut : AudioInOut} {h : Hold}
    (hr : Represents meter inOut h) (j : MeterCall) : Represents (meter.calculate j).1 inOut (h.call j) := by
  have hexpires : j.now - meter.lastTimeStamp > seconds ↔ h.Expires j := by rw [hr.lastTimeStamp, Expires]
  unfold AudioVolumeMeter_Peak.calculate call
  dsimp only
  by_cases he : h.Expires j
  · rw [if_pos (hexpires.mpr he), if_pos he, if_pos he]
    have hexpired : Represents { meter with recentMaxLevel := 0, lastTimeStamp := j.onExpiry } inOut
      ⟨j.onExpiry, []⟩ := ⟨hr.inOut_, rfl, rfl⟩
    exact hexpired.rise j
  · rw [if_neg (mt hexpires.mp he), if_neg he, if_neg he]
    exact hr.rise j

theorem represents (inOut : AudioInOut) (start : ℤ) (calls : List MeterCall) :
    Represents (AudioVolumeMeter_Peak.after inOut start calls) inOut (ofCalls start calls) := by
  refine Mealy.history_rule AudioVolumeMeter_Peak.calculate
    (fun calls meter => Represents meter inOut (ofCalls start calls)) ⟨rfl, rfl, rfl⟩ ?_ calls
  intro calls meter j h
  rw [ofCalls_concat]
  exact h.calculate j

/-! ### Which calls are held -/

/-- Of the calls `pre ++ post`, those of `post` are the ones since the latest expiry, or
all, if there was none. -/
structure SinceExpiry (start : ℤ) (pre post : List MeterCall) : Prop where
  first : pre = [] ∨ ∃ j rest, post = j :: rest ∧ (ofCalls start pre).Expires j
  later : ∀ a j b, post = a ++ j :: b → a ≠ [] → ¬ (ofCalls start (pre ++ a)).Expires j

theorem sinceExpiry_ofCalls (start : ℤ) (calls : List MeterCall) :
    ∃ pre, calls = pre ++ (ofCalls start calls).since ∧ SinceExpiry start pre (ofCalls start calls).since := by
  induction calls using List.reverseRecOn with
  | nil => exact ⟨[], rfl, Or.inl rfl, fun a j b h => by simp [ofCalls] at h⟩
  | append_singleton calls j ih =>
    obtain ⟨pre, hcalls, hfirst, hlater⟩ := ih
    set h := ofCalls start calls with hh
    rw [ofCalls_concat, ← hh]
    by_cases he : h.Expires j
    · have hsince : (h.call j).since = [j] := by rw [call, if_pos he, List.nil_append]
      rw [hsince]
      refine ⟨calls, rfl, Or.inr ⟨j, [], rfl, he⟩, fun a k b heq ha => ?_⟩
      have hlen := congrArg List.length heq
      have hpos := List.length_pos_iff.mpr ha
      rw [List.length_append, List.length_cons, List.length_cons, List.length_nil] at hlen
      omega
    · have hsince : (h.call j).since = h.since ++ [j] := by rw [call, if_neg he]
      rw [hsince]
      refine ⟨pre, by rw [← List.append_assoc, ← hcalls], ?_, fun a k b heq ha => ?_⟩
      · rcases hfirst with hpre | ⟨k, rest, hk, hek⟩
        · exact Or.inl hpre
        · exact Or.inr ⟨k, rest ++ [j], by rw [hk, List.cons_append], hek⟩
      · rcases List.eq_nil_or_concat b with rfl | ⟨b, l, rfl⟩
        · obtain ⟨rfl, hjk⟩ := List.append_inj' heq rfl
          cases hjk
          rw [← hcalls, ← hh]
          exact he
        · rw [List.concat_eq_append, ← List.cons_append, ← List.append_assoc] at heq
          exact hlater a k b (List.append_inj' heq rfl).1 ha

end Hold

/-- **The law of the meter.** After any calls, whatever the samples and the clock, a call's
level is that of its segment, the level held is at least that and on the scale, and it is
the highest of the calls since the latest expiry. The labels that are drawn are there. -/
theorem peak_meter (inOut : AudioInOut) (start : ℤ) (calls : List MeterCall) (j : MeterCall) :
    let r := ((AudioVolumeMeter_Peak.after inOut start calls).calculate j).2
    r.level_.toNat = min 9 (10 * peak j.buffer / 32768) ∧ r.level_ ≤ r.recentMaxLevel_ ∧ r.recentMaxLevel_ ≤ 9 ∧
    (∃ pre post, calls ++ [j] = pre ++ post ∧ Hold.SinceExpiry start pre post ∧
      IsGreatest {l | ∃ k ∈ post, l = levelOf k.buffer} r.recentMaxLevel_.toNat) ∧
    ∀ a ∈ MainWindow.onVolumeChanged r, a.1.1 < 2 ∧ a.1.2 < MAX_VOLUME_LEVEL := by
  intro r
  obtain ⟨-, hmax, -⟩ := (Hold.represents inOut start calls).calculate j
  rw [← Hold.ofCalls_concat] at hmax
  obtain ⟨pre, hcalls, hsince⟩ := Hold.sinceExpiry_ofCalls start (calls ++ [j])
  set since := (Hold.ofCalls start (calls ++ [j])).since with hpost
  have hmax' : r.recentMaxLevel_.toNat = Hold.highest since := hmax
  have hlevel : r.level_.toNat = levelOf j.buffer := AudioVolumeMeter_Peak.toNat_currentLevel j.buffer
  have hmem : j ∈ since := by
    rw [hpost, Hold.ofCalls_concat]
    exact List.mem_append_right _ (List.mem_singleton_self j)
  have hle := Hold.highest_le_iff.mp (le_refl (Hold.highest since))
  have hscale : Hold.highest since ≤ 9 := Hold.highest_le_iff.mpr fun k _ => min_le_left _ _
  refine ⟨hlevel, ?_, ?_, ⟨pre, since, hcalls, hsince, ?_⟩, ?_⟩
  · rw [UInt8.le_iff_toNat_le, hlevel, hmax']
    exact hle j hmem
  · rw [UInt8.le_iff_toNat_le, hmax']
    exact hscale
  · rw [hmax']
    refine ⟨Hold.highest_mem (List.ne_nil_of_mem hmem), ?_⟩
    rintro l ⟨k, hk, rfl⟩
    exact hle k hk
  · have hrow : r.io_.value < 2 := by cases r.io_ <;> decide
    intro a ha
    rcases List.mem_append.mp ha with ha | ha
    · obtain ⟨i, hi, rfl⟩ := List.mem_map.mp ha
      exact ⟨hrow, List.mem_range.mp hi⟩
    · split at ha
      · rw [List.mem_singleton.mp ha]
        refine ⟨hrow, ?_⟩
        show r.recentMaxLevel_.toNat < 10
        omega
      · cases ha

end EasyVoiceCall
