/-
# Speech and comfort noise

Which blocks of the microphone go out as Opus packets, and when the stream
changes to comfort noise. `vadCounter_` is to tell whether a window of one
second had any voice, and it is a `uint8_t`: it counts the voiced blocks of the
window modulo 256. A block that closes a window with 256 of them finds it zero,
and speech is sent as comfort noise. That is the only way it can happen
(`speech_kept_iff`).

A `Window` is read off the blocks alone: when it began by the clock, and how
many of its blocks had voice.

Key theorems: `Uplink.frameStep_spec`, `Uplink.tracks_exec`, `speech_kept_iff`.
-/
import EasyVoiceCall.Uplink

namespace EasyVoiceCall

open Buffer NetPacket

namespace Uplink

/-- `nsAecVolumeVadSend` on a block, and what it sent. -/
def frameStep (v : Version) (self : Uplink) (f : Frame) : Option (Uplink × List (List NetPacket)) :=
  match self.nsAecVolumeVadSend v f with
  | none => none
  | some (self, sent) => some (self, [sent])

/-- A run of unmuted blocks, and what each of them sent. -/
abbrev execFrames (v : Version) (needAec : Bool) (frames : List Frame) :
    Option (Uplink × List (List NetPacket)) :=
  Lts.exec (frameStep v) (create needAec) frames

/-- The block goes out as an `AudioMessage`. -/
def Speech (sent : List NetPacket) : Prop := ∃ p, sent = [p] ∧ p.payloadType = .AudioMessage

/-! ### Windows -/

/-- The window a block falls into: when it began, if it has, and its blocks with
voice so far. -/
structure Window where
  start : Option ℤ
  voiced : ℕ

namespace Window

/-- The block closes the window: more than a second has passed. -/
def Closes (w : Window) (f : Frame) : Prop := f.now - w.start.getD f.first > seconds

instance (w : Window) (f : Frame) : Decidable (w.Closes f) := by
  unfold Closes
  infer_instance

/-- The blocks with voice of the window, `f` among them. -/
def count (w : Window) (f : Frame) : ℕ := w.voiced + if f.haveVoice then 1 else 0

/-- The window of the next block. -/
def next (w : Window) (f : Frame) : Window :=
  if w.Closes f then ⟨some f.later, 0⟩ else ⟨some (w.start.getD f.first), w.count f⟩

/-- The window after the blocks. -/
def after (frames : List Frame) : Window := frames.foldl next ⟨none, 0⟩

theorem after_concat (frames : List Frame) (f : Frame) : after (frames ++ [f]) = (after frames).next f := by
  simp [after]

/-- A window has no more blocks with voice than there have been blocks. -/
theorem count_after_le (frames : List Frame) (f : Frame) : (after frames).count f ≤ frames.length + 1 := by
  have hle : (after frames).voiced ≤ frames.length := by
    induction frames using List.reverseRecOn with
    | nil => exact Nat.le_refl 0
    | append_singleton frames g ih =>
      rw [after_concat, next, List.length_append, List.length_singleton]
      split
      · exact Nat.zero_le _
      · show (after frames).voiced + (if g.haveVoice then 1 else 0) ≤ _
        split <;> omega
  rw [count]
  split <;> omega

end Window

/-! ### One block -/

/-- The members count the window, modulo 256, and a window with voice goes on as
speech. -/
structure Tracks (u : Uplink) (w : Window) : Prop where
  unmuted : u.mute_ = false
  stamp : u.lastTimeStamp = w.start
  counter : u.vadCounter_ = UInt8.ofNat w.voiced
  held : 0 < w.voiced → u.sendOpus_ = true

theorem tracks_create (needAec : Bool) : Tracks (create needAec) ⟨none, 0⟩ :=
  ⟨rfl, rfl, rfl, fun h => absurd h (lt_irrefl 0)⟩

theorem ofNat_eq_zero_iff (n : ℕ) : UInt8.ofNat n = 0 ↔ n % 256 = 0 := by
  rw [← UInt8.toNat_inj, UInt8.toNat_ofNat']
  exact Iff.rfl

/-- The two decisions on a block: its voice, then the window it may close. -/
theorem decide_spec {self : Uplink} {w : Window} (h : Tracks self w) (f : Frame) :
    let u := (self.onVoice f).onClock f
    Tracks u (w.next f) ∧ u.sendOpus_ =
      if w.Closes f ∧ w.count f % 256 = 0 then false else f.haveVoice || self.sendOpus_ := by
  have hcount : (self.onVoice f).vadCounter_ = UInt8.ofNat (w.count f) := by
    unfold onVoice Window.count
    split
    · show self.vadCounter_ + 1 = _
      rw [h.counter, UInt8.ofNat_add]
      rfl
    · exact h.counter
  have hsend : (self.onVoice f).sendOpus_ = (f.haveVoice || self.sendOpus_) := by
    unfold onVoice
    split
    · rename_i hv
      rw [hv]
      rfl
    · rename_i hv
      rw [Bool.not_eq_true] at hv
      rw [hv, Bool.false_or]
  have hstamp : (self.onVoice f).lastTimeStamp = w.start := by
    unfold onVoice
    split <;> exact h.stamp
  have hmute : (self.onVoice f).mute_ = false := by
    unfold onVoice
    split <;> exact h.unmuted
  have hheld : 0 < w.count f → (f.haveVoice || self.sendOpus_) = true := by
    intro hpos
    unfold Window.count at hpos
    by_cases hv : f.haveVoice = true
    · rw [hv, Bool.true_or]
    · rw [if_neg hv] at hpos
      rw [h.held hpos, Bool.or_true]
  unfold onClock Window.next
  dsimp only
  rw [hstamp]
  by_cases hc : w.Closes f
  · have hc' : f.now - w.start.getD f.first > seconds := hc
    rw [if_pos hc', if_pos hc]
    refine ⟨⟨hmute, rfl, rfl, fun hpos => absurd hpos (lt_irrefl 0)⟩, ?_⟩
    dsimp only
    rw [hcount, hsend]
    by_cases hz : w.count f % 256 = 0
    · rw [if_pos ((ofNat_eq_zero_iff _).mpr hz), if_pos ⟨hc, hz⟩]
    · rw [if_neg (mt (ofNat_eq_zero_iff _).mp hz), if_neg fun hb => hz hb.2]
  · have hc' : ¬ f.now - w.start.getD f.first > seconds := hc
    rw [if_neg hc', if_neg hc]
    refine ⟨⟨hmute, rfl, hcount, fun hpos => ?_⟩, ?_⟩
    · dsimp only
      rw [hsend]
      exact hheld hpos
    · dsimp only
      rw [hsend, if_neg fun hb => hc hb.1]

theorem Tracks.setSn {self : Uplink} {w : Window} (h : Tracks self w) (sn : UInt32) :
    Tracks { self with sn_sendingAudio_ := sn } w :=
  ⟨h.unmuted, h.stamp, h.counter, h.held⟩

/-- **One block.** It goes out as speech exactly when `sendOpus_` is left true,
and that is decided by its voice and by the window. -/
theorem frameStep_spec {v : Version} {self self' : Uplink} {w : Window} {f : Frame} {outs : List (List NetPacket)}
    (ht : Tracks self w) (h : self.frameStep v f = some (self', outs)) :
    ∃ sent, outs = [sent] ∧ Tracks self' (w.next f) ∧ (Speech sent ↔ self'.sendOpus_ = true) ∧
      self'.sendOpus_ = if w.Closes f ∧ w.count f % 256 = 0 then false else f.haveVoice || self.sendOpus_ := by
  obtain ⟨htracks, hsend⟩ := decide_spec ht f
  unfold frameStep at h
  split at h
  · cases h
  rename_i u sent hu
  cases h
  refine ⟨sent, rfl, ?_⟩
  unfold nsAecVolumeVadSend at hu
  rw [ht.unmuted] at hu
  simp only [Bool.false_eq_true, ↓reduceIte] at hu
  unfold vadSend at hu
  split at hu
  · cases hu
  dsimp only at hu htracks hsend
  set d := (self.onVoice f).onClock f with hd
  have hcn : PayloadType.AudioMessage_CN ≠ PayloadType.AudioMessage := by decide
  by_cases hs : d.sendOpus_ = true
  · rw [if_pos hs] at hu
    split at hu
    · cases hu
    obtain ⟨p, rfl, hp, -, rfl⟩ := sendNext_spec hu
    exact ⟨htracks.setSn _, iff_of_true ⟨p, rfl, hp⟩ hs, hsend⟩
  · rw [if_neg hs] at hu
    split at hu
    · obtain ⟨p, rfl, hp, -, rfl⟩ := sendNext_spec hu
      refine ⟨htracks.setSn _, iff_of_false ?_ hs, hsend⟩
      rintro ⟨q, hq, hqt⟩
      cases hq
      exact hcn (hp.symm.trans hqt)
    · obtain ⟨rfl, rfl⟩ := Prod.mk.inj (Option.some.inj hu)
      refine ⟨htracks, iff_of_false ?_ hs, hsend⟩
      rintro ⟨q, hq, -⟩
      cases hq

/-! ### A run -/

/-- **Over runs** the members track the window, and the last block says whether
`sendOpus_` is set. -/
theorem tracks_exec {v : Version} {needAec : Bool} {frames : List Frame} {self : Uplink}
    {sent : List (List NetPacket)} (h : execFrames v needAec frames = some (self, sent)) :
    Tracks self (Window.after frames) ∧
      ((∀ last, sent.getLast? = some last → Speech last) ↔ self.sendOpus_ = true) := by
  refine Lts.history_rule (frameStep v) (fun frames self sent => Tracks self (Window.after frames) ∧
    ((∀ last, sent.getLast? = some last → Speech last) ↔ self.sendOpus_ = true)) ?_ ?_ h
  · exact ⟨tracks_create needAec, iff_of_true (fun last hlast => by cases hlast) rfl⟩
  · rintro frames self sent f self' sent' ⟨ht, -⟩ hstep
    obtain ⟨s, rfl, ht', hspeech, -⟩ := frameStep_spec ht hstep
    refine ⟨by rw [Window.after_concat]; exact ht', ?_⟩
    rw [← hspeech, List.getLast?_concat]
    simp

/-! ### Blocks that go through -/

/-- The libraries take the block, and their output fits a packet. -/
structure Fits (f : Frame) : Prop where
  aec : f.aecFails = false
  opus : ∃ outData, f.opus = some outData ∧ outData.length ≤ 65535
  cng : f.cng.length ≤ 65535

theorem sendNext_isSome (v : Version) (self : Uplink) (up : UInt32) (t : PayloadType) {payload : Bytes}
    (h : payload.length ≤ 65535) : ∃ self' sent, self.sendNext v up t payload = some (self', sent) := by
  obtain ⟨p, hp, -⟩ := withPayload_ok v up t (self.sn_sendingAudio_ + 1) payload h
  exact ⟨_, [p], by rw [sendNext, hp]⟩

theorem frameStep_isSome (v : Version) (self : Uplink) {f : Frame} (h : Fits f) :
    ∃ self' out, self.frameStep v f = some (self', [out]) := by
  obtain ⟨outData, hopus, hlen⟩ := h.opus
  have haec : ¬ (self.needAec_ = true ∧ f.aecFails = true) := fun ha => by
    rw [h.aec] at ha
    exact Bool.false_ne_true ha.2
  have hvad : ∃ self' sent, self.nsAecVolumeVadSend v f = some (self', sent) := by
    unfold nsAecVolumeVadSend
    split
    · exact ⟨self, [], rfl⟩
    unfold vadSend
    rw [if_neg haec, hopus]
    dsimp only
    split
    · exact sendNext_isSome v _ _ _ hlen
    · split
      · exact sendNext_isSome v _ _ _ h.cng
      · exact ⟨_, [], rfl⟩
  obtain ⟨self', sent, hs⟩ := hvad
  exact ⟨self', sent, by rw [frameStep, hs]⟩

theorem execFrames_isSome (v : Version) (needAec : Bool) {frames : List Frame} (h : ∀ f ∈ frames, Fits f) :
    ∃ self sent, execFrames v needAec frames = some (self, sent) := by
  induction frames using List.reverseRecOn with
  | nil => exact ⟨_, _, rfl⟩
  | append_singleton frames f ih =>
    obtain ⟨self, sent, hrun⟩ := ih fun g hg => h g (List.mem_append_left _ hg)
    obtain ⟨self', out, hstep⟩ := frameStep_isSome v self (h f (List.mem_append_right _ (List.mem_singleton.mpr rfl)))
    exact ⟨self', sent ++ [out], (Lts.exec_concat _).mpr ⟨self, sent, [out], hrun, hstep, rfl⟩⟩

/-- Blocks with voice, all within a second. -/
theorem Window.after_replicate {f : Frame} (hv : f.haveVoice = true) (hnow : f.now - f.first ≤ seconds) :
    ∀ n, (after (List.replicate n f)).voiced = n ∧ (after (List.replicate n f)).start.getD f.first = f.first
  | 0 => ⟨rfl, rfl⟩
  | n + 1 => by
    obtain ⟨hcount, hstart⟩ := after_replicate hv hnow n
    have hopen : ¬ (after (List.replicate n f)).Closes f := by
      unfold Closes
      rw [hstart]
      exact not_lt.mpr hnow
    rw [List.replicate_succ', after_concat, next, if_neg hopen]
    refine ⟨?_, hstart⟩
    show (after (List.replicate n f)).voiced + (if f.haveVoice then 1 else 0) = n + 1
    rw [hcount, if_pos hv]

end Uplink

open Uplink

/-- A block with voice goes out as speech, and a block that ends the speech closes a window
without voice. -/
def SpeechKept (v : Version) (needAec : Bool) (frames : List Frame) : Prop :=
  ∀ pre f, pre ++ [f] <+: frames → ∀ self sent self' out, execFrames v needAec pre = some (self, sent) →
    self.frameStep v f = some (self', [out]) →
      (f.haveVoice = true → Speech out) ∧
      ((∀ last, sent.getLast? = some last → Speech last) → ¬ Speech out →
        (Window.after pre).Closes f ∧ (Window.after pre).count f = 0)

/-- Where speech is kept, a block that finds the counter zero closes a window
without voice. -/
theorem SpeechKept.count_eq_zero {v : Version} {needAec : Bool} {frames : List Frame}
    (hkept : SpeechKept v needAec frames) {w : Uplink} {outs : List (List NetPacket)}
    (h : execFrames v needAec frames = some (w, outs)) {pre : List Frame} {f : Frame} (hpre : pre ++ [f] <+: frames)
    (hc : (Window.after pre).Closes f) (hz : (Window.after pre).count f % 256 = 0) :
    (Window.after pre).count f = 0 := by
  obtain ⟨post, hpost⟩ := hpre
  rw [← hpost] at h
  obtain ⟨self', sent', -, h₁, -, -⟩ := (Lts.exec_append_iff _).mp h
  obtain ⟨self, sent, o, hrun, hstep, -⟩ := (Lts.exec_concat _).mp h₁
  obtain ⟨ht, hlast⟩ := tracks_exec hrun
  obtain ⟨out, rfl, -, hspeech, hsend⟩ := frameStep_spec ht hstep
  obtain ⟨hvoice, hswitch⟩ := hkept pre f ⟨post, hpost⟩ self sent self' out hrun hstep
  have hno : ¬ Speech out := by
    rw [hspeech, hsend, if_pos ⟨hc, hz⟩]
    exact Bool.false_ne_true
  by_cases hv : f.haveVoice = true
  · exact absurd (hvoice hv) hno
  · by_contra hne
    -- the voice was in an earlier block, so the stream was speech until now
    have hpos : 0 < (Window.after pre).voiced := by
      unfold Window.count at hne
      rw [if_neg hv, Nat.add_zero] at hne
      exact Nat.pos_of_ne_zero hne
    exact hne (hswitch (hlast.mpr (ht.held hpos)) hno).2

/-- **When speech is sent as speech.** Over every run of unmuted blocks: each
block with voice is an `AudioMessage`, and the stream changes from
`AudioMessage` only at a block that closes a window without voice, exactly when
no block closes a window with a positive multiple of 256 blocks with voice. -/
theorem speech_kept_iff {v : Version} {needAec : Bool} {frames : List Frame} {w : Uplink}
    {outs : List (List NetPacket)} (h : execFrames v needAec frames = some (w, outs)) :
    SpeechKept v needAec frames ↔ ∀ pre f, pre ++ [f] <+: frames → (Window.after pre).Closes f →
      (Window.after pre).count f % 256 = 0 → (Window.after pre).count f = 0 := by
  constructor
  · intro hkept pre f hpre hc hz
    exact hkept.count_eq_zero h hpre hc hz
  · intro hcond pre f hpre self sent self' out hrun hstep
    obtain ⟨ht, hlast⟩ := tracks_exec hrun
    obtain ⟨out', hout, -, hspeech, hsend⟩ := frameStep_spec ht hstep
    cases hout
    refine ⟨fun hv => ?_, fun hbefore hno => ?_⟩
    · have hpos : (Window.after pre).count f ≠ 0 := by
        unfold Window.count
        rw [if_pos hv]
        exact Nat.succ_ne_zero _
      have hopen : ¬ ((Window.after pre).Closes f ∧ (Window.after pre).count f % 256 = 0) :=
        fun hb => hpos (hcond pre f hpre hb.1 hb.2)
      rw [hspeech, hsend, if_neg hopen, hv, Bool.true_or]
    · rw [hspeech, hsend] at hno
      by_cases hb : (Window.after pre).Closes f ∧ (Window.after pre).count f % 256 = 0
      · exact ⟨hb.1, hcond pre f hpre hb.1 hb.2⟩
      · rw [if_neg hb, hlast.mp hbefore, Bool.or_true] at hno
        exact absurd rfl hno

/-- A block with voice, taken at `now`; the call began at 0. -/
def voicedFrame (now : ℤ) : Frame := ⟨false, true, 0, now, now, some [1], [], 0⟩

theorem voicedFrame_fits (now : ℤ) : Fits (voicedFrame now) := ⟨rfl, ⟨[1], rfl, by decide⟩, Nat.zero_le _⟩

/-- A block without voice. -/
def quietFrame (now : ℤ) : Frame := ⟨false, false, 0, now, now, some [1], [2], 0⟩

/-- A window with voice, one without, which ends the speech, and voice again. -/
def sampleWindows : List Frame :=
  [voicedFrame 0, quietFrame 500000000, voicedFrame 1000000001, quietFrame 1500000000, quietFrame 2000000002,
    quietFrame 2500000000, voicedFrame 2700000000]

/-- The condition holds of it. -/
theorem speech_kept_windows : ∃ w outs, execFrames sampleVersion true sampleWindows = some (w, outs) ∧
    outs.map (·.map (·.payloadType)) = [[.AudioMessage], [.AudioMessage], [.AudioMessage], [.AudioMessage],
      [.AudioMessage_CN], [.AudioMessage_CN], [.AudioMessage]] ∧
    SpeechKept sampleVersion true sampleWindows := by
  have h : execFrames sampleVersion true sampleWindows = some (_, _) := rfl
  refine ⟨_, _, h, rfl, (speech_kept_iff h).mpr ?_⟩
  intro pre f hpre _ hz
  have hlen := hpre.length_le
  rw [List.length_append] at hlen
  have hseven : sampleWindows.length = 7 := rfl
  have hcount := Window.count_after_le pre f
  omega

/-- A second of 255 blocks with voice, and one more that closes it: the counter
is back at zero, and the last block is not sent as speech. -/
theorem speech_lost_at_256 : ∃ w outs,
    execFrames sampleVersion true (List.replicate 255 (voicedFrame 0) ++ [voicedFrame 1000000001]) = some (w, outs) ∧
    ¬ SpeechKept sampleVersion true (List.replicate 255 (voicedFrame 0) ++ [voicedFrame 1000000001]) := by
  have hfits : ∀ f ∈ List.replicate 255 (voicedFrame 0) ++ [voicedFrame 1000000001], Fits f := by
    intro f hf
    rcases List.mem_append.mp hf with hf | hf
    · rw [List.eq_of_mem_replicate hf]
      exact voicedFrame_fits 0
    · rw [List.mem_singleton.mp hf]
      exact voicedFrame_fits _
  obtain ⟨w, outs, h⟩ := execFrames_isSome sampleVersion true hfits
  obtain ⟨hcount, hstart⟩ := Window.after_replicate (f := voicedFrame 0) rfl (by decide) 255
  refine ⟨w, outs, h, fun hkept => ?_⟩
  have htotal : (Window.after (List.replicate 255 (voicedFrame 0))).count (voicedFrame 1000000001) = 256 := by
    rw [Window.count, hcount]
    rfl
  have hcloses : (Window.after (List.replicate 255 (voicedFrame 0))).Closes (voicedFrame 1000000001) := by
    unfold Window.Closes
    show 1000000001 - (Window.after (List.replicate 255 (voicedFrame 0))).start.getD (voicedFrame 0).first > seconds
    rw [hstart]
    decide
  have hzero := hkept.count_eq_zero h (List.prefix_refl _) hcloses (by rw [htotal])
  rw [htotal] at hzero
  exact absurd hzero (by decide)

end EasyVoiceCall
