/-
# A client without a sound card

`CallbackStyleAudioEndpointStub.hpp`, which stands in for the sound card where the
configuration asks for none. Its `asyncStart` runs the loop that calls the audio callback in
the thread that calls it, until `syncStop` clears `started_`. So `syncStart` does not get past
it while the call lasts: there are no heartbeats and no durations (`headless_no_heartbeat`).
And as its first statement sets `started_`, it forgets a `syncStop` that came before
(`headless_stop_lost_iff`), with which the client never ends.

But for the loop, the worker does what it does with a sound card: `Headless.project` is a
worker that has left `asyncStart` at once, and a step outside the loop is one of its steps.

Key definitions: `Headless.step`, `Headless.project`, `Headless.Lost`.
Key theorems: `Headless.project_step`, `headless_no_heartbeat`, `headless_stop_lost_iff`,
`headless_stop_completes`.
-/
import EasyVoiceCall.Finish
import EasyVoiceCall.Conversation

namespace EasyVoiceCall

open Buffer NetPacket

/-- The next statement of `asyncStart`; `audio` in the callback, past the test of `mute_`. -/
inductive StubPc
  | outside
  | test
  | callback
  | audio
  deriving DecidableEq

structure CallbackStyleAudioEndpointStub where
  started_ : Bool
  pc : StubPc

/-- A worker with the stub for its endpoint. -/
structure Headless where
  worker : Worker
  stub : CallbackStyleAudioEndpointStub

namespace Headless

/-- Once the worker's `asyncStart` has returned; the stub is one for the whole program. -/
def start (needAec durationReporter started_ : Bool) : Headless :=
  ⟨Worker.start needAec durationReporter, ⟨started_, .outside⟩⟩

/-- A statement that does not touch the stub. -/
def onWorker (self : Headless) (r : Option (Worker × List WorkerObs)) : Option (Headless × List WorkerObs) :=
  r.map fun (worker, o) => ({ self with worker }, o)

/-- `asyncStart` of the stub, in the thread of `syncStart`. -/
def asyncStart (self : Headless) : Option Headless :=
  match self.stub.pc with
  | .outside => some { self with stub := ⟨true, .test⟩ }
  | .test =>
    if self.stub.started_ then some { self with stub := { self.stub with pc := .callback } }
    else some ⟨{ self.worker with net := .startTimer }, { self.stub with pc := .outside }⟩
  | .callback =>
    some { self with stub := { self.stub with pc := if self.worker.uplink.mute_ then .test else .audio } }
  | .audio => none

/-- The rest of the audio callback, on a block. -/
def audioStep (v : Version) (self : Headless) (f : Frame) (ok : Bool) : Option (Headless × List WorkerObs) :=
  if self.stub.pc = .audio then
    match self.worker.uplink.vadSend v f with
    | none => none
    | some (uplink, packets) =>
      some (⟨{ self.worker with uplink }, { self.stub with pc := .test }⟩, packets.flatMap (Worker.send ok))
  else none

/-- `syncStop` of the worker, which calls that of the stub. -/
def stopStep (self : Headless) : Option (Headless × List WorkerObs) :=
  if self.worker.stop = .endpoint ∧ self.worker.endpoint_ = true then
    some (⟨{ self.worker with stop := .clear }, { self.stub with started_ := false }⟩, [])
  else self.onWorker self.worker.stopStep

/-- No other thread calls the audio callback. -/
def step (v : Version) (self : Headless) : WorkerAction → Option (Headless × List WorkerObs)
  | .net env =>
    if self.worker.net = .startAudio then self.asyncStart.map fun self => (self, [])
    else self.onWorker (self.worker.netStep v env)
  | .stop => self.stopStep
  | .callback => none
  | .audio f ok => self.audioStep v f ok
  | .timer => self.onWorker self.worker.timerStep
  | .receive type ok upTime => self.onWorker (self.worker.receiveStep v type ok upTime)
  | .setMute mute => self.onWorker (self.worker.step v (.setMute mute))

abbrev exec (v : Version) (needAec durationReporter started_ : Bool) (as : List WorkerAction) :
    Option (Headless × List WorkerObs) :=
  Lts.exec (step v) (start needAec durationReporter started_) as

/-! ### What a step does -/

section

variable {v : Version} {s s' : Headless} {a : WorkerAction} {o : List WorkerObs}

theorem onWorker_some_iff {r : Option (Worker × List WorkerObs)} : s.onWorker r = some (s', o) ↔
    s'.stub = s.stub ∧ r = some (s'.worker, o) := by
  rw [onWorker, Option.map_eq_some_iff]
  constructor
  · rintro ⟨⟨worker, o'⟩, hr, he⟩
    cases he
    exact ⟨rfl, hr⟩
  · rintro ⟨hstub, hr⟩
    obtain ⟨worker, stub⟩ := s'
    cases hstub
    exact ⟨_, hr, rfl⟩

/-- A step that is the worker's alone: neither the loop nor the stop of the stub. -/
def IsWorkers (self : Headless) : WorkerAction → Prop
  | .net _ => self.worker.net ≠ .startAudio
  | .stop => ¬ (self.worker.stop = .endpoint ∧ self.worker.endpoint_ = true)
  | .callback => False
  | .audio _ _ => False
  | _ => True

/-- **One step**: a statement of the loop, a block, the stop of the stub, or the worker's. -/
theorem step_cases (h : s.step v a = some (s', o)) :
    (∃ env, a = .net env ∧ s.worker.net = .startAudio ∧ s.asyncStart = some s' ∧ o = []) ∨
    (∃ f ok u packets, a = .audio f ok ∧ s.stub.pc = .audio ∧ s.worker.uplink.vadSend v f = some (u, packets) ∧
      s' = ⟨{ s.worker with uplink := u }, { s.stub with pc := .test }⟩ ∧ o = packets.flatMap (Worker.send ok)) ∨
    (a = .stop ∧ s.worker.stop = .endpoint ∧
      s' = ⟨{ s.worker with stop := .clear }, { s.stub with started_ := false }⟩ ∧ o = []) ∨
    (s.IsWorkers a ∧ s'.stub = s.stub ∧ s.worker.step v a = some (s'.worker, o)) := by
  cases a with
  | net env =>
    simp only [step] at h
    split at h
    · rename_i hn
      obtain ⟨s₁, hs, he⟩ := Option.map_eq_some_iff.mp h
      cases he
      exact Or.inl ⟨env, rfl, hn, hs, rfl⟩
    · rename_i hn
      obtain ⟨hstub, hstep⟩ := onWorker_some_iff.mp h
      exact Or.inr (Or.inr (Or.inr ⟨hn, hstub, hstep⟩))
  | stop =>
    simp only [step, stopStep] at h
    split at h
    · rename_i hstop
      cases h
      exact Or.inr (Or.inr (Or.inl ⟨rfl, hstop.1, rfl, rfl⟩))
    · rename_i hstop
      obtain ⟨hstub, hstep⟩ := onWorker_some_iff.mp h
      exact Or.inr (Or.inr (Or.inr ⟨hstop, hstub, hstep⟩))
  | callback => cases h
  | audio f ok =>
    simp only [step, audioStep] at h
    split at h
    · rename_i hpc
      split at h
      · cases h
      · rename_i u packets hu
        cases h
        exact Or.inr (Or.inl ⟨f, ok, u, packets, rfl, hpc, hu, rfl, rfl⟩)
    · cases h
  | timer =>
    obtain ⟨hstub, hstep⟩ := onWorker_some_iff.mp h
    exact Or.inr (Or.inr (Or.inr ⟨trivial, hstub, hstep⟩))
  | receive type ok upTime =>
    obtain ⟨hstub, hstep⟩ := onWorker_some_iff.mp h
    exact Or.inr (Or.inr (Or.inr ⟨trivial, hstub, hstep⟩))
  | setMute mute =>
    obtain ⟨hstub, hstep⟩ := onWorker_some_iff.mp h
    exact Or.inr (Or.inr (Or.inr ⟨trivial, hstub, hstep⟩))

/-- A statement of the loop: entered, at its test, or in the callback. -/
theorem asyncStart_cases (h : s.asyncStart = some s') :
    (s.stub.pc = .outside ∧ s' = { s with stub := ⟨true, .test⟩ }) ∨
    (s.stub.pc = .test ∧ s.stub.started_ = false ∧
      s' = ⟨{ s.worker with net := .startTimer }, { s.stub with pc := .outside }⟩) ∨
    (s.stub.pc ≠ .outside ∧ (s.stub.pc = .callback ∨ s.stub.started_ = true) ∧
      ∃ pc, pc ≠ .outside ∧ s' = { s with stub := { s.stub with pc } } ∧
        (s.stub.pc = .callback → pc ≠ .callback)) := by
  cases hpc : s.stub.pc <;> simp only [asyncStart, hpc] at h
  case outside =>
    cases h
    exact Or.inl ⟨rfl, rfl⟩
  case test =>
    split at h
    · rename_i hstarted
      cases h
      exact Or.inr (Or.inr ⟨by decide, Or.inr hstarted, _, by decide, rfl, fun hc => by cases hc⟩)
    · rename_i hstarted
      cases h
      exact Or.inr (Or.inl ⟨rfl, by simpa using hstarted, rfl⟩)
  case callback =>
    cases h
    refine Or.inr (Or.inr ⟨by decide, Or.inl rfl, _, ?_, rfl, fun _ => ?_⟩) <;> split <;> decide
  case audio => cases h

/-- What holds in every run. -/
structure Sound (client : Headless) : Prop where
  inside : client.stub.pc ≠ .outside → client.worker.net = .startAudio
  silent : client.worker.running = false ∧ client.worker.callback = .idle
  kept : client.worker.EndpointKept
  joined : client.worker.stop = .joinTimer ∨ client.worker.stop = .returned → ∃ ok, client.worker.net = .returned ok

theorem sendHeartbeat_audio (v : Version) (w : Worker) (env : NetEnv) :
    (w.sendHeartbeat v env).1.running = w.running ∧ (w.sendHeartbeat v env).1.callback = w.callback := by
  unfold Worker.sendHeartbeat
  dsimp only
  split <;> exact ⟨rfl, rfl⟩

/-- What the worker's own statements leave alone. -/
theorem workers_frame {w w' : Worker} (hsilent : w.running = false ∧ w.callback = .idle)
    (hjoined : w.stop = .joinTimer ∨ w.stop = .returned → ∃ ok, w.net = .returned ok)
    (ha : IsWorkers ⟨w, s.stub⟩ a) (h : w.step v a = some (w', o)) :
    (w'.running = false ∧ w'.callback = .idle) ∧
      (w'.stop = .joinTimer ∨ w'.stop = .returned → ∃ ok, w'.net = .returned ok) := by
  cases a with
  | net env =>
    have hstep : w.netStep v env = some (w', o) := h
    have hn : w.net ≠ .startAudio := ha
    obtain ⟨hstop, -, -⟩ := Worker.netStep_frame hstep
    have hno : ¬ ∃ ok, w.net = .returned ok := by
      rintro ⟨ok, hret⟩
      rw [Worker.netStep, hret] at hstep
      cases hstep
    refine ⟨?_, fun hj => absurd (hjoined (hstop ▸ hj)) hno⟩
    cases hpc : w.net <;> simp only [Worker.netStep, hpc] at hstep
    case startAudio => exact absurd hpc hn
    case heartbeat =>
      cases hstep
      obtain ⟨hrunning, hcallback⟩ := sendHeartbeat_audio v w env
      exact ⟨hrunning.trans hsilent.1, hcallback.trans hsilent.2⟩
    all_goals try split_ifs at hstep
    all_goals cases hstep <;> exact hsilent
  | stop =>
    have hstep : w.stopStep = some (w', o) := h
    have hno : ¬ (w.stop = .endpoint ∧ w.endpoint_ = true) := ha
    cases hpc : w.stop <;> simp only [Worker.stopStep, hpc] at hstep
    case endpoint =>
      split_ifs at hstep with hnull hidle
      · cases hstep
        exact ⟨hsilent, by simp⟩
      · exact absurd ⟨hpc, by simpa using hnull⟩ hno
    case joinNet =>
      split at hstep
      · rename_i ok hret
        cases hstep
        exact ⟨hsilent, fun _ => ⟨ok, hret⟩⟩
      · cases hstep
    case joinTimer =>
      split at hstep
      · cases hstep
        exact ⟨hsilent, fun _ => hjoined (Or.inl hpc)⟩
      · cases hstep
    all_goals cases hstep <;> exact ⟨hsilent, by simp⟩
  | callback => exact ha.elim
  | audio f ok => exact ha.elim
  | timer =>
    have hstep : w.timerStep = some (w', o) := h
    unfold Worker.timerStep at hstep
    split at hstep <;> cases hstep <;> exact ⟨hsilent, hjoined⟩
  | receive type ok upTime =>
    have hstep : w.receiveStep v type ok upTime = some (w', o) := h
    unfold Worker.receiveStep at hstep
    split_ifs at hstep <;> cases hstep <;> exact ⟨hsilent, hjoined⟩
  | setMute mute =>
    cases h
    exact ⟨hsilent, hjoined⟩

theorem sound_step (hs : s.Sound) (h : s.step v a = some (s', o)) : s'.Sound := by
  obtain ⟨env, rfl, hn, hloop, rfl⟩ | ⟨f, ok, u, packets, rfl, hpc, -, rfl, rfl⟩ | ⟨rfl, hpc, rfl, rfl⟩ |
    ⟨ha, hstub, hstep⟩ := step_cases h
  · have hno : ¬ (s.worker.stop = .joinTimer ∨ s.worker.stop = .returned) := by
      intro hj
      obtain ⟨ok, hret⟩ := hs.joined hj
      rw [hn] at hret
      cases hret
    obtain ⟨-, rfl⟩ | ⟨-, -, rfl⟩ | ⟨-, -, pc, -, rfl, -⟩ := asyncStart_cases hloop
    · exact ⟨fun _ => hn, hs.silent, hs.kept, hs.joined⟩
    · exact ⟨fun hpc => absurd rfl hpc, hs.silent, hs.kept, fun hj => absurd hj hno⟩
    · exact ⟨fun _ => hn, hs.silent, hs.kept, hs.joined⟩
  · have hn : s.worker.net = .startAudio := hs.inside (by rw [hpc]; decide)
    exact ⟨fun _ => hn, hs.silent, hs.kept, hs.joined⟩
  · refine ⟨hs.inside, hs.silent, ?_, fun hj => ?_⟩
    · exact iff_of_true (hs.kept.mpr (Or.inr (Or.inl hpc))) (Or.inr (Or.inr rfl))
    · rcases hj with hj | hj <;> cases hj
  · obtain ⟨hsilent, hjoined⟩ := workers_frame hs.silent hs.joined ha hstep
    refine ⟨fun hpc => ?_, hsilent, Worker.endpointKept_step hs.kept hstep, hjoined⟩
    have hn := hs.inside (hstub ▸ hpc)
    rw [Worker.net_frame hstep ?_]
    · exact hn
    · rintro env rfl
      exact ha hn

/-! ### While the call lasts -/

/-- Nobody is in the loop of the heartbeats or of the timer, and whoever is past the audio has been stopped. -/
structure Restful (w : Worker) : Prop where
  flag : w.StopKept
  beat : w.net ≠ .heartbeat
  past : w.net = .startTimer ∨ w.net = .test → w.stop ≠ .idle
  timer : w.timer ≠ .body
  ticking : w.timer = .test → w.stop ≠ .idle

/-- The loop ends when `syncStop` has been called. -/
structure Silent (client : Headless) : Prop where
  restful : Restful client.worker
  told : client.stub.pc ≠ .outside → client.stub.started_ = false → client.worker.stop ≠ .idle

/-- A statement of `syncStart` outside the loop. -/
theorem restful_netStep {w w' : Worker} {env : NetEnv} (hw : Restful w) (hn : w.net ≠ .startAudio)
    (hfirst : w.EntersFirst (.net env)) (h : w.netStep v env = some (w', o)) :
    Restful w' ∧ ∀ p ∈ Worker.sentOf o, p.payloadType ≠ .HeartBeatRequest := by
  have hflag := Worker.stopKept_step hw.flag hfirst h
  have hnil : ∀ p ∈ Worker.sentOf [], p.payloadType ≠ .HeartBeatRequest := fun p hp => absurd hp List.not_mem_nil
  have hsent : ∀ {t : PayloadType} {ok : Bool}, t ≠ .HeartBeatRequest →
      ∀ p ∈ Worker.sentOf (Worker.send ok (ofType v env.upTime t 0)), p.payloadType ≠ .HeartBeatRequest := by
    intro t ok ht p hp
    rw [Worker.mem_send (Worker.mem_sentOf.mp hp), payloadType_ofType]
    exact ht
  cases hpc : w.net <;> simp only [Worker.netStep, hpc] at h
  case heartbeat => exact absurd hpc hw.beat
  case startAudio => exact absurd hpc hn
  case startTimer =>
    have hstopped := hw.past (Or.inl hpc)
    split_ifs at h <;> cases h
    · exact ⟨⟨hflag, by simp, fun _ => hstopped, hw.timer, hw.ticking⟩, hnil⟩
    · exact ⟨⟨hflag, by simp, fun _ => hstopped, by simp, fun _ => hstopped⟩, hnil⟩
    · exact ⟨⟨hflag, by simp, by simp, hw.timer, hw.ticking⟩, hnil⟩
  case test =>
    rw [hw.flag (hw.past (Or.inr hpc))] at h
    cases h
    exact ⟨⟨hflag, by simp, by simp, hw.timer, hw.ticking⟩, hnil⟩
  case login =>
    cases h
    exact ⟨⟨hflag, by simp, by simp, hw.timer, hw.ticking⟩, hsent (by decide)⟩
  case logout =>
    cases h
    exact ⟨⟨hflag, by simp, by simp, hw.timer, hw.ticking⟩, hsent (by decide)⟩
  all_goals try split_ifs at h
  all_goals cases h <;> exact ⟨⟨hflag, by simp, by simp, hw.timer, hw.ticking⟩, hnil⟩

/-- A step that is the worker's. -/
theorem restful_step {w w' : Worker} {stub : CallbackStyleAudioEndpointStub} (hw : Restful w)
    (ha : IsWorkers ⟨w, stub⟩ a) (hfirst : w.EntersFirst a) (h : w.step v a = some (w', o)) :
    Restful w' ∧ (w.stop ≠ .idle → w'.stop ≠ .idle) ∧ ∀ p ∈ Worker.sentOf o, p.payloadType ≠ .HeartBeatRequest := by
  have hflag := Worker.stopKept_step hw.flag hfirst h
  have hnil : ∀ p ∈ Worker.sentOf [], p.payloadType ≠ .HeartBeatRequest := fun p hp => absurd hp List.not_mem_nil
  cases a with
  | net env =>
    obtain ⟨hrest, hsent⟩ := restful_netStep hw ha hfirst h
    obtain ⟨hstop, -, -⟩ := Worker.netStep_frame h
    exact ⟨hrest, hstop ▸ id, hsent⟩
  | stop =>
    have hstep : w.stopStep = some (w', o) := h
    obtain ⟨hn, rfl, -⟩ := Worker.stopStep_frame hstep
    have hbegun : w'.stop ≠ .idle ∧ w'.timer = w.timer := by
      cases hpc : w.stop <;> simp only [Worker.stopStep, hpc] at hstep
      case joinNet =>
        split at hstep <;> cases hstep
        exact ⟨by simp, rfl⟩
      all_goals try split_ifs at hstep
      all_goals cases hstep <;> exact ⟨by simp, rfl⟩
    refine ⟨⟨hflag, hn ▸ hw.beat, fun _ => hbegun.1, hbegun.2 ▸ hw.timer, fun _ => hbegun.1⟩, fun _ => hbegun.1, hnil⟩
  | callback => exact ha.elim
  | audio f ok => exact ha.elim
  | timer =>
    have hstep : w.timerStep = some (w', o) := h
    unfold Worker.timerStep at hstep
    split at hstep
    · rename_i htest
      rw [hw.flag (hw.ticking htest)] at hstep
      cases hstep
      exact ⟨⟨fun _ => rfl, hw.beat, hw.past, by simp, by simp⟩, id, hnil⟩
    · rename_i hbody
      exact absurd hbody hw.timer
    · cases hstep
    · cases hstep
  | receive type ok upTime =>
    have hstep : w.receiveStep v type ok upTime = some (w', o) := h
    unfold Worker.receiveStep at hstep
    split_ifs at hstep <;> cases hstep
    · refine ⟨hw, id, fun p hp => ?_⟩
      rw [Worker.mem_send (Worker.mem_sentOf.mp hp), payloadType_ofType]
      decide
    · exact ⟨⟨hflag, hw.beat, hw.past, hw.timer, hw.ticking⟩, id, hnil⟩
    · exact ⟨hw, id, hnil⟩
  | setMute mute =>
    cases h
    exact ⟨⟨hflag, hw.beat, hw.past, hw.timer, hw.ticking⟩, id, hnil⟩

/-- A block is not a heartbeat. -/
theorem sent_audio {u u' : Uplink} {f : Frame} {ok : Bool} {packets : List NetPacket}
    (h : u.vadSend v f = some (u', packets)) {p : NetPacket}
    (hp : p ∈ Worker.sentOf (packets.flatMap (Worker.send ok))) :
    p.isAudio = true := by
  obtain ⟨q, hq, hpq⟩ := List.mem_flatMap.mp (Worker.mem_sentOf.mp hp)
  rw [Worker.mem_send hpq, isAudio]
  obtain ⟨rfl, -⟩ | ⟨q', rfl, -, -, ht⟩ := Uplink.vadSend_sends h
  · cases hq
  · rw [List.mem_singleton.mp hq]
    exact decide_eq_true ht.symm

theorem silent_step (hq : s.Silent) (hfirst : s.worker.EntersFirst a)
    (h : s.step v a = some (s', o)) :
    s'.Silent ∧ ∀ p ∈ Worker.sentOf o, p.payloadType ≠ .HeartBeatRequest := by
  have hw := hq.restful
  have hnil : ∀ p ∈ Worker.sentOf [], p.payloadType ≠ .HeartBeatRequest := fun p hp => absurd hp List.not_mem_nil
  obtain ⟨env, rfl, hn, hloop, rfl⟩ | ⟨f, ok, u, packets, rfl, hpc, hu, rfl, rfl⟩ | ⟨rfl, hpc, rfl, rfl⟩ |
    ⟨ha, hstub, hstep⟩ := step_cases h
  · refine ⟨?_, hnil⟩
    obtain ⟨-, rfl⟩ | ⟨hpc, hstarted, rfl⟩ | ⟨hin, -, pc, -, rfl, -⟩ := asyncStart_cases hloop
    · exact ⟨hw, fun _ hstarted => by cases hstarted⟩
    · have hstopped := hq.told (by rw [hpc]; decide) hstarted
      exact ⟨⟨hw.flag, by simp, fun _ => hstopped, hw.timer, hw.ticking⟩, fun hpc => absurd rfl hpc⟩
    · exact ⟨hw, fun _ => hq.told hin⟩
  · refine ⟨⟨⟨hw.flag, hw.beat, hw.past, hw.timer, hw.ticking⟩, fun _ => hq.told (by rw [hpc]; decide)⟩, fun p hp => ?_⟩
    have haudio := sent_audio hu hp
    intro ht
    rw [isAudio, ht] at haudio
    exact absurd haudio (by decide)
  · have hg : s.worker.gotoStop_ = true := hw.flag (by rw [hpc]; decide)
    exact ⟨⟨⟨fun _ => hg, hw.beat, fun _ => by simp, hw.timer, fun _ => by simp⟩, fun _ _ => by simp⟩, hnil⟩
  · obtain ⟨hw', hmono, hsent⟩ := restful_step hw ha hfirst hstep
    exact ⟨⟨hw', fun hpc hstarted => hmono (hq.told (hstub ▸ hpc) (hstub ▸ hstarted))⟩, hsent⟩

theorem silent_start (needAec durationReporter started_ : Bool) : (start needAec durationReporter started_).Silent where
  restful := ⟨fun hs => absurd rfl hs, by simp [start, Worker.start], by simp [start, Worker.start],
    by simp [start, Worker.start], by simp [start, Worker.start]⟩
  told hpc := absurd rfl hpc

theorem sound_start (needAec durationReporter started_ : Bool) : (start needAec durationReporter started_).Sound :=
  ⟨fun hpc => absurd rfl hpc, ⟨rfl, rfl⟩, iff_of_true rfl (Or.inl rfl),
    fun hj => by rcases hj with hj | hj <;> cases hj⟩

end

end Headless

open Headless

/-- **Without a sound card there are no heartbeats.** In every run in which `syncStop` is not
called before the first statement of `syncStart`: no `HeartBeatRequest` is ever sent, and the
timer never gets to report a duration, however long the call lasts. -/
theorem headless_no_heartbeat {v : Version} {needAec durationReporter started_ : Bool} {as : List WorkerAction}
    {s : Headless} {o : List WorkerObs} (h : Headless.exec v needAec durationReporter started_ as = some (s, o))
    (hfirst : Lts.Along (Headless.step v) (fun s a => s.worker.EntersFirst a)
      (Headless.start needAec durationReporter started_) as) :
    (∀ p ∈ Worker.sentOf o, p.payloadType ≠ .HeartBeatRequest) ∧ s.worker.timer ≠ .body := by
  have hrun := Lts.along_rule (Headless.step v) (fun s a => s.worker.EntersFirst a)
    (fun s o => s.Silent ∧ ∀ p ∈ Worker.sentOf o, p.payloadType ≠ .HeartBeatRequest)
    ⟨silent_start .., fun p hp => absurd hp List.not_mem_nil⟩ ?_ h hfirst
  · exact ⟨hrun.2, hrun.1.restful.timer⟩
  · rintro s₁ o₁ a s₂ o₂ hC ⟨hq, hsent⟩ hstep
    obtain ⟨hq', hsent'⟩ := silent_step hq hC hstep
    refine ⟨hq', fun p hp => ?_⟩
    rw [Worker.sentOf_append] at hp
    exact (List.mem_append.mp hp).elim (hsent p) (hsent' p)

instance (w : Worker) : ∀ a, Decidable (w.EntersFirst a)
  | .net env => decidable_of_iff (w.net = .entry → w.stop = .idle)
      ⟨fun h _ _ => h, fun h => h env rfl⟩
  | .stop => isTrue fun _ h => WorkerAction.noConfusion h
  | .timer => isTrue fun _ h => WorkerAction.noConfusion h
  | .callback => isTrue fun _ h => WorkerAction.noConfusion h
  | .audio _ _ => isTrue fun _ h => WorkerAction.noConfusion h
  | .receive _ _ _ => isTrue fun _ h => WorkerAction.noConfusion h
  | .setMute _ => isTrue fun _ h => WorkerAction.noConfusion h

/-- The login is confirmed, and `asyncStart` of the stub is next. -/
def sampleConnect : List WorkerAction := sampleLogin ++ .receive .LoginResponse true 0 :: List.replicate 3 sampleNet

/-- A call of one block, hung up after it. -/
theorem headless_no_heartbeat_call : ∃ s o, Headless.exec sampleVersion false true false
      (sampleConnect ++ List.replicate 3 sampleNet ++ [sampleAudio, .stop, .stop] ++ List.replicate 4 sampleNet) =
        some (s, o) ∧ s.worker.net = .returned true ∧
    (∃ p ∈ Worker.sentOf o, p.payloadType = .AudioMessage) ∧
    ∀ p ∈ Worker.sentOf o, p.payloadType ≠ .HeartBeatRequest := by
  have hrun : Headless.exec sampleVersion false true false
    (sampleConnect ++ List.replicate 3 sampleNet ++ [sampleAudio, .stop, .stop] ++ List.replicate 4 sampleNet) =
      some (_, _) := rfl
  exact ⟨_, _, hrun, rfl, by decide, (headless_no_heartbeat hrun (by decide)).1⟩

/-! ### A stop that comes before the start -/

namespace Headless

/-- The stub's `started_ = true` comes before `syncStop` has told the stub to stop. -/
def StartsInTime (self : Headless) : WorkerAction → Prop
  | .net _ => self.worker.net = .startAudio → self.stub.pc = .outside →
      self.worker.stop = .idle ∨ self.worker.stop = .endpoint
  | _ => True

instance (self : Headless) : ∀ a, Decidable (self.StartsInTime a)
  | .net _ => inferInstanceAs (Decidable (_ → _ → _))
  | .stop => inferInstanceAs (Decidable True)
  | .timer => inferInstanceAs (Decidable True)
  | .callback => inferInstanceAs (Decidable True)
  | .audio _ _ => inferInstanceAs (Decidable True)
  | .receive _ _ _ => inferInstanceAs (Decidable True)
  | .setMute _ => inferInstanceAs (Decidable True)

/-- The loop is to go on, and `syncStop` waits for it. -/
structure Lost (client : Headless) : Prop where
  inside : client.stub.pc ≠ .outside
  started : client.stub.started_ = true
  waits : client.worker.stop = .clear ∨ client.worker.stop = .joinNet

/-- The loop is to end once the stub has been told to stop. -/
def Kept (self : Headless) : Prop := self.stub.pc ≠ .outside → self.worker.stop ≠ .idle → self.worker.stop ≠ .endpoint →
  self.stub.started_ = false

section

variable {v : Version} {s s' : Headless} {a : WorkerAction} {o : List WorkerObs}

/-- Where `syncStop` is, after a step of the worker's that is taken in the loop. -/
theorem stop_inside (hs : s.Sound) (hin : s.stub.pc ≠ .outside) (ha : s.IsWorkers a)
    (h : s.worker.step v a = some (s'.worker, o)) :
    (s'.worker.stop = s.worker.stop ∨ s.worker.stop = .idle ∧ s'.worker.stop = .endpoint ∨
      s.worker.stop = .clear ∧ s'.worker.stop = .joinNet) ∧ s'.worker.net = .startAudio := by
  have hn := hs.inside hin
  have hnet : ∀ env, a ≠ .net env := by
    rintro env rfl
    exact ha hn
  refine ⟨?_, (Worker.net_frame h hnet).trans hn⟩
  by_cases hstop : a = .stop
  · subst hstop
    have hstep : s.worker.stopStep = some (s'.worker, o) := h
    have hno : ¬ (s.worker.stop = .endpoint ∧ s.worker.endpoint_ = true) := ha
    cases hpc : s.worker.stop <;> simp only [Worker.stopStep, hpc, hn] at hstep
    case idle =>
      obtain ⟨hw, -⟩ := Prod.mk.inj (Option.some.inj hstep)
      exact Or.inr (Or.inl ⟨rfl, hw ▸ rfl⟩)
    case endpoint => exact absurd ⟨hpc, hs.kept.mpr (Or.inr (Or.inl hpc))⟩ hno
    case clear =>
      obtain ⟨hw, -⟩ := Prod.mk.inj (Option.some.inj hstep)
      exact Or.inr (Or.inr ⟨rfl, hw ▸ rfl⟩)
    case joinNet => cases hstep
    case joinTimer =>
      obtain ⟨ok, hret⟩ := hs.joined (Or.inl hpc)
      rw [hn] at hret
      cases hret
    case returned => cases hstep
  · exact Or.inl (Worker.stop_frame h hstop).1

/-- A stop that is lost stays lost. -/
theorem lost_step (hs : s.Sound) (hl : s.Lost) (h : s.step v a = some (s', o)) :
    s'.Lost ∧ ∀ p ∈ Worker.sentOf o, p.payloadType ≠ .LogoutRequest := by
  have hn := hs.inside hl.inside
  have hnil : ∀ p ∈ Worker.sentOf [], p.payloadType ≠ .LogoutRequest := fun p hp => absurd hp List.not_mem_nil
  obtain ⟨env, rfl, -, hloop, rfl⟩ | ⟨f, ok, u, packets, rfl, hpc, hu, rfl, rfl⟩ | ⟨rfl, hpc, rfl, rfl⟩ |
    ⟨ha, hstub, hstep⟩ := step_cases h
  · refine ⟨?_, hnil⟩
    obtain ⟨hout, -⟩ | ⟨-, hstarted, -⟩ | ⟨-, -, pc, hpc, rfl, -⟩ := asyncStart_cases hloop
    · exact absurd hout hl.inside
    · exact absurd (hstarted.symm.trans hl.started) Bool.false_ne_true
    · exact ⟨hpc, hl.started, hl.waits⟩
  · refine ⟨⟨by simp, hl.started, hl.waits⟩, fun p hp ht => ?_⟩
    have haudio := sent_audio hu hp
    rw [isAudio, ht] at haudio
    exact absurd haudio (by decide)
  · rcases hl.waits with hw | hw <;> rw [hpc] at hw <;> cases hw
  · obtain ⟨hstop, -⟩ := stop_inside hs hl.inside ha hstep
    refine ⟨⟨hstub ▸ hl.inside, hstub ▸ hl.started, ?_⟩, ?_⟩
    · rcases hl.waits with hw | hw <;> rw [hw] at hstop <;> simp at hstop
      · rcases hstop with hstop | hstop
        · exact Or.inl hstop
        · exact Or.inr hstop
      · exact Or.inr hstop
    · by_cases hstop : a = .stop
      · subst hstop
        obtain ⟨-, rfl, -⟩ := Worker.stopStep_frame hstep
        exact hnil
      have hnet : ∀ env, a ≠ .net env := by
        rintro env rfl
        exact ha hn
      obtain ⟨-, rfl | ⟨f, ok, u, packets, rfl, hu, rfl⟩ | ⟨ok, up, rfl, rfl⟩⟩ := Worker.step_other hstep hnet hstop
      · exact hnil
      · exact ha.elim
      · intro p hp
        rw [Worker.mem_send (Worker.mem_sentOf.mp hp), payloadType_ofType]
        decide

/-- **One step from where no stop is lost.** -/
theorem kept_step (hs : s.Sound) (hk : s.Kept) (h : s.step v a = some (s', o)) :
    (s.StartsInTime a → s'.Kept) ∧ (¬ s.StartsInTime a → s'.Lost) := by
  obtain ⟨env, rfl, hn, hloop, rfl⟩ | ⟨f, ok, u, packets, rfl, hpc, -, rfl, rfl⟩ | ⟨rfl, hpc, rfl, rfl⟩ |
    ⟨ha, hstub, hstep⟩ := step_cases h
  · obtain ⟨hout, rfl⟩ | ⟨hpc, hstarted, rfl⟩ | ⟨hin, -, pc, -, rfl, -⟩ := asyncStart_cases hloop
    · refine ⟨fun hC _ hidle hend => ?_, fun hno => ⟨by simp, rfl, ?_⟩⟩
      · rcases hC hn hout with hstop | hstop
        · exact absurd hstop hidle
        · exact absurd hstop hend
      · have hjoined : ¬ (s.worker.stop = .joinTimer ∨ s.worker.stop = .returned) := by
          intro hj
          obtain ⟨ok, hret⟩ := hs.joined hj
          rw [hn] at hret
          cases hret
        have hpast : s.worker.stop ≠ .idle ∧ s.worker.stop ≠ .endpoint := by
          simpa [StartsInTime, hn, hout, not_or] using hno
        cases hstop : s.worker.stop <;> simp [hstop] at hjoined hpast ⊢
    · exact ⟨fun _ hpc => absurd rfl hpc,
        fun hno => absurd (fun _ hout => absurd (hpc.symm.trans hout) (by decide)) hno⟩
    · exact ⟨fun _ _ => hk hin, fun hno => absurd (fun _ hout => absurd hout hin) hno⟩
  · exact ⟨fun _ _ => hk (by rw [hpc]; decide), fun hno => absurd trivial hno⟩
  · exact ⟨fun _ _ _ _ => rfl, fun hno => absurd trivial hno⟩
  · have htime : s.StartsInTime a := by
      cases a with
      | net env => exact fun hn => absurd hn ha
      | _ => trivial
    refine ⟨fun _ hin hidle hend => ?_, fun hno => absurd htime hno⟩
    rw [hstub] at hin ⊢
    obtain ⟨hstop, -⟩ := stop_inside hs hin ha hstep
    rcases hstop with hsame | ⟨-, hnow⟩ | ⟨hbefore, -⟩
    · exact hk hin (hsame ▸ hidle) (hsame ▸ hend)
    · exact absurd hnow hend
    · exact hk hin (by rw [hbefore]; decide) (by rw [hbefore]; decide)

theorem known_exec {needAec durationReporter started_ : Bool} {as : List WorkerAction}
    (h : exec v needAec durationReporter started_ as = some (s, o)) : s.Sound ∧
      (Lts.Along (step v) StartsInTime (start needAec durationReporter started_) as → s.Kept) ∧
      (¬ Lts.Along (step v) StartsInTime (start needAec durationReporter started_) as → s.Lost) := by
  refine Lts.split_rule (step v) StartsInTime Sound Kept Lost ?_ ?_ ?_ (sound_start ..) (fun hpc => absurd rfl hpc) h
  · exact fun _ _ _ _ hs hstep => sound_step hs hstep
  · exact fun _ _ _ _ hs hk hstep => kept_step hs hk hstep
  · exact fun _ _ _ _ hs hl hstep => (lost_step hs hl hstep).1

end

/-! ### The worker without the loop -/

/-- The worker, had `asyncStart` of the stub returned at once. -/
def project (self : Headless) : Worker :=
  if self.stub.pc = .outside then self.worker else { self.worker with net := .startTimer }

theorem project_outside {s : Headless} (hpc : s.stub.pc = .outside) : s.project = s.worker := if_pos hpc

theorem project_inside {s : Headless} (hpc : s.stub.pc ≠ .outside) :
    s.project = { s.worker with net := .startTimer } := if_neg hpc

@[simp] theorem project_stop (s : Headless) : s.project.stop = s.worker.stop := by
  unfold project
  split <;> rfl

@[simp] theorem project_endpoint_ (s : Headless) : s.project.endpoint_ = s.worker.endpoint_ := by
  unfold project
  split <;> rfl

/-- The statements left of the loop, once it is to end. -/
def loopLeft : StubPc → ℕ
  | .callback => 3
  | .audio => 2
  | .test => 1
  | .outside => 0

section

variable {v : Version} {s s' : Headless} {a : WorkerAction} {o : List WorkerObs}

/-- The other threads do not care where `syncStart` waits. -/
theorem step_inside {w w' : Worker} {stub : CallbackStyleAudioEndpointStub} (hn : w.net = .startAudio)
    (ha : IsWorkers ⟨w, stub⟩ a) (h : w.step v a = some (w', o)) :
    Worker.step v { w with net := .startTimer } a = some ({ w' with net := .startTimer }, o) := by
  cases a with
  | net env => exact absurd hn ha
  | stop =>
    have hstep : w.stopStep = some (w', o) := h
    have hno : ¬ (w.stop = .endpoint ∧ w.endpoint_ = true) := ha
    show Worker.stopStep { w with net := .startTimer } = _
    cases hpc : w.stop <;> simp only [Worker.stopStep, hpc, hn] at hstep ⊢
    case endpoint =>
      split_ifs at hstep with hnull hidle
      · cases hstep
        rw [if_pos hnull]
      · exact absurd ⟨hpc, by simpa using hnull⟩ hno
    case joinNet => cases hstep
    case joinTimer =>
      split_ifs at hstep with ht
      cases hstep
      rw [if_pos ht]
    case returned => cases hstep
    all_goals
      cases hstep
      rfl
  | callback => exact ha.elim
  | audio f ok => exact ha.elim
  | timer =>
    have hstep : w.timerStep = some (w', o) := h
    show Worker.timerStep { w with net := .startTimer } = _
    cases ht : w.timer <;> simp only [Worker.timerStep, ht] at hstep ⊢ <;> cases hstep <;> rfl
  | receive type ok upTime =>
    have hstep : w.receiveStep v type ok upTime = some (w', o) := h
    show Worker.receiveStep v { w with net := .startTimer } type ok upTime = _
    simp only [Worker.receiveStep] at hstep ⊢
    split_ifs at hstep ⊢ <;> cases hstep <;> rfl
  | setMute mute =>
    cases h
    rfl

/-- **A step of the client** is a step of the worker without the loop, or one in the loop, which
that worker does not notice but for what the callback keeps. -/
theorem project_step (hs : s.Sound) (h : s.step v a = some (s', o)) :
    (∃ b, Worker.isStatement b = Worker.isStatement a ∧ (b = .stop → a = .stop) ∧
      s.project.step v b = some (s'.project, o) ∧
      (s'.stub.pc = s.stub.pc ∨ s.stub.pc = .outside ∧ s.worker.net = .startAudio)) ∨
    (s.stub.pc ≠ .outside ∧ s'.worker.stop = s.worker.stop ∧ (∃ u, s'.project = { s.project with uplink := u }) ∧
      (s.stub.started_ = false → loopLeft s'.stub.pc + 1 ≤ loopLeft s.stub.pc)) := by
  obtain ⟨env, rfl, hn, hloop, rfl⟩ | ⟨f, ok, u, packets, rfl, hpc, -, rfl, rfl⟩ | ⟨rfl, hpc, rfl, rfl⟩ |
    ⟨ha, hstub, hstep⟩ := step_cases h
  · obtain ⟨hout, rfl⟩ | ⟨hpc, -, rfl⟩ | ⟨hin, hstay, pc, hpc, rfl, hnext⟩ := asyncStart_cases hloop
    · -- the sound card would not have started
      refine Or.inl ⟨.net ⟨false, 0, 0, 0, 0⟩, rfl, fun hb => (nomatch hb), ?_, Or.inr ⟨hout, hn⟩⟩
      rw [project_outside hout]
      simp only [Worker.step, Worker.netStep, hn, Bool.or_false]
      rfl
    · have hin : s.stub.pc ≠ .outside := by
        rw [hpc]
        decide
      refine Or.inr ⟨hin, rfl, ⟨s.worker.uplink, ?_⟩, fun _ => by simp [hpc, loopLeft]⟩
      rw [project_inside hin]
      rfl
    · refine Or.inr ⟨hin, rfl, ⟨s.worker.uplink, ?_⟩, fun hstarted => ?_⟩
      · rw [project_inside hin, project_inside hpc]
      · have hcallback : s.stub.pc = .callback := hstay.resolve_right (by rw [hstarted]; decide)
        have hpc' := hnext hcallback
        rw [hcallback]
        cases pc <;> simp [loopLeft] at hpc hpc' ⊢
  · have hin : s.stub.pc ≠ .outside := by
      rw [hpc]
      decide
    refine Or.inr ⟨hin, rfl, ⟨u, ?_⟩, fun _ => by simp [hpc, loopLeft]⟩
    rw [project_inside hin]
    rfl
  · refine Or.inl ⟨.stop, rfl, fun _ => rfl, ?_, Or.inl rfl⟩
    have he : s.worker.endpoint_ = true := hs.kept.mpr (Or.inr (Or.inl hpc))
    obtain ⟨hrunning, hcallback⟩ := hs.silent
    unfold project
    dsimp only
    split <;> simp only [Worker.step, Worker.stopStep, hpc, he, hrunning, hcallback, Bool.not_true,
      Bool.false_eq_true, ↓reduceIte]
  · refine Or.inl ⟨a, rfl, id, ?_, Or.inl (by rw [hstub])⟩
    by_cases hout : s.stub.pc = .outside
    · rw [project_outside hout, project_outside (hstub ▸ hout)]
      exact hstep
    · rw [project_inside hout, project_inside (hstub ▸ hout)]
      exact step_inside (hs.inside hout) ha hstep

/-- What is known once the stub has been told to stop, where the stop is not lost. -/
structure Ending (client : Headless) : Prop where
  stopping : client.project.Stopping
  told : client.worker.stop ≠ .endpoint
  kept : client.Kept

/-- The statements left of `syncStart`, `syncStop` and the timer. -/
def remaining (self : Headless) : ℕ := self.project.remaining + loopLeft self.stub.pc

theorem Ending.started (he : s.Ending) (hin : s.stub.pc ≠ .outside) : s.stub.started_ = false := by
  apply he.kept hin
  · rw [← project_stop]
    exact he.stopping.begun
  · exact he.told

/-- A worker that is being stopped may have heard anything. -/
theorem stopping_uplink {w : Worker} (h : w.Stopping) (u : Uplink) : Worker.Stopping { w with uplink := u } :=
  ⟨h.begun, h.flag, h.past, h.kept, h.silent, h.netDone, h.timerDone⟩

theorem not_startAudio {w : Worker} (h : w.Stopping) : w.net ≠ .startAudio := by
  intro hn
  have hpast := h.past
  unfold Worker.PastStart at hpast
  rw [hn] at hpast
  exact hpast

/-- **One step** of any thread keeps it so, and a statement of the three leaves fewer. -/
theorem ending_step (hs : s.Sound) (he : s.Ending) (h : s.step v a = some (s', o)) :
    s'.Ending ∧ s'.remaining + (if Worker.isStatement a then 1 else 0) ≤ s.remaining := by
  have htime : s.StartsInTime a := by
    cases a with
    | net env => exact fun hn hout => absurd hn (project_outside hout ▸ not_startAudio he.stopping)
    | _ => trivial
  have hkept := (kept_step hs he.kept h).1 htime
  obtain ⟨b, hb, -, hstep, hpc⟩ | ⟨hin, hsame, ⟨u, hu⟩, hless⟩ := project_step hs h
  · obtain ⟨hstopping, hleft⟩ := Worker.stopping_step he.stopping hstep
    have hsame : s'.stub.pc = s.stub.pc :=
      hpc.resolve_right fun hent => not_startAudio (project_outside hent.1 ▸ he.stopping) hent.2
    refine ⟨⟨hstopping, fun hend => ?_, hkept⟩, ?_⟩
    · by_cases hstop : b = .stop
      · subst hstop
        have hdown := (Worker.stop_statement he.stopping hstep).1
        have hbegun := he.stopping.begun
        rw [project_stop] at hbegun
        rw [project_stop, project_stop, hend] at hdown
        cases hw : s.worker.stop with
        | idle => exact hbegun hw
        | endpoint => exact he.told hw
        | _ => simp [hw, Worker.stopLeft] at hdown
      · have hframe := (Worker.stop_frame hstep hstop).1
        rw [project_stop, project_stop] at hframe
        exact he.told (hframe ▸ hend)
    · rw [hb] at hleft
      rw [remaining, remaining, hsame]
      omega
  · refine ⟨⟨hu ▸ stopping_uplink he.stopping u, hsame ▸ he.told, hkept⟩, ?_⟩
    have hleft : s'.project.remaining = s.project.remaining := by rw [hu]; rfl
    have hloop := hless (he.started hin)
    rw [remaining, remaining, hleft]
    split <;> omega

/-- A step of a run in which `syncStop` comes late. -/
theorem late_step (hs : s.Sound) (hk : s.Kept) (hp : s.worker.stop = .idle ∨ s.project.Stopping)
    (hl : s.project.StopsLate a) (h : s.step v a = some (s', o)) :
    s'.Kept ∧ (s'.worker.stop = .idle ∨ s'.project.Stopping) := by
  have htime : s.StartsInTime a := by
    cases a with
    | net env =>
      intro hn hout
      rcases hp with hidle | hstopping
      · exact Or.inl hidle
      · exact absurd hn (project_outside hout ▸ not_startAudio hstopping)
    | _ => trivial
  refine ⟨(kept_step hs hk h).1 htime, ?_⟩
  obtain ⟨b, -, hba, hstep, -⟩ | ⟨-, hsame, ⟨u, hu⟩, -⟩ := project_step hs h
  · rw [← project_stop]
    rcases hp with hidle | hstopping
    · have hkept : s.project.EndpointKept := by
        unfold Worker.EndpointKept Worker.NotCleared
        rw [project_endpoint_, project_stop]
        exact hs.kept
      exact Worker.stopping_of_idle hkept ((project_stop s).trans hidle) (fun hb => hl (hba hb)) hstep
    · exact Or.inr (Worker.stopping_step hstopping hstep).1
  · rcases hp with hidle | hstopping
    · exact Or.inl (hsame.trans hidle)
    · exact Or.inr (hu ▸ stopping_uplink hstopping u)

/-- A step of the worker's is one of the client. -/
theorem step_of_workers {w' : Worker} (ha : s.IsWorkers a) (h : s.worker.step v a = some (w', o)) :
    s.step v a = some ({ s with worker := w' }, o) := by
  cases a with
  | net env =>
    have hn : s.worker.net ≠ .startAudio := ha
    rw [step, if_neg hn]
    exact onWorker_some_iff.mpr ⟨rfl, h⟩
  | stop =>
    have hno : ¬ (s.worker.stop = .endpoint ∧ s.worker.endpoint_ = true) := ha
    rw [step, stopStep, if_neg hno]
    exact onWorker_some_iff.mpr ⟨rfl, h⟩
  | callback => exact ha.elim
  | audio f ok => exact ha.elim
  | timer => exact onWorker_some_iff.mpr ⟨rfl, h⟩
  | receive type ok upTime => exact onWorker_some_iff.mpr ⟨rfl, h⟩
  | setMute mute => exact onWorker_some_iff.mpr ⟨rfl, h⟩

/-- **A way on.** Until `syncStop` has returned, some thread has a statement to take that brings
the end nearer. -/
theorem ending_progress (hs : s.Sound) (he : s.Ending) (hret : s.worker.stop ≠ .returned) :
    ∃ a s' o, s.step v a = some (s', o) ∧ s'.remaining < s.remaining := by
  by_cases hout : s.stub.pc = .outside
  · have hstopping : s.worker.Stopping := project_outside hout ▸ he.stopping
    obtain ⟨a, w', o, hstep, hstopping', hless⟩ := hstopping.progress hret
    obtain ⟨hrunning, hcallback⟩ := hs.silent
    have ha : s.IsWorkers a := by
      cases a with
      | net env => exact not_startAudio hstopping
      | stop => exact fun hend => he.told hend.1
      | callback =>
        simp only [Worker.step, Worker.callbackStep, hrunning] at hstep
        cases hstep
      | audio f ok =>
        simp only [Worker.step, Worker.audioStep, hcallback] at hstep
        cases hstep
      | _ => trivial
    refine ⟨a, _, o, step_of_workers ha hstep, ?_⟩
    have hless' : w'.remaining < s.worker.remaining := by
      rw [hcallback] at hless
      simp only [reduceCtorEq, ↓reduceIte] at hless
      omega
    have hw' : Headless.project { s with worker := w' } = w' := project_outside hout
    rw [remaining, remaining, project_outside hout, hw']
    exact Nat.add_lt_add_right hless' _
  · have hn := hs.inside hout
    have hcount : ∀ s', s.asyncStart = some s' → ∃ a s' o, s.step v a = some (s', o) ∧ s'.remaining < s.remaining := by
      intro s' hloop
      have hstep : s.step v (.net ⟨true, 0, 0, 0, 0⟩) = some (s', []) := by rw [step, if_pos hn, hloop]; rfl
      exact ⟨_, s', [], hstep, (ending_step hs he hstep).2⟩
    cases hpc : s.stub.pc with
    | outside => exact absurd hpc hout
    | test => exact hcount _ (by rw [asyncStart, hpc, he.started hout]; rfl)
    | callback => exact hcount _ (by rw [asyncStart, hpc])
    | audio =>
      -- the callback sends its block
      obtain ⟨⟨u, packets⟩, hu⟩ := Worker.vadSend_quietFrame v s.worker.uplink
      refine ⟨.audio Worker.quietFrame true, ⟨{ s.worker with uplink := u }, { s.stub with pc := .test }⟩, _,
        by rw [step, audioStep, if_pos hpc, hu], ?_⟩
      rw [remaining, remaining, project_inside hout, hpc]
      exact Nat.lt_succ_self _

theorem Ending.remaining_le (he : s.Ending) : s.remaining ≤ 13 := by
  have hworker := he.stopping.remaining_le
  have hloop : loopLeft s.stub.pc ≤ 3 := by
    unfold loopLeft
    split <;> omega
  rw [remaining]
  omega

/-- `syncStop` can return. -/
theorem Ending.returns (he : s.Ending) (hs : s.Sound) :
    ∃ bs s' o, Lts.exec (step v) s bs = some (s', o) ∧ s'.worker.stop = .returned ∧ bs.length ≤ 13 := by
  have hreach := Lts.reach_rule (step v) (fun s => s.Sound ∧ s.Ending) (fun s => s.worker.stop = .returned)
    (fun _ => True) remaining ?_ ⟨hs, he⟩
  · obtain ⟨bs, s', o, hexec, -, hret, -, hlen⟩ := hreach
    exact ⟨bs, s', o, hexec, hret, hlen.trans he.remaining_le⟩
  · rintro s ⟨hs, he⟩ hno
    obtain ⟨a, s', o, hstep, hless⟩ := ending_progress hs he hno
    exact ⟨a, s', o, trivial, hstep, ⟨sound_step hs hstep, (ending_step hs he hstep).1⟩, hless⟩

/-- A block of speech, of which something can be made either way. -/
def speaking : Frame := ⟨false, true, 0, 0, 0, some [0x78], [0x78], 0⟩

theorem vadSend_speaking (v : Version) (u : Uplink) : ∃ u' p, u.vadSend v speaking = some (u', [p]) := by
  have hnext : ∀ (u : Uplink) (t : PayloadType), ∃ u' p, u.sendNext v 0 t [0x78] = some (u', [p]) := by
    intro u t
    obtain ⟨p, hp, -⟩ := withPayload_ok v 0 t (u.sn_sendingAudio_ + 1) [0x78] (by decide)
    exact ⟨_, p, by rw [Uplink.sendNext, hp]⟩
  unfold Uplink.vadSend
  rw [if_neg fun h => Bool.false_ne_true h.2]
  dsimp only
  split
  · exact hnext _ .AudioMessage
  · rw [if_pos (show speaking.cng.length > 0 by decide)]
    exact hnext _ .AudioMessage_CN

/-- How far the loop is from sending a block. -/
def toSend : StubPc → ℕ
  | .test => 2
  | .callback => 1
  | .audio => 0
  | .outside => 0

/-- Whoever is in the loop goes on to send, unless it is muted. -/
theorem lost_sends (hs : s.Sound) (hl : s.Lost) (hmute : s.worker.uplink.mute_ = false) :
    ∃ cs s' o, Lts.exec (step v) s cs = some (s', o) ∧ ∃ p ∈ Worker.sentOf o, p.isAudio = true := by
  have hreach := Lts.reach_rule (step v)
    (fun s => s.Sound ∧ s.Lost ∧ s.worker.uplink.mute_ = false) (fun s => s.stub.pc = .audio) (fun _ => True)
    (fun s => toSend s.stub.pc) ?_ ⟨hs, hl, hmute⟩
  · obtain ⟨cs, s₁, o₁, hexec, -, hpc, -, -⟩ := hreach
    obtain ⟨u, p, hu⟩ := vadSend_speaking v s₁.worker.uplink
    have hstep : s₁.step v (.audio speaking true) =
        some (⟨{ s₁.worker with uplink := u }, { s₁.stub with pc := .test }⟩, [.sent p]) := by
      rw [step, audioStep, if_pos hpc, hu]
      rfl
    refine ⟨_, _, _, (Lts.exec_concat _).mpr ⟨_, _, _, hexec, hstep, rfl⟩, p, ?_, ?_⟩
    · rw [Worker.sentOf_append]
      exact List.mem_append_right _ (List.mem_singleton_self p)
    · have hp : p ∈ Worker.sentOf ([p].flatMap (Worker.send true)) := List.mem_singleton_self p
      exact sent_audio hu hp
  · rintro s ⟨hs, hl, hmute⟩ hpc
    have hn := hs.inside hl.inside
    have hgo : ∀ s', s.asyncStart = some s' → s'.worker = s.worker → toSend s'.stub.pc < toSend s.stub.pc →
        ∃ a s' o, True ∧ s.step v a = some (s', o) ∧ (s'.Sound ∧ s'.Lost ∧ s'.worker.uplink.mute_ = false) ∧
          toSend s'.stub.pc < toSend s.stub.pc := by
      intro s' hloop hworker hless
      have hstep : s.step v (.net ⟨true, 0, 0, 0, 0⟩) = some (s', []) := by rw [step, if_pos hn, hloop]; rfl
      exact ⟨_, s', [], trivial, hstep, ⟨sound_step hs hstep, (lost_step hs hl hstep).1, hworker ▸ hmute⟩, hless⟩
    cases hpc' : s.stub.pc with
    | outside => exact absurd hpc' hl.inside
    | audio => exact absurd hpc' hpc
    | test =>
      have hloop : s.asyncStart = some { s with stub := { s.stub with pc := .callback } } := by
        rw [asyncStart, hpc', if_pos hl.started]
      exact hpc' ▸ hgo _ hloop rfl (by rw [hpc']; exact Nat.one_lt_two)
    | callback =>
      have hloop : s.asyncStart = some { s with stub := { s.stub with pc := .audio } } := by
        rw [asyncStart, hpc', hmute]
        rfl
      exact hpc' ▸ hgo _ hloop rfl (by rw [hpc']; exact Nat.zero_lt_one)

end

end Headless

open Headless

/-- **When a stop is lost without a sound card.** In every run: the stub is to go on calling the
callback while `syncStop` waits for `syncStart` exactly when the stub was told to stop before it
had started. Then `syncStop` never returns, whatever happens, no `LogoutRequest` is ever sent,
and there is always a way on to where another block of the microphone is sent, unless it is
muted. -/
theorem headless_stop_lost_iff {v : Version} {needAec durationReporter started_ : Bool} {as : List WorkerAction}
    {s : Headless} {o : List WorkerObs} (h : Headless.exec v needAec durationReporter started_ as = some (s, o)) :
    (s.Lost ↔ ¬ Lts.Along (Headless.step v) StartsInTime (Headless.start needAec durationReporter started_) as) ∧
    (s.Lost → ∀ bs s' o', Lts.exec (Headless.step v) s bs = some (s', o') →
      s'.worker.stop ≠ .returned ∧ (∀ p ∈ Worker.sentOf o', p.payloadType ≠ .LogoutRequest) ∧
      (s'.worker.uplink.mute_ = false → ∃ cs s'' o'', Lts.exec (Headless.step v) s' cs = some (s'', o'') ∧
        ∃ p ∈ Worker.sentOf o'', p.isAudio = true)) := by
  obtain ⟨hs, hkept, hlost⟩ := known_exec h
  refine ⟨⟨fun hl hC => ?_, hlost⟩, fun hl bs s' o' hexec => ?_⟩
  · have hidle : s.worker.stop ≠ .idle ∧ s.worker.stop ≠ .endpoint := by
      rcases hl.waits with hw | hw <;> rw [hw] <;> decide
    exact Bool.false_ne_true ((hkept hC hl.inside hidle.1 hidle.2).symm.trans hl.started)
  · have hrun := Lts.history_rule (Headless.step v)
      (fun _ s' o' => (s'.Sound ∧ s'.Lost) ∧ ∀ p ∈ Worker.sentOf o', p.payloadType ≠ .LogoutRequest)
      ⟨⟨hs, hl⟩, fun p hp => absurd hp List.not_mem_nil⟩ ?_ hexec
    · obtain ⟨⟨hs', hl'⟩, hsent⟩ := hrun
      refine ⟨?_, hsent, lost_sends hs' hl'⟩
      rcases hl'.waits with hw | hw <;> rw [hw] <;> decide
    · rintro _ s₁ o₁ a s₂ o₂ ⟨⟨hs₁, hl₁⟩, hsent⟩ hstep
      obtain ⟨hl₂, hsent₂⟩ := lost_step hs₁ hl₁ hstep
      refine ⟨⟨sound_step hs₁ hstep, hl₂⟩, fun p hp => ?_⟩
      rw [Worker.sentOf_append] at hp
      exact (List.mem_append.mp hp).elim (hsent p) (hsent₂ p)

/-- The client is stopped between the confirmation of its login and the start of the audio. -/
theorem headless_stop_lost_iff_early : ∃ s o, Headless.exec sampleVersion false false false
      (sampleConnect ++ [.stop, .stop, sampleNet]) = some (s, o) ∧ s.Lost ∧
    ∀ bs s' o', Lts.exec (Headless.step sampleVersion) s bs = some (s', o') → s'.worker.stop ≠ .returned := by
  have hrun : Headless.exec sampleVersion false false false (sampleConnect ++ [.stop, .stop, sampleNet]) =
    some (_, _) := rfl
  have hl := (headless_stop_lost_iff hrun).1.mpr (by decide)
  exact ⟨_, _, hrun, hl, fun bs s' o' hexec => ((headless_stop_lost_iff hrun).2 hl bs s' o' hexec).1⟩

/-- **A stop that comes in time ends the client.** In every run in which `syncStop` is called when
`syncStart` is in the loop, past it, or has returned: once the stub has been told to stop,
`syncStart`, `syncStop` and the timer take at most thirteen statements, however the run goes on,
and from the call on there is a way to where `syncStop` has returned. -/
theorem headless_stop_completes {v : Version} {needAec durationReporter started_ : Bool} {as : List WorkerAction}
    {s : Headless} {o : List WorkerObs} (h : Headless.exec v needAec durationReporter started_ as = some (s, o))
    (hlate : Lts.Along (Headless.step v) (fun s a => s.project.StopsLate a)
      (Headless.start needAec durationReporter started_) as) (hbegun : s.worker.stop ≠ .idle) :
    (s.worker.stop ≠ .endpoint → ∀ bs s' o', Lts.exec (Headless.step v) s bs = some (s', o') →
      bs.countP Worker.isStatement ≤ 13) ∧
    ∃ bs s' o', Lts.exec (Headless.step v) s bs = some (s', o') ∧ s'.worker.stop = .returned ∧ bs.length ≤ 14 := by
  have hknown := Lts.along_rule (Headless.step v) (fun s a => s.project.StopsLate a)
    (fun s _ => s.Sound ∧ s.Kept ∧ (s.worker.stop = .idle ∨ s.project.Stopping))
    ⟨sound_start .., fun hpc => absurd rfl hpc, Or.inl rfl⟩ (fun s o a s' o' hl hP hstep =>
      ⟨sound_step hP.1 hstep, late_step hP.1 hP.2.1 hP.2.2 hl hstep⟩) h hlate
  obtain ⟨hs, hkept, hp⟩ := hknown
  have hstopping := hp.resolve_left hbegun
  refine ⟨fun htold bs s' o' hexec => ?_, ?_⟩
  · have he : s.Ending := ⟨hstopping, htold, hkept⟩
    have hbound := he.remaining_le
    have hvariant := (Lts.variant_rule (Headless.step v) (fun s => s.Sound ∧ s.Ending) Headless.remaining
      Worker.isStatement (fun _ _ _ _ hP hstep => ⟨⟨sound_step hP.1 hstep, (ending_step hP.1 hP.2 hstep).1⟩,
        (ending_step hP.1 hP.2 hstep).2⟩) hexec ⟨hs, he⟩).2
    omega
  · by_cases htold : s.worker.stop = .endpoint
    · have he₀ : s.worker.endpoint_ = true := hs.kept.mpr (Or.inr (Or.inl htold))
      have hstep : s.step v .stop =
          some (⟨{ s.worker with stop := .clear }, { s.stub with started_ := false }⟩, []) := by
        rw [step, stopStep, if_pos ⟨htold, he₀⟩]
      obtain ⟨hkept', hp'⟩ := late_step hs hkept hp (fun _ hidle => absurd hidle hstopping.begun) hstep
      have he : Headless.Ending ⟨{ s.worker with stop := .clear }, { s.stub with started_ := false }⟩ :=
        ⟨hp'.resolve_left (by simp), by simp, hkept'⟩
      obtain ⟨bs, s', o', hexec, hret, hlen⟩ := he.returns (sound_step hs hstep)
      refine ⟨.stop :: bs, s', _, (Lts.exec_cons_iff _).mpr ⟨_, _, _, hstep, hexec, rfl⟩, hret, ?_⟩
      rw [List.length_cons]
      omega
    · obtain ⟨bs, s', o', hexec, hret, hlen⟩ := Ending.returns (v := v) ⟨hstopping, htold, hkept⟩ hs
      exact ⟨bs, s', o', hexec, hret, hlen.trans (by omega)⟩

/-- The client is stopped while its callback is running. -/
theorem headless_stop_completes_call : ∃ s o, Headless.exec sampleVersion false true false
      (sampleConnect ++ List.replicate 3 sampleNet ++ [.stop]) = some (s, o) ∧ s.stub.pc = .audio ∧
    ∃ bs s' o', Lts.exec (Headless.step sampleVersion) s bs = some (s', o') ∧ s'.worker.stop = .returned ∧
      bs.length ≤ 14 := by
  have hrun : Headless.exec sampleVersion false true false (sampleConnect ++ List.replicate 3 sampleNet ++ [.stop]) =
    some (_, _) := rfl
  exact ⟨_, _, hrun, rfl, (headless_stop_completes hrun (by decide) (by decide)).2⟩

end EasyVoiceCall
