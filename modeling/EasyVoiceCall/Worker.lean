/-
# `Worker`: the threads of a client

`client_essential/Worker.cpp`. After `asyncStart` has returned five threads run
the worker's code: `syncStart` on the thread it made, `syncStop` on the caller's,
the duration timer, the audio callback, and the network client's receiver. A
step is one statement of one of them, so a run is an interleaving; a member is
written and read in one step. The audio callback tests `mute_` and later sends:
two steps, and stopping the stream waits for the second. What else it does
touches members that only it uses.

An endpoint pointer is null or not (`endpoint_`), and its stream runs or does not
(`running`). A fallible statement is told whether it succeeds. A step is `none`
where its thread cannot take it: it waits in a `join`, or the program ends.

Key theorems: `Worker.netStep_frame`, `Worker.stopStep_frame`, `Worker.net_frame`, `Worker.stop_frame`.
-/
import EasyVoiceCall.Uplink

namespace EasyVoiceCall

open Buffer NetPacket

inductive NetworkState
  | Disconnected
  | Connecting
  | Connected
  deriving DecidableEq

/-- The next statement of `syncStart`; `returned` with whether it returned 0. -/
inductive NetPc
  | entry
  | init
  | connecting (i : ℕ)
  | login
  | waiting (i : ℕ)
  | check
  | loadEndpoint
  | startAudio
  | startTimer
  | test
  | heartbeat
  | logout
  | returned (ok : Bool)
  deriving DecidableEq

/-- The next statement of `syncStop`; `idle` before it is called. -/
inductive StopPc
  | idle
  | endpoint
  | clear
  | joinNet
  | joinTimer
  | returned
  deriving DecidableEq

/-- The duration timer's thread. -/
inductive TimerPc
  | absent
  | test
  | body
  | returned
  deriving DecidableEq

/-- The audio callback: not running, or past its test of `mute_`. -/
inductive AudioPc
  | idle
  | unmuted
  deriving DecidableEq

structure Worker where
  gotoStop_ : Bool
  endpoint_ : Bool
  running : Bool
  isLogin : Bool
  clientUp : Bool
  durationReporter_ : Bool
  heartbeatTime : Option ℤ
  sn_sendingHeartBeat_ : UInt32
  uplink : Uplink
  net : NetPc
  stop : StopPc
  timer : TimerPc
  callback : AudioPc

/-- What a statement of `syncStart` meets: whether it succeeds, the readings of
the clock, the uptime. -/
structure NetEnv where
  ok : Bool
  first : ℤ
  now : ℤ
  later : ℤ
  upTime : UInt32

inductive WorkerAction
  | net (env : NetEnv)
  | stop
  | timer
  | callback
  | audio (f : Frame) (ok : Bool)
  | receive (type : PayloadType) (ok : Bool) (upTime : UInt32)
  | setMute (mute : Bool)

/-- What an observer sees: datagrams that go out, calls of `toggleState`. -/
inductive WorkerObs
  | sent (packet : NetPacket)
  | toggled (newState : NetworkState)
  deriving DecidableEq

namespace Worker

/-- An initialised worker once `asyncStart` has returned. -/
def start (needAec durationReporter : Bool) : Worker :=
  ⟨false, true, false, false, false, durationReporter, none, 0, Uplink.create needAec, .entry, .idle, .absent,
    .idle⟩

/-- `pClient->send`: an error of the socket is caught and logged. -/
def send (ok : Bool) (packet : NetPacket) : List WorkerObs := if ok then [.sent packet] else []

/-- `sendHeartbeat`. -/
def sendHeartbeat (v : Version) (self : Worker) (env : NetEnv) : Worker × List WorkerObs :=
  let lastTimeStamp := self.heartbeatTime.getD env.first
  if env.now - lastTimeStamp > 10 * Uplink.seconds then
    let sn := self.sn_sendingHeartBeat_ + 1
    ({ self with sn_sendingHeartBeat_ := sn, heartbeatTime := some env.later },
      send env.ok (ofType v env.upTime .HeartBeatRequest sn))
  else ({ self with heartbeatTime := some lastTimeStamp }, [])

/-- `syncStart`, statement by statement. -/
def netStep (v : Version) (self : Worker) (env : NetEnv) : Option (Worker × List WorkerObs) :=
  match self.net with
  | .entry => some ({ self with gotoStop_ := false, isLogin := false, net := .init }, [])
  | .init =>
    -- `pClient->init` throws where the host does not resolve
    if env.ok then some ({ self with clientUp := true, net := .connecting 0 }, [])
    else some ({ self with net := .returned false }, [])
  | .connecting i =>
    if env.ok then some ({ self with net := .login }, [])
    else if i + 1 < 10 then some ({ self with net := .connecting (i + 1) }, [])
    else some ({ self with net := .returned false }, [.toggled .Disconnected])
  | .login => some ({ self with net := .waiting 0 }, send env.ok (ofType v env.upTime .LoginRequest 0))
  | .waiting i =>
    if self.isLogin then some ({ self with net := .check }, [])
    else if i + 1 < 10 then some ({ self with net := .waiting (i + 1) }, [])
    else some ({ self with net := .check }, [])
  | .check =>
    if !self.isLogin then some ({ self with net := .returned false }, [.toggled .Disconnected])
    else some ({ self with net := .loadEndpoint }, [.toggled .Connected])
  | .loadEndpoint =>
    -- a null `endpoint_` is dereferenced
    if self.endpoint_ then some ({ self with net := .startAudio }, []) else none
  | .startAudio => some ({ self with running := self.running || env.ok, net := .startTimer }, [])
  | .startTimer =>
    if !self.durationReporter_ then some ({ self with net := .test }, [])
    else if env.ok then some ({ self with timer := .test, net := .test }, [])
    else some ({ self with net := .returned false }, [])
  | .test => some ({ self with net := if !self.gotoStop_ then .heartbeat else .logout }, [])
  | .heartbeat =>
    let r := self.sendHeartbeat v env
    some ({ r.1 with net := .test }, r.2)
  | .logout => some ({ self with net := .returned true }, send env.ok (ofType v env.upTime .LogoutRequest 0))
  | .returned _ => none

/-- `syncStop`, statement by statement. -/
def stopStep (self : Worker) : Option (Worker × List WorkerObs) :=
  match self.stop with
  | .idle => some ({ self with gotoStop_ := true, stop := .endpoint }, [])
  | .endpoint =>
    if !self.endpoint_ then some ({ self with stop := .joinNet }, [])
    else if self.callback = .idle then some ({ self with running := false, stop := .clear }, [])
    else none
  | .clear => some ({ self with endpoint_ := false, stop := .joinNet }, [])
  | .joinNet =>
    match self.net with
    | .returned _ => some ({ self with stop := .joinTimer }, [])
    | _ => none
  | .joinTimer =>
    if self.timer = .absent ∨ self.timer = .returned then some ({ self with stop := .returned }, []) else none
  | .returned => none

/-- The duration timer: tests the flag, sleeps and reports. -/
def timerStep (self : Worker) : Option (Worker × List WorkerObs) :=
  match self.timer with
  | .test => some ({ self with timer := if !self.gotoStop_ then .body else .returned }, [])
  | .body => some ({ self with timer := .test }, [])
  | .absent => none
  | .returned => none

/-- The audio callback begins, while the stream runs. -/
def callbackStep (self : Worker) : Option (Worker × List WorkerObs) :=
  if self.running ∧ self.callback = .idle then
    some ({ self with callback := if self.uplink.mute_ then .idle else .unmuted }, [])
  else none

/-- The rest of the audio callback, on a block. -/
def audioStep (v : Version) (self : Worker) (f : Frame) (ok : Bool) : Option (Worker × List WorkerObs) :=
  if self.callback = .unmuted then
    match self.uplink.vadSend v f with
    | none => none
    | some (uplink, packets) => some ({ self with uplink, callback := .idle }, packets.flatMap (send ok))
  else none

/-- The callback of `pClient`, on a packet of the type. -/
def receiveStep (v : Version) (self : Worker) (type : PayloadType) (ok : Bool) (upTime : UInt32) :
    Option (Worker × List WorkerObs) :=
  if self.clientUp then
    if type = .HeartBeatRequest then some (self, send ok (ofType v upTime .HeartBeatResponse 0))
    else if type = .LoginResponse then some ({ self with isLogin := true }, [])
    else some (self, [])
  else none

def step (v : Version) (self : Worker) : WorkerAction → Option (Worker × List WorkerObs)
  | .net env => self.netStep v env
  | .stop => self.stopStep
  | .timer => self.timerStep
  | .callback => self.callbackStep
  | .audio f ok => self.audioStep v f ok
  | .receive type ok upTime => self.receiveStep v type ok upTime
  | .setMute mute => some ({ self with uplink := { self.uplink with mute_ := mute } }, [])

/-- A run from the return of `asyncStart`. -/
abbrev exec (v : Version) (needAec durationReporter : Bool) (as : List WorkerAction) :
    Option (Worker × List WorkerObs) :=
  Lts.exec (step v) (start needAec durationReporter) as

/-- The datagrams sent. -/
def sentOf (o : List WorkerObs) : List NetPacket :=
  o.filterMap fun
    | .sent p => some p
    | .toggled _ => none

/-! ### What a step does -/

theorem sentOf_append (a b : List WorkerObs) : sentOf (a ++ b) = sentOf a ++ sentOf b := List.filterMap_append

theorem mem_sentOf {o : List WorkerObs} {p : NetPacket} : p ∈ sentOf o ↔ WorkerObs.sent p ∈ o := by
  simp only [sentOf, List.mem_filterMap]
  constructor
  · rintro ⟨x, hx, he⟩
    cases x <;> simp at he
    rw [← he]
    exact hx
  · exact fun h => ⟨_, h, rfl⟩

theorem mem_send {ok : Bool} {p q : NetPacket} (h : WorkerObs.sent p ∈ send ok q) : p = q := by
  unfold send at h
  split at h
  · cases List.mem_singleton.mp h
    rfl
  · cases h

theorem sendHeartbeat_frame (v : Version) (s : Worker) (env : NetEnv) :
    let r := s.sendHeartbeat v env
    r.1.stop = s.stop ∧ r.1.endpoint_ = s.endpoint_ ∧ r.1.gotoStop_ = s.gotoStop_ := by
  unfold sendHeartbeat
  dsimp only
  split
  · exact ⟨rfl, rfl, rfl⟩
  · exact ⟨rfl, rfl, rfl⟩

/-- `syncStart` clears the flag in its first statement and leaves it alone after, as it
does the endpoint. -/
theorem netStep_frame {v : Version} {s s' : Worker} {env : NetEnv} {o' : List WorkerObs}
    (h : s.netStep v env = some (s', o')) :
    s'.stop = s.stop ∧ s'.endpoint_ = s.endpoint_ ∧
      s'.gotoStop_ = if s.net = .entry then false else s.gotoStop_ := by
  obtain ⟨h1, h2, h3⟩ := sendHeartbeat_frame v s env
  cases hn : s.net <;> simp only [netStep, hn] at h
  case heartbeat =>
    cases h
    exact ⟨h1, h2, h3⟩
  all_goals try split_ifs at h
  all_goals cases h <;> exact ⟨rfl, rfl, rfl⟩

/-- `syncStop` sets the flag in its first statement and leaves it alone after. -/
theorem stopStep_frame {s s' : Worker} {o' : List WorkerObs} (h : s.stopStep = some (s', o')) :
    s'.net = s.net ∧ o' = [] ∧ s'.gotoStop_ = if s.stop = .idle then true else s.gotoStop_ := by
  cases hs : s.stop <;> simp only [stopStep, hs] at h
  case joinNet =>
    split at h
    · cases h
      exact ⟨rfl, rfl, rfl⟩
    · cases h
  all_goals try split_ifs at h
  all_goals cases h <;> simp

/-- **What a step of the other threads does**: it leaves all of it alone, and sends nothing but
the packets of a callback and the answer to a heartbeat. -/
theorem step_other {v : Version} {s s' : Worker} {a : WorkerAction} {o' : List WorkerObs}
    (h : s.step v a = some (s', o')) (hnet : ∀ env, a ≠ .net env) (hstop : a ≠ .stop) :
    (s'.net = s.net ∧ s'.stop = s.stop ∧ s'.endpoint_ = s.endpoint_ ∧ s'.gotoStop_ = s.gotoStop_) ∧
    (o' = [] ∨
      (∃ f ok u packets, a = .audio f ok ∧ s.uplink.vadSend v f = some (u, packets) ∧
        o' = packets.flatMap (send ok)) ∨
      ∃ ok up, a = .receive .HeartBeatRequest ok up ∧ o' = send ok (ofType v up .HeartBeatResponse 0)) := by
  cases a with
  | net env => exact absurd rfl (hnet env)
  | stop => exact absurd rfl hstop
  | timer =>
    simp only [step, timerStep] at h
    split at h <;> cases h <;> exact ⟨⟨rfl, rfl, rfl, rfl⟩, Or.inl rfl⟩
  | callback =>
    simp only [step, callbackStep] at h
    split at h <;> cases h
    exact ⟨⟨rfl, rfl, rfl, rfl⟩, Or.inl rfl⟩
  | audio f ok =>
    simp only [step, audioStep] at h
    split at h
    · split at h
      · cases h
      · rename_i u packets hu
        cases h
        exact ⟨⟨rfl, rfl, rfl, rfl⟩, Or.inr (Or.inl ⟨f, ok, u, packets, rfl, hu, rfl⟩)⟩
    · cases h
  | receive type ok up =>
    simp only [step, receiveStep] at h
    split_ifs at h with hup hreq hresp
    · subst hreq
      cases h
      exact ⟨⟨rfl, rfl, rfl, rfl⟩, Or.inr (Or.inr ⟨ok, up, rfl, rfl⟩)⟩
    · cases h
      exact ⟨⟨rfl, rfl, rfl, rfl⟩, Or.inl rfl⟩
    · cases h
      exact ⟨⟨rfl, rfl, rfl, rfl⟩, Or.inl rfl⟩
  | setMute mute =>
    cases h
    exact ⟨⟨rfl, rfl, rfl, rfl⟩, Or.inl rfl⟩

/-- Only `syncStart` moves itself. -/
theorem net_frame {v : Version} {s s' : Worker} {a : WorkerAction} {o' : List WorkerObs}
    (h : s.step v a = some (s', o')) (hnet : ∀ env, a ≠ .net env) : s'.net = s.net := by
  by_cases hstop : a = .stop
  · subst hstop
    exact (stopStep_frame h).1
  · exact (step_other h hnet hstop).1.1

/-- Only `syncStop` moves itself and writes `endpoint_`. -/
theorem stop_frame {v : Version} {s s' : Worker} {a : WorkerAction} {o' : List WorkerObs}
    (h : s.step v a = some (s', o')) (hstop : a ≠ .stop) :
    s'.stop = s.stop ∧ s'.endpoint_ = s.endpoint_ := by
  by_cases hnet : ∃ env, a = .net env
  · obtain ⟨env, rfl⟩ := hnet
    obtain ⟨hs, he, -⟩ := netStep_frame h
    exact ⟨hs, he⟩
  · obtain ⟨⟨-, hs, he, -⟩, -⟩ := step_other h (fun env he => hnet ⟨env, he⟩) hstop
    exact ⟨hs, he⟩

end Worker

end EasyVoiceCall
