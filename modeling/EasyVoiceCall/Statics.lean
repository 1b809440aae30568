/-
# What the calls of a window share

`sendHeartbeat` and `nsAecVolumeVadSend` of `client_essential/Worker.cpp` keep the time at which they last let
something through in a `static`: there is one for all workers that a window makes, while the serial
numbers, `vadCounter_` and `sendOpus_` are each worker's own. Both are a `Throttle`, of ten seconds and of one.

So heartbeats are more than ten seconds apart, whichever call they are of (`heartbeats_paced`). The other
throttle ends the second in which voice is looked for. A call without voice so far is sent as speech
until it is the one to find a second over (`silence_sent_as_speech_iff`): the first call of the program
for a second, and a later one, which finds the second over that the call before has begun, not at all.

Key definitions: `Window.rounds`, `Window.keepalive`, `Window.blocks`, `Window.vadWindow`.
Key theorems: `Worker.statics_step`, `Window.statics_step`, `Window.paced_step`, `Window.heard_step`,
`heartbeats_paced`, `silence_sent_as_speech_iff`.
-/
import EasyVoiceCall.Lib.Throttle
import EasyVoiceCall.MainWindow

namespace EasyVoiceCall

open Buffer NetPacket

/-! ### A worker -/

namespace Worker

/-- What a worker has of its own beside the `static`s. -/
def counters (self : Worker) : UInt32 × UInt8 × Bool :=
  (self.sn_sendingHeartBeat_, self.uplink.vadCounter_, self.uplink.sendOpus_)

/-- The `static`s, as the worker finds them. -/
def statics (self : Worker) : Option ℤ × Option ℤ := (self.heartbeatTime, self.uplink.lastTimeStamp)

/-- The types that `syncStart` and the receiver send, but for heartbeats. -/
theorem sent_quiet {v : Version} {up : UInt32} {t : PayloadType} {ok : Bool} (ht : t ≠ .HeartBeatRequest) :
    ∀ p ∈ sentOf (send ok (ofType v up t 0)), p.payloadType ≠ .HeartBeatRequest := by
  intro p hp
  rw [mem_send (mem_sentOf.mp hp), payloadType_ofType]
  exact ht

theorem statics_stopStep {s s' : Worker} {o : List WorkerObs} (h : s.stopStep = some (s', o)) :
    s'.counters = s.counters ∧ s'.statics = s.statics := by
  cases hs : s.stop <;> simp only [stopStep, hs] at h
  case joinNet =>
    split at h <;> cases h
    exact ⟨rfl, rfl⟩
  all_goals try split_ifs at h
  all_goals cases h <;> exact ⟨rfl, rfl⟩

/-- **One step**: a heartbeat may be sent, a block, or neither the `static`s nor the counters change. -/
theorem statics_step {v : Version} {s s' : Worker} {a : WorkerAction} {o : List WorkerObs}
    (h : s.step v a = some (s', o)) :
    (∃ env, a = .net env ∧ s.net = .heartbeat ∧ s' = { (s.sendHeartbeat v env).1 with net := .test } ∧
      o = (s.sendHeartbeat v env).2) ∨
    (∃ f ok u packets, a = .audio f ok ∧ s.uplink.vadSend v f = some (u, packets) ∧
      s' = { s with uplink := u, callback := .idle } ∧ o = packets.flatMap (send ok) ∧
      ∀ p ∈ sentOf o, p.payloadType ≠ .HeartBeatRequest) ∨
    ((∀ env, a = .net env → s.net ≠ .heartbeat) ∧ (∀ f ok, a ≠ .audio f ok) ∧ s'.counters = s.counters ∧
      s'.statics = s.statics ∧ ∀ p ∈ sentOf o, p.payloadType ≠ .HeartBeatRequest) := by
  have hnil : ∀ p ∈ sentOf [], p.payloadType ≠ .HeartBeatRequest := fun p hp => absurd hp List.not_mem_nil
  cases a with
  | net env =>
    have hstep : s.netStep v env = some (s', o) := h
    by_cases hbeat : s.net = .heartbeat
    · rw [netStep, hbeat] at hstep
      cases hstep
      exact Or.inl ⟨env, rfl, hbeat, rfl, rfl⟩
    refine Or.inr (Or.inr ⟨fun _ _ => hbeat, fun f ok he => (by cases he), ?_⟩)
    cases hn : s.net <;> simp only [netStep, hn] at hstep
    case heartbeat => exact absurd hn hbeat
    case login =>
      cases hstep
      exact ⟨rfl, rfl, sent_quiet (by decide)⟩
    case logout =>
      cases hstep
      exact ⟨rfl, rfl, sent_quiet (by decide)⟩
    all_goals try split_ifs at hstep
    all_goals cases hstep <;> exact ⟨rfl, rfl, hnil⟩
  | stop =>
    have hstep : s.stopStep = some (s', o) := h
    refine Or.inr (Or.inr ⟨fun env he => (by cases he), fun f ok he => (by cases he), ?_⟩)
    rw [(stopStep_frame hstep).2.1]
    exact ⟨(statics_stopStep hstep).1, (statics_stopStep hstep).2, hnil⟩
  | timer =>
    refine Or.inr (Or.inr ⟨fun env he => (by cases he), fun f ok he => (by cases he), ?_⟩)
    simp only [step, timerStep] at h
    split at h <;> cases h <;> exact ⟨rfl, rfl, hnil⟩
  | callback =>
    refine Or.inr (Or.inr ⟨fun env he => (by cases he), fun f ok he => (by cases he), ?_⟩)
    simp only [step, callbackStep] at h
    split at h <;> cases h
    exact ⟨rfl, rfl, hnil⟩
  | audio f ok =>
    simp only [step, audioStep] at h
    split_ifs at h
    split at h
    · cases h
    · rename_i u packets hu
      cases h
      refine Or.inr (Or.inl ⟨f, ok, u, packets, rfl, hu, rfl, rfl, fun p hp => ?_⟩)
      obtain ⟨q, hq, hpq⟩ := List.mem_flatMap.mp (mem_sentOf.mp hp)
      rw [mem_send hpq]
      obtain ⟨rfl, -⟩ | ⟨q', rfl, -, -, ht⟩ := Uplink.vadSend_sends hu
      · cases hq
      · rw [List.mem_singleton.mp hq]
        rcases ht with ht | ht <;> rw [ht] <;> decide
  | receive type ok up =>
    refine Or.inr (Or.inr ⟨fun env he => (by cases he), fun f ok he => (by cases he), ?_⟩)
    simp only [step, receiveStep] at h
    split_ifs at h <;> cases h
    · exact ⟨rfl, rfl, sent_quiet (by decide)⟩
    · exact ⟨rfl, rfl, hnil⟩
    · exact ⟨rfl, rfl, hnil⟩
  | setMute mute =>
    cases h
    exact Or.inr (Or.inr ⟨fun env he => (by cases he), fun f ok he => (by cases he), rfl, rfl, hnil⟩)

end Worker

/-! ### The window -/

namespace Window

/-- What a step of the main thread leaves the workers of what is their own: what they had, or what a new
one has. -/
def Kept {X : Type*} (own : Worker → X) (fresh : X) (workers workers' : List Session) : Prop :=
  workers.length ≤ workers'.length ∧ ∀ k session', workers'[k]? = some session' →
    (∃ session, workers[k]? = some session ∧ own session'.worker = own session.worker) ∨
    (workers.length ≤ k ∧ own session'.worker = fresh)

namespace Kept

variable {X : Type*} {own : Worker → X} {fresh : X} {workers workers' : List Session}

theorem refl (workers : List Session) : Kept own fresh workers workers :=
  ⟨le_refl _, fun _ session h => Or.inl ⟨session, h, rfl⟩⟩

/-- A part of what is kept. -/
theorem map {Y : Type*} (part : X → Y) (h : Kept own fresh workers workers') :
    Kept (fun w => part (own w)) (part fresh) workers workers' := by
  refine ⟨h.1, fun k session' hk => ?_⟩
  obtain ⟨session, hfound, hc⟩ | ⟨hnew, hc⟩ := h.2 k session' hk
  · exact Or.inl ⟨session, hfound, congrArg part hc⟩
  · exact Or.inr ⟨hnew, congrArg part hc⟩

/-- Another session takes the place of one. -/
theorem set {k : ℕ} {session session' : Session} (h : workers[k]? = some session)
    (hc : own session'.worker = own session.worker) : Kept own fresh workers (workers.set k session') := by
  refine ⟨(List.length_set ..).ge, fun j s hj => Or.inl ?_⟩
  rw [List.getElem?_set] at hj
  split_ifs at hj with hjk
  · cases hj
    exact ⟨session, hjk ▸ h, hc⟩
  · exact ⟨s, hj, rfl⟩

/-- A new session. -/
theorem concat {session : Session} (h : Kept own fresh workers workers') (hlen : workers'.length = workers.length)
    (hc : own session.worker = fresh) : Kept own fresh workers (workers' ++ [session]) := by
  refine ⟨by rw [List.length_append, hlen]; omega, fun k s hk => ?_⟩
  rcases Nat.lt_or_ge k workers'.length with hlt | hge
  · rw [List.getElem?_append_left hlt] at hk
    exact h.2 k s hk
  · have hs : s = session := by
      rw [List.getElem?_append_right hge] at hk
      exact List.mem_singleton.mp (List.mem_of_getElem? hk)
    exact Or.inr ⟨hlen ▸ hge, hs ▸ hc⟩

end Kept

/-- Nothing of a worker but its `counters` is looked at. -/
abbrev CountersKept : List Session → List Session → Prop := Kept Worker.counters (0, 0, true)

theorem counters_destroyed {w w' : Worker} (h : destroyed w = some w') : w'.counters = w.counters := by
  obtain ⟨⟨w₁, o⟩, hexec, rfl⟩ := Option.map_eq_some_iff.mp h
  exact Lts.invariant_rule (fun w (_ : Unit) => Worker.stopStep w) (fun w' => w'.counters = w.counters) rfl
    (fun _ _ _ _ hw hstep => (Worker.statics_stopStep hstep).1.trans hw) hexec

theorem statics_setWorker {self self' : Window} {session : Session} {o : List WindowObs}
    (hc : session.worker.counters = (0, 0, true)) (h : self.setWorker session = some (self', o)) :
    CountersKept self.workers self'.workers ∧ self'.heartbeatTime = self.heartbeatTime ∧
      self'.lastTimeStamp = self.lastTimeStamp ∧ o = [.created] := by
  unfold setWorker at h
  split at h
  · rename_i k old hk hold
    split at h
    · cases h
    · rename_i w hw
      cases h
      have hfound : self.workers[k]? = some old := by rwa [current, hk] at hold
      have hset : CountersKept self.workers (self.workers.set k { old with worker := w }) :=
        .set hfound (counters_destroyed hw)
      exact ⟨hset.concat (List.length_set ..) hc, rfl, rfl, rfl⟩
  · cases h
    exact ⟨(Kept.refl _).concat rfl hc, rfl, rfl, rfl⟩

theorem statics_event (self : Window) (e : WindowEvent) :
    (self.event e).heartbeatTime = self.heartbeatTime ∧ (self.event e).lastTimeStamp = self.lastTimeStamp := by
  cases e with
  | AudioVolume aivl =>
    unfold event
    dsimp only
    split <;> exact ⟨rfl, rfl⟩
  | NetworkState state_ => cases state_ <;> exact ⟨rfl, rfl⟩
  | _ => exact ⟨rfl, rfl⟩

theorem statics_micMute (self : Window) (checked : Bool) :
    let window := self.on_toggleButton_micMute_clicked checked
    CountersKept self.workers window.workers ∧ window.heartbeatTime = self.heartbeatTime ∧
      window.lastTimeStamp = self.lastTimeStamp := by
  unfold on_toggleButton_micMute_clicked
  cases hk : self.worker_ with
  | none =>
    dsimp only
    split <;> exact ⟨.refl _, rfl, rfl⟩
  | some k =>
    cases hsession : self.workers[k]? with
    | none =>
      simp only [current, hsession, Option.bind_some]
      split <;> exact ⟨.refl _, rfl, rfl⟩
    | some session =>
      simp only [current, hsession, Option.bind_some]
      split <;> exact ⟨.set hsession rfl, rfl, rfl⟩

/-- **One step** is of a worker's thread, which finds the `static`s as they are, or leaves them alone. -/
theorem statics_step {v : Version} {self self' : Window} {a : WindowAction} {o : List WindowObs}
    (h : self.step v a = some (self', o)) :
    (∃ k b level_ recentMaxLevel_ session w o₁ s, a = .thread k b level_ recentMaxLevel_ ∧
      self.workers[k]? = some session ∧ (self.withStatics session.worker).step v b = some (w, o₁) ∧
      o = o₁.map (.worker k) ∧ self'.workers = self.workers.set k { session with worker := w, s } ∧
      self'.heartbeatTime = w.heartbeatTime ∧ self'.lastTimeStamp = w.uplink.lastTimeStamp) ∨
    ((∀ k b level_ recentMaxLevel_, a ≠ .thread k b level_ recentMaxLevel_) ∧
      CountersKept self.workers self'.workers ∧ self'.heartbeatTime = self.heartbeatTime ∧
      self'.lastTimeStamp = self.lastTimeStamp ∧ ∀ k x, .worker k x ∉ o) := by
  have hnil : ∀ k x, (.worker k x : WindowObs) ∉ [] := fun k x => List.not_mem_nil
  have hkept : CountersKept self.workers self.workers := .refl _
  cases a with
  | event =>
    refine Or.inr ⟨fun _ _ _ _ he => (by cases he), ?_⟩
    simp only [step] at h
    split at h
    · cases h
    · split at h
      · cases h
      · rename_i e events he
        cases h
        obtain ⟨-, hworkers, -, -⟩ := event_frame { self with events } e
        rw [hworkers]
        exact ⟨hkept, (statics_event _ e).1, (statics_event _ e).2, hnil⟩
  | clickConnecting r =>
    refine Or.inr ⟨fun _ _ _ _ he => (by cases he), ?_⟩
    have hmade : ∀ {session : Session}, session.worker.counters = (0, 0, true) →
        (self.onNetworkChanged .Connecting).setWorker session = some (self', o) →
        CountersKept self.workers self'.workers ∧ self'.heartbeatTime = self.heartbeatTime ∧
          self'.lastTimeStamp = self.lastTimeStamp ∧ ∀ k x, .worker k x ∉ o := by
      intro session hc hs
      obtain ⟨hworkers, hbeat, hstamp, rfl⟩ := statics_setWorker hc hs
      exact ⟨hworkers, hbeat, hstamp, fun k x hx => by cases List.mem_singleton.mp hx⟩
    simp only [step] at h
    split_ifs at h with hstop hbutton
    · cases hstate : self.currentUiState_ <;> simp only [on_pushButton_connecting_clicked, hstate] at h
      case Disconnected =>
        cases r with
        | caught =>
          cases h
          exact ⟨hkept, rfl, rfl, hnil⟩
        | caughtLater needAec => exact hmade rfl h
        | started needAec => exact hmade rfl h
      case Connecting =>
        cases h
        exact ⟨hkept, rfl, rfl, hnil⟩
      case Connected => split at h <;> cases h <;> exact ⟨hkept, rfl, rfl, hnil⟩
    · cases h
      exact ⟨hkept, rfl, rfl, hnil⟩
  | clickMicMute =>
    refine Or.inr ⟨fun _ _ _ _ he => (by cases he), ?_⟩
    simp only [step] at h
    split_ifs at h
    cases h
    obtain ⟨hworkers, hbeat, hstamp⟩ := statics_micMute self !self.ui.toggleButton_micMute
    exact ⟨hworkers, hbeat, hstamp, fun k x hx => by cases List.mem_singleton.mp hx⟩
  | keyF2 =>
    refine Or.inr ⟨fun _ _ _ _ he => (by cases he), ?_⟩
    simp only [step] at h
    split_ifs at h
    cases h
    exact ⟨hkept, rfl, rfl, hnil⟩
  | syncStop =>
    refine Or.inr ⟨fun _ _ _ _ he => (by cases he), ?_⟩
    simp only [step] at h
    split_ifs at h
    unfold syncStop at h
    split at h
    · rename_i k session hk hsession
      split_ifs at h
      · cases h
        exact ⟨hkept, rfl, rfl, hnil⟩
      · split at h
        · cases h
        · rename_i w o₁ hstop
          cases h
          have hfound : self.workers[k]? = some session := by rwa [current, hk] at hsession
          exact ⟨.set hfound (Worker.statics_stopStep hstop).1, rfl, rfl, hnil⟩
    · cases h
  | thread k a level_ recentMaxLevel_ =>
    obtain ⟨session, w, o₁, s, hsession, -, -, hstep, ho, rfl⟩ := thread_spec h
    exact Or.inl ⟨k, a, level_, recentMaxLevel_, session, w, o₁, s, rfl, hsession, hstep, ho, rfl, rfl, rfl⟩
  | outVolume k level_ recentMaxLevel_ =>
    refine Or.inr ⟨fun _ _ _ _ he => (by cases he), ?_⟩
    simp only [step] at h
    split at h
    · cases h
    · split_ifs at h
      cases h
      exact ⟨hkept, rfl, rfl, hnil⟩

/-! ### Heartbeats -/

/-- The loop of worker `k` comes to `sendHeartbeat`. -/
def roundsAt (self : Window) : WindowAction → List (ℕ × NetEnv)
  | .thread k (.net env) _ _ =>
    match self.workers[k]? with
    | some session => if session.worker.net = .heartbeat then [(k, env)] else []
    | none => []
  | _ => []

/-- The rounds of the loops of all workers, in a run. -/
def rounds (v : Version) (as : List WindowAction) : List (ℕ × NetEnv) := Lts.record (step v) roundsAt create as

/-- Ten seconds. -/
def keepalive : Throttle (ℕ × NetEnv) ℤ := ⟨(·.2.first), (·.2.now), (·.2.later), 10 * Uplink.seconds⟩

/-- The heartbeats that worker `k` sent. -/
def beatsOf (k : ℕ) (o : List WindowObs) : List NetPacket :=
  o.filterMap fun
    | .worker j (.sent p) => if j = k ∧ p.payloadType = .HeartBeatRequest then some p else none
    | _ => none

/-- What a worker sends in the rounds that pass: they are numbered, and an error of the socket loses one. -/
def heartbeats (v : Version) (passed : List (ℕ × NetEnv)) : List NetPacket :=
  (passed.zipIdx 1).filterMap fun (r, n) =>
    if r.2.ok then some (ofType v r.2.upTime .HeartBeatRequest (UInt32.ofNat n)) else none

/-- Those of worker `k`. -/
def passedOf (rounds : List (ℕ × NetEnv)) (k : ℕ) : List (ℕ × NetEnv) := (keepalive.passed rounds).filter (·.1 = k)

theorem beatsOf_append (k : ℕ) (a b : List WindowObs) : beatsOf k (a ++ b) = beatsOf k a ++ beatsOf k b :=
  List.filterMap_append

/-- Where no heartbeat is sent. -/
theorem beatsOf_eq_nil {k : ℕ} {o : List WindowObs}
    (h : ∀ j p, .worker j (.sent p) ∈ o → p.payloadType ≠ .HeartBeatRequest) : beatsOf k o = [] := by
  refine List.filterMap_eq_nil_iff.mpr fun x hx => ?_
  split
  · exact if_neg fun hp => h _ _ hx hp.2
  · rfl

theorem heartbeats_concat (v : Version) (passed : List (ℕ × NetEnv)) (r : ℕ × NetEnv) :
    heartbeats v (passed ++ [r]) = heartbeats v passed ++
      if r.2.ok then [ofType v r.2.upTime .HeartBeatRequest (UInt32.ofNat (passed.length + 1))] else [] := by
  rw [heartbeats, List.zipIdx_append, List.filterMap_append, Nat.add_comm]
  congr 1
  dsimp only [List.zipIdx_cons, List.zipIdx_nil, List.filterMap_cons]
  split <;> simp_all

/-- The throttle holds the `static`, and the workers count what has passed. -/
structure Paced (v : Version) (rounds : List (ℕ × NetEnv)) (window : Window) (o : List WindowObs) : Prop where
  stamp : window.heartbeatTime = keepalive.since rounds
  known : ∀ r ∈ rounds, r.1 < window.workers.length
  serial : ∀ k session, window.workers[k]? = some session →
    session.worker.sn_sendingHeartBeat_ = UInt32.ofNat (passedOf rounds k).length
  sent : ∀ k, beatsOf k o = heartbeats v (passedOf rounds k)

theorem passedOf_concat (rounds : List (ℕ × NetEnv)) (r : ℕ × NetEnv) (k : ℕ) :
    passedOf (rounds ++ [r]) k =
      if keepalive.Passes (keepalive.since rounds) r ∧ r.1 = k then passedOf rounds k ++ [r]
      else passedOf rounds k := by
  rw [passedOf, Throttle.passed_concat]
  by_cases hpass : keepalive.Passes (keepalive.since rounds) r
  · rw [if_pos hpass, List.filter_append]
    by_cases hk : r.1 = k
    · rw [if_pos ⟨hpass, hk⟩, List.filter_cons_of_pos (by simpa using hk)]
      rfl
    · rw [if_neg fun hc => hk hc.2, List.filter_cons_of_neg (by simpa using hk)]
      exact List.append_nil _
  · rw [if_neg hpass, if_neg fun hc => hpass hc.1]
    rfl

/-- A worker that is not made yet has had no rounds. -/
theorem passedOf_eq_nil {rounds : List (ℕ × NetEnv)} {n k : ℕ} (h : ∀ r ∈ rounds, r.1 < n) (hk : n ≤ k) :
    passedOf rounds k = [] := by
  refine List.filter_eq_nil_iff.mpr fun r hr => ?_
  have hlt := h r (keepalive.passed_subset rounds hr)
  simp only [decide_eq_true_eq]
  omega

theorem sent_thread {k : ℕ} {o : List WorkerObs}
    (h : ∀ p ∈ Worker.sentOf o, p.payloadType ≠ .HeartBeatRequest) :
    ∀ j p, .worker j (.sent p) ∈ o.map (WindowObs.worker k) → p.payloadType ≠ .HeartBeatRequest := by
  intro j p hin
  obtain ⟨x, hx, he⟩ := List.mem_map.mp hin
  cases he
  exact h p (Worker.mem_sentOf.mpr hx)

/-- What changes neither the `static` nor a serial number, and sends no heartbeat. -/
theorem Paced.quiet {v : Version} {rounds : List (ℕ × NetEnv)} {window window' : Window} {o o' : List WindowObs}
    (h : Paced v rounds window o) (hstamp : window'.heartbeatTime = window.heartbeatTime)
    (hkept : Kept Worker.sn_sendingHeartBeat_ 0 window.workers window'.workers)
    (hsent : ∀ j p, .worker j (.sent p) ∈ o' → p.payloadType ≠ .HeartBeatRequest) :
    Paced v rounds window' (o ++ o') := by
  refine ⟨hstamp.trans h.stamp, fun r hr => (h.known r hr).trans_le hkept.1, fun k session' hk => ?_, fun k => ?_⟩
  · obtain ⟨session, hfound, hc⟩ | ⟨hnew, hc⟩ := hkept.2 k session' hk
    · exact hc.trans (h.serial k session hfound)
    · rw [passedOf_eq_nil h.known hnew]
      exact hc
  · rw [beatsOf_append, beatsOf_eq_nil hsent, List.append_nil]
    exact h.sent k

/-- `sendHeartbeat` is the throttle. -/
theorem sendHeartbeat_spec (v : Version) (s : Worker) (k : ℕ) (env : NetEnv) :
    let r := s.sendHeartbeat v env
    r.1.heartbeatTime = keepalive.next s.heartbeatTime (k, env) ∧
      if keepalive.Passes s.heartbeatTime (k, env) then
        r.1.sn_sendingHeartBeat_ = s.sn_sendingHeartBeat_ + 1 ∧
          r.2 = Worker.send env.ok (ofType v env.upTime .HeartBeatRequest (s.sn_sendingHeartBeat_ + 1))
      else r.1.sn_sendingHeartBeat_ = s.sn_sendingHeartBeat_ ∧ r.2 = [] := by
  unfold Worker.sendHeartbeat Throttle.next
  by_cases hpass : keepalive.Passes s.heartbeatTime (k, env)
  · have hlong : env.now - s.heartbeatTime.getD env.first > 10 * Uplink.seconds := hpass
    simp only [if_pos hpass, if_pos hlong, and_self]
    exact ⟨rfl, trivial⟩
  · have hshort : ¬ env.now - s.heartbeatTime.getD env.first > 10 * Uplink.seconds := hpass
    simp only [if_neg hpass, if_neg hshort, and_self]
    exact ⟨rfl, trivial⟩

theorem beatsOf_send (j k : ℕ) (v : Version) (up sn : UInt32) (ok : Bool) :
    beatsOf j ((Worker.send ok (ofType v up .HeartBeatRequest sn)).map (.worker k)) =
      if k = j ∧ ok then [ofType v up .HeartBeatRequest sn] else [] := by
  have htype : (ofType v up .HeartBeatRequest sn).payloadType = .HeartBeatRequest := payloadType_ofType ..
  cases ok with
  | true =>
    by_cases hk : k = j
    · simp [beatsOf, Worker.send, hk, htype]
    · simp [beatsOf, Worker.send, hk]
  | false => simp [beatsOf, Worker.send]

/-- **A round.** It counts from what the rounds before have left, of whichever worker. -/
theorem Paced.round {v : Version} {rounds : List (ℕ × NetEnv)} {window window' : Window} {o : List WindowObs} {k : ℕ}
    {env : NetEnv} {session : Session} (h : Paced v rounds window o) (hk : window.workers[k]? = some session)
    {net : NetPc} {s : UInt32} {r : Worker × List WorkerObs}
    (hr : r = (window.withStatics session.worker).sendHeartbeat v env)
    (hstamp : window'.heartbeatTime = r.1.heartbeatTime)
    (hworkers : window'.workers = window.workers.set k { session with worker := { r.1 with net }, s }) :
    Paced v (rounds ++ [(k, env)]) window' (o ++ r.2.map (.worker k)) := by
  obtain ⟨hnext, hsend⟩ := sendHeartbeat_spec v (window.withStatics session.worker) k env
  have hfrom : (window.withStatics session.worker).heartbeatTime = keepalive.since rounds := h.stamp
  have hsn : (window.withStatics session.worker).sn_sendingHeartBeat_ = UInt32.ofNat (passedOf rounds k).length :=
    h.serial k session hk
  rw [← hr, hfrom] at hnext
  rw [← hr, hfrom, hsn] at hsend
  have hlt : k < window.workers.length := (List.getElem?_eq_some_iff.mp hk).1
  have hserial : UInt32.ofNat (passedOf rounds k).length + 1 = UInt32.ofNat ((passedOf rounds k).length + 1) :=
    (UInt32.ofNat_add ..).symm
  rw [hserial] at hsend
  refine ⟨?_, ?_, fun j session' hj => ?_, fun j => ?_⟩
  · rw [Throttle.since_concat, hstamp, hnext]
  · rw [hworkers, List.length_set]
    exact fun q hq => (List.mem_append.mp hq).elim (h.known q) fun he => by rw [List.mem_singleton.mp he]; exact hlt
  · rw [passedOf_concat]
    rw [hworkers, List.getElem?_set] at hj
    split_ifs at hj with hkj
    · cases hj
      subst hkj
      split_ifs at hsend with hpass
      · rw [if_pos ⟨hpass, rfl⟩, List.length_append]
        exact hsend.1
      · rw [if_neg fun hc => hpass hc.1]
        exact hsend.1
    · rw [if_neg fun hc => hkj hc.2]
      exact h.serial j session' hj
  · rw [passedOf_concat, beatsOf_append, h.sent j]
    split_ifs at hsend with hpass
    · rw [hsend.2, beatsOf_send]
      by_cases hkj : k = j
      · subst hkj
        rw [if_pos (And.intro hpass rfl), heartbeats_concat]
        simp only [true_and]
      · rw [if_neg fun hc : _ ∧ k = j => hkj hc.2, if_neg fun hc : k = j ∧ _ => hkj hc.1, List.append_nil]
    · rw [hsend.2, if_neg fun hc => hpass hc.1]
      exact List.append_nil _

/-- **One step.** -/
theorem paced_step {v : Version} {rounds : List (ℕ × NetEnv)} {self self' : Window} {a : WindowAction}
    {o o' : List WindowObs} (h : Paced v rounds self o) (hstep : self.step v a = some (self', o')) :
    Paced v (rounds ++ self.roundsAt a) self' (o ++ o') := by
  obtain ⟨k, b, level_, recentMaxLevel_, session, w, o₁, s, rfl, hk, hworker, rfl, hworkers, hbeat, -⟩ |
    ⟨hother, hkept, hstamp, -, hnone⟩ := statics_step hstep
  · obtain ⟨env, rfl, hnet, rfl, rfl⟩ | ⟨f, ok, u, packets, rfl, -, rfl, -, hsent⟩ |
      ⟨hnet, haudio, hcounters, hstatics, hsent⟩ := Worker.statics_step hworker
    · have hround : self.roundsAt (.thread k (.net env) level_ recentMaxLevel_) = [(k, env)] := by
        simp only [roundsAt, hk]
        exact if_pos hnet
      rw [hround]
      exact h.round hk rfl hbeat hworkers
    · have hround : self.roundsAt (.thread k (.audio f ok) level_ recentMaxLevel_) = [] := rfl
      rw [hround, List.append_nil]
      exact h.quiet hbeat (hworkers ▸ .set hk rfl) (sent_thread hsent)
    · have hround : self.roundsAt (.thread k b level_ recentMaxLevel_) = [] := by
        cases b with
        | net env =>
          simp only [roundsAt, hk]
          exact if_neg (hnet env rfl)
        | _ => rfl
      rw [hround, List.append_nil]
      have hsn : w.sn_sendingHeartBeat_ = session.worker.sn_sendingHeartBeat_ := congrArg (·.1) hcounters
      exact h.quiet (hbeat.trans (congrArg (·.1) hstatics)) (hworkers ▸ .set hk hsn) (sent_thread hsent)
  · have hround : self.roundsAt a = [] := by
      unfold roundsAt
      split
      · exact absurd rfl (hother _ _ _ _)
      · rfl
    rw [hround, List.append_nil]
    exact h.quiet hstamp (hkept.map (·.1)) fun j p hin => absurd hin (hnone j _)

theorem paced_exec {v : Version} {as : List WindowAction} {s : Window} {o : List WindowObs}
    (h : exec v as = some (s, o)) : Paced v (rounds v as) s o := by
  refine Lts.record_rule (step v) roundsAt (Paced v) ⟨rfl, ?_, ?_, fun _ => rfl⟩ ?_ h
  · exact fun r hr => absurd hr List.not_mem_nil
  · intro k session hk
    cases hk
  · exact fun _ _ _ _ _ _ hP hstep => paced_step hP hstep

/-! ### Voice -/

/-- A block of worker `k`, which was not muted. -/
def blocksAt (_ : Window) : WindowAction → List (ℕ × Frame)
  | .thread k (.audio f _) _ _ => [(k, f)]
  | _ => []

/-- The blocks of all workers, in a run. -/
def blocks (v : Version) (as : List WindowAction) : List (ℕ × Frame) := Lts.record (step v) blocksAt create as

/-- The window of one second in which voice is looked for. -/
def vadWindow : Throttle (ℕ × Frame) ℤ := ⟨(·.2.first), (·.2.now), (·.2.later), Uplink.seconds⟩

/-- Worker `k` has had no voice. -/
def NoVoice (blocks : List (ℕ × Frame)) (k : ℕ) : Prop := ∀ b ∈ blocks, b.1 = k → b.2.haveVoice = false

instance (blocks : List (ℕ × Frame)) (k : ℕ) : Decidable (NoVoice blocks k) := by
  unfold NoVoice
  infer_instance

/-- The throttle holds the `static`, and a worker without voice so far speaks until it is the one to
find the window over. -/
structure Heard (blocks : List (ℕ × Frame)) (window : Window) : Prop where
  stamp : window.lastTimeStamp = vadWindow.since blocks
  known : ∀ b ∈ blocks, b.1 < window.workers.length
  silent : ∀ k session, window.workers[k]? = some session → NoVoice blocks k →
    session.worker.uplink.vadCounter_ = 0 ∧
      (session.worker.uplink.sendOpus_ = true ↔ ∀ b ∈ vadWindow.passed blocks, b.1 ≠ k)

theorem onVoice_spec (u : Uplink) (f : Frame) :
    (u.onVoice f).lastTimeStamp = u.lastTimeStamp ∧
      (u.onVoice f).vadCounter_ = u.vadCounter_ + (if f.haveVoice then 1 else 0) ∧
      (u.onVoice f).sendOpus_ = (f.haveVoice || u.sendOpus_) := by
  unfold Uplink.onVoice
  cases f.haveVoice with
  | true => exact ⟨rfl, rfl, rfl⟩
  | false => exact ⟨rfl, (UInt8.add_zero _).symm, rfl⟩

/-- The window is the throttle. -/
theorem onClock_stamp (u : Uplink) (f : Frame) (k : ℕ) :
    ((u.onVoice f).onClock f).lastTimeStamp = vadWindow.next u.lastTimeStamp (k, f) := by
  unfold Uplink.onClock Throttle.next
  rw [(onVoice_spec u f).1]
  by_cases hpass : vadWindow.Passes u.lastTimeStamp (k, f)
  · have hover : f.now - u.lastTimeStamp.getD f.first > Uplink.seconds := hpass
    simp only [if_pos hpass, if_pos hover]
    rfl
  · have hopen : ¬ f.now - u.lastTimeStamp.getD f.first > Uplink.seconds := hpass
    simp only [if_neg hpass, if_neg hopen]
    rfl

/-- The two decisions on a block, of a worker without voice so far. -/
theorem onClock_spec {u : Uplink} (f : Frame) (k : ℕ) (hcount : u.vadCounter_ = 0) :
    let d := (u.onVoice f).onClock f
    (f.haveVoice = false → d.vadCounter_ = 0) ∧
      (d.sendOpus_ = true ↔ f.haveVoice = true ∨ u.sendOpus_ = true ∧ ¬ vadWindow.Passes u.lastTimeStamp (k, f)) := by
  obtain ⟨hstamp, hcounter, hsend⟩ := onVoice_spec u f
  rw [hcount] at hcounter
  unfold Uplink.onClock
  rw [hstamp, hcounter, hsend]
  by_cases hpass : vadWindow.Passes u.lastTimeStamp (k, f)
  · have hover : f.now - u.lastTimeStamp.getD f.first > Uplink.seconds := hpass
    simp only [if_pos hover]
    refine ⟨fun _ => trivial, ?_⟩
    cases f.haveVoice <;> simp [hpass]
  · have hopen : ¬ f.now - u.lastTimeStamp.getD f.first > Uplink.seconds := hpass
    simp only [if_neg hopen]
    refine ⟨fun hv => by rw [hv]; rfl, ?_⟩
    cases f.haveVoice <;> simp [hpass]

/-- A worker that is not made yet has found no window over. -/
theorem passed_ne {blocks : List (ℕ × Frame)} {n k : ℕ} (h : ∀ b ∈ blocks, b.1 < n) (hk : n ≤ k) :
    ∀ b ∈ vadWindow.passed blocks, b.1 ≠ k := by
  intro b hb he
  have hlt := h b (vadWindow.passed_subset blocks hb)
  omega

/-- What changes neither the `static` nor a worker's decision. -/
theorem Heard.quiet {blocks : List (ℕ × Frame)} {window window' : Window} (h : Heard blocks window)
    (hstamp : window'.lastTimeStamp = window.lastTimeStamp)
    (hkept : Kept (fun w => (w.uplink.vadCounter_, w.uplink.sendOpus_)) (0, true) window.workers window'.workers) :
    Heard blocks window' := by
  refine ⟨hstamp.trans h.stamp, fun b hb => (h.known b hb).trans_le hkept.1, fun k session' hk hno => ?_⟩
  obtain ⟨session, hfound, hc⟩ | ⟨hnew, hc⟩ := hkept.2 k session' hk
  · obtain ⟨hcount, hsend⟩ := Prod.mk.inj hc
    rw [hcount, hsend]
    exact h.silent k session hfound hno
  · obtain ⟨hcount, hsend⟩ := Prod.mk.inj hc
    exact ⟨hcount, iff_of_true hsend (passed_ne h.known hnew)⟩

/-- The blocks that have found the window over, after one more. -/
theorem passed_concat_ne {blocks : List (ℕ × Frame)} {k j : ℕ} {f : Frame} :
    (∀ b ∈ vadWindow.passed (blocks ++ [(k, f)]), b.1 ≠ j) ↔
      (∀ b ∈ vadWindow.passed blocks, b.1 ≠ j) ∧ (k = j → ¬ vadWindow.Passes (vadWindow.since blocks) (k, f)) := by
  rw [Throttle.passed_concat]
  split
  · rename_i hpass
    rw [List.forall_mem_append]
    exact and_congr_right fun _ => ⟨fun h hk => absurd hk (h _ (List.mem_singleton_self _)),
      fun h b hb hk => h (by rw [List.mem_singleton.mp hb] at hk; exact hk) hpass⟩
  · rename_i hpass
    exact ⟨fun h => ⟨h, fun _ => hpass⟩, fun h => h.1⟩

/-- **A block.** It counts from what the blocks before have left, of whichever worker. -/
theorem Heard.block {v : Version} {blocks : List (ℕ × Frame)} {window window' : Window} {k : ℕ} {f : Frame}
    {session : Session} (h : Heard blocks window) (hk : window.workers[k]? = some session)
    {u : Uplink} {packets : List NetPacket} {w : Worker} {s : UInt32}
    (hsend : (window.withStatics session.worker).uplink.vadSend v f = some (u, packets)) (hw : w.uplink = u)
    (hstamp : window'.lastTimeStamp = u.lastTimeStamp)
    (hworkers : window'.workers = window.workers.set k { session with worker := w, s }) :
    Heard (blocks ++ [(k, f)]) window' := by
  obtain ⟨⟨sn, hu⟩, -⟩ := vadSend_spec hsend
  set u₀ := (window.withStatics session.worker).uplink
  have hfrom : u₀.lastTimeStamp = vadWindow.since blocks := h.stamp
  have hlt : k < window.workers.length := (List.getElem?_eq_some_iff.mp hk).1
  refine ⟨?_, ?_, fun j session' hj hno => ?_⟩
  · calc window'.lastTimeStamp = ((u₀.onVoice f).onClock f).lastTimeStamp := by rw [hstamp, hu]
      _ = vadWindow.next u₀.lastTimeStamp (k, f) := onClock_stamp u₀ f k
      _ = vadWindow.since (blocks ++ [(k, f)]) := by rw [hfrom, Throttle.since_concat]
  · rw [hworkers, List.length_set]
    exact fun b hb => (List.mem_append.mp hb).elim (h.known b) fun he => by rw [List.mem_singleton.mp he]; exact hlt
  · have hbefore : NoVoice blocks j := fun b hb => hno b (List.mem_append_left _ hb)
    rw [hworkers, List.getElem?_set] at hj
    rw [passed_concat_ne]
    split_ifs at hj with hkj
    · cases hj
      subst hkj
      obtain ⟨hcount, hspeaks⟩ := h.silent k session hk hbefore
      have hv : f.haveVoice = false := hno (k, f) (by simp) rfl
      obtain ⟨hcounter, hdecide⟩ := onClock_spec f k (u := u₀) hcount
      have hspeaks₀ : u₀.sendOpus_ = true ↔ ∀ b ∈ vadWindow.passed blocks, b.1 ≠ k := hspeaks
      rw [hfrom, hspeaks₀, hv] at hdecide
      show w.uplink.vadCounter_ = 0 ∧ (w.uplink.sendOpus_ = true ↔ _)
      rw [hw, hu]
      refine ⟨hcounter hv, hdecide.trans ?_⟩
      simp
    · refine ⟨(h.silent j session' hj hbefore).1, (h.silent j session' hj hbefore).2.trans ?_⟩
      exact ⟨fun hpassed => ⟨hpassed, fun he => absurd he hkj⟩, fun hpassed => hpassed.1⟩

theorem heard_step {v : Version} {blocks : List (ℕ × Frame)} {self self' : Window} {a : WindowAction}
    {o : List WindowObs} (h : Heard blocks self) (hstep : self.step v a = some (self', o)) :
    Heard (blocks ++ self.blocksAt a) self' := by
  obtain ⟨k, b, level_, recentMaxLevel_, session, w, o₁, s, rfl, hk, hworker, -, hworkers, -, hstamp⟩ |
    ⟨hother, hkept, -, hstamp, -⟩ := statics_step hstep
  · obtain ⟨env, rfl, -, rfl, -⟩ | ⟨f, ok, u, packets, rfl, hsend, rfl, -, -⟩ |
      ⟨-, haudio, hcounters, hstatics, -⟩ := Worker.statics_step hworker
    · have hblock : self.blocksAt (.thread k (.net env) level_ recentMaxLevel_) = [] := rfl
      rw [hblock, List.append_nil]
      have huplink := uplink_sendHeartbeat v (self.withStatics session.worker) env
      exact h.quiet (hstamp.trans (congrArg Uplink.lastTimeStamp huplink))
        (hworkers ▸ .set hk (congrArg (fun u => (u.vadCounter_, u.sendOpus_)) huplink))
    · exact h.block hk hsend rfl hstamp hworkers
    · have hblock : self.blocksAt (.thread k b level_ recentMaxLevel_) = [] := by
        cases b with
        | audio f ok => exact absurd rfl (haudio f ok)
        | _ => rfl
      rw [hblock, List.append_nil]
      have hown : (w.uplink.vadCounter_, w.uplink.sendOpus_) =
          (session.worker.uplink.vadCounter_, session.worker.uplink.sendOpus_) := congrArg (·.2) hcounters
      exact h.quiet (hstamp.trans (congrArg (·.2) hstatics)) (hworkers ▸ .set hk hown)
  · have hblock : self.blocksAt a = [] := by
      unfold blocksAt
      split
      · exact absurd rfl (hother _ _ _ _)
      · rfl
    rw [hblock, List.append_nil]
    exact h.quiet hstamp (hkept.map (·.2))

theorem heard_exec {v : Version} {as : List WindowAction} {s : Window} {o : List WindowObs}
    (h : exec v as = some (s, o)) : Heard (blocks v as) s := by
  refine Lts.record_rule (step v) blocksAt (fun blocks window _ => Heard blocks window) ⟨rfl, ?_, ?_⟩ ?_ h
  · exact fun b hb => absurd hb List.not_mem_nil
  · intro k session hk
    cases hk
  · exact fun _ _ _ _ _ _ hP hstep => heard_step hP hstep

end Window

open Window

/-- **Heartbeats of all calls.** In every run of the window: in the rounds in which more than ten seconds have gone
by since the last heartbeat, of whichever worker, a worker sends its next one, and in no other. So
heartbeats are more than ten seconds apart, and where the clock does not go back
in a round, `n` of them take `n` times as long. -/
theorem heartbeats_paced {v : Version} {as : List WindowAction} {s : Window} {o : List WindowObs}
    (h : Window.exec v as = some (s, o)) :
    (∀ k, beatsOf k o = heartbeats v (passedOf (rounds v as) k)) ∧
    (keepalive.passed (rounds v as)).IsChain (fun c d => 10 * Uplink.seconds < d.2.now - c.2.later) ∧
    ((∀ r ∈ rounds v as, r.2.now ≤ r.2.later) → ∀ r₀ ∈ (rounds v as).head?,
      ∀ r₁ ∈ (keepalive.passed (rounds v as)).getLast?,
        (keepalive.passed (rounds v as)).length * (10 * Uplink.seconds) ≤ r₁.2.later - r₀.2.first) := by
  refine ⟨(paced_exec h).sent, keepalive.passed_spaced _, fun hclock r₀ h₀ r₁ h₁ => ?_⟩
  obtain ⟨rest, hrounds⟩ : ∃ rest, rounds v as = r₀ :: rest := List.head?_eq_some_iff.mp h₀
  rw [hrounds] at hclock h₁ ⊢
  have hsince : keepalive.since (r₀ :: rest) = some r₁.2.later := by
    rw [Throttle.since_eq, Option.mem_def.mp h₁]
    rfl
  calc ((keepalive.passed (r₀ :: rest)).length : ℤ) * (10 * Uplink.seconds)
      = (keepalive.passed (r₀ :: rest)).length • keepalive.period := (nsmul_eq_mul _ _).symm
    _ ≤ r₁.2.later - r₀.2.first := keepalive.count_le hclock hsince

/-- A call is made, and the window is told. -/
def sampleMade (k : ℕ) : List WindowAction :=
  .clickConnecting (.started false) :: sampleCall.map (fun a => .thread k a 0 0) ++ [.event, .event]

/-- It is hung up, and the window is told. -/
def sampleHungUp (k : ℕ) : List WindowAction :=
  .clickConnecting .caught :: List.replicate 3 .syncStop ++
    [sampleNet, sampleNet, .timer].map (fun a => .thread k a 0 0) ++ List.replicate 3 .syncStop ++ [.event]

/-- A round of the loop, at `now`. -/
def sampleRound (k : ℕ) (now : ℤ) : List WindowAction :=
  [sampleNet, .net ⟨true, 0, now * Uplink.seconds, now * Uplink.seconds, 0⟩].map fun a => .thread k a 0 0

/-- The first call sends a heartbeat after eleven seconds. The second may not at twelve, and does at 22. -/
theorem heartbeats_paced_calls : ∃ s o,
    Window.exec sampleVersion (.event :: sampleMade 0 ++ sampleRound 0 0 ++ sampleRound 0 11 ++ sampleHungUp 0 ++
      sampleMade 1 ++ sampleRound 1 12 ++ sampleRound 1 22) = some (s, o) ∧
    beatsOf 0 o = [ofType sampleVersion 0 .HeartBeatRequest 1] ∧
    beatsOf 1 o = [ofType sampleVersion 0 .HeartBeatRequest 1] := by
  have hrun : Window.exec sampleVersion (.event :: sampleMade 0 ++ sampleRound 0 0 ++ sampleRound 0 11 ++
      sampleHungUp 0 ++ sampleMade 1 ++ sampleRound 1 12 ++ sampleRound 1 22) = some (_, _) := rfl
  exact ⟨_, _, hrun, ((heartbeats_paced hrun).1 0).trans rfl, ((heartbeats_paced hrun).1 1).trans rfl⟩

/-- **Silence at the beginning of a call.** In every run of the window, as long as a worker has had no voice: a
block of it is sent as speech exactly when it has voice itself, or no block of this worker, itself
included, was the one to find the second over that began with a block of whichever worker. -/
theorem silence_sent_as_speech_iff {v : Version} {as : List WindowAction} {s : Window} {o : List WindowObs}
    (h : Window.exec v as = some (s, o)) {k : ℕ} (hno : NoVoice (blocks v as) k) {f : Frame}
    {level_ recentMaxLevel_ : UInt8} {s' : Window} {o' : List WindowObs}
    (hstep : s.step v (.thread k (.audio f true) level_ recentMaxLevel_) = some (s', o')) :
    (∃ p, .worker k (.sent p) ∈ o' ∧ p.payloadType = .AudioMessage) ↔
      f.haveVoice = true ∨ ∀ b ∈ vadWindow.passed (blocks v as ++ [(k, f)]), b.1 ≠ k := by
  have hheard := heard_exec h
  obtain ⟨j, b, _, _, session, w, o₁, n, ha, hk, hworker, rfl, -⟩ | ⟨hother, -⟩ := statics_step hstep
  · cases ha
    obtain ⟨env, ha, -⟩ | ⟨g, ok, u, packets, ha, hsend, -, rfl, -⟩ | ⟨-, haudio, -⟩ := Worker.statics_step hworker
    · cases ha
    · cases ha
      obtain ⟨hcount, hspeaks⟩ := hheard.silent k session hk hno
      obtain ⟨⟨sn, hu⟩, hspeech⟩ := vadSend_spec hsend
      set u₀ := (s.withStatics session.worker).uplink
      have hfrom : u₀.lastTimeStamp = vadWindow.since (blocks v as) := hheard.stamp
      have hspeaks₀ : u₀.sendOpus_ = true ↔ ∀ b ∈ vadWindow.passed (blocks v as), b.1 ≠ k := hspeaks
      have hdecide := (onClock_spec f k (u := u₀) hcount).2
      rw [hfrom, hspeaks₀] at hdecide
      have hsent : (∃ p, .worker k (.sent p) ∈ (packets.flatMap (Worker.send true)).map (WindowObs.worker k) ∧
          p.payloadType = .AudioMessage) ↔ ∃ p ∈ packets, p.payloadType = .AudioMessage := by
        simp [Worker.send]
      calc _ ↔ ∃ p ∈ packets, p.payloadType = .AudioMessage := hsent
        _ ↔ ((u₀.onVoice f).onClock f).sendOpus_ = true := by rw [hspeech, hu]
        _ ↔ _ := hdecide.trans (by rw [passed_concat_ne]; simp)
    · exact absurd rfl (haudio f true)
  · exact absurd rfl (hother _ _ _ _)

/-- A block without voice, at `now`. -/
def sampleSilence (now : ℤ) : Frame :=
  ⟨false, false, 0, now * Uplink.seconds, now * Uplink.seconds, some [0x78], [0x79], 0⟩

/-- The audio callback of worker `k`, on a block without voice. -/
def sampleBlock (k : ℕ) (now : ℤ) : List WindowAction :=
  [.thread k .callback 0 0, .thread k (.audio (sampleSilence now) true) 0 0]

/-- The first call begins with speech. The second begins two seconds later, with comfort noise. -/
theorem silence_sent_as_speech_iff_calls : ∃ s o s' o',
    Window.exec sampleVersion (.event :: sampleMade 0 ++ sampleBlock 0 0 ++ sampleHungUp 0 ++ .event :: sampleMade 1 ++
      [.thread 1 .callback 0 0]) = some (s, o) ∧
    (o.any fun
      | .worker 0 (.sent p) => p.payloadType = .AudioMessage
      | _ => false) = true ∧
    s.step sampleVersion (.thread 1 (.audio (sampleSilence 2) true) 0 0) = some (s', o') ∧
    ¬ ∃ p, .worker 1 (.sent p) ∈ o' ∧ p.payloadType = .AudioMessage := by
  have hrun : Window.exec sampleVersion (.event :: sampleMade 0 ++ sampleBlock 0 0 ++ sampleHungUp 0 ++
      .event :: sampleMade 1 ++ [.thread 1 .callback 0 0]) = some (_, _) := rfl
  refine ⟨_, _, _, _, hrun, rfl, rfl, fun hspeech => ?_⟩
  have hquiet := (@silence_sent_as_speech_iff _ _ _ _ hrun 1 (by decide) (sampleSilence 2) 0 0 _ _ rfl).mp hspeech
  revert hquiet
  decide

end EasyVoiceCall
