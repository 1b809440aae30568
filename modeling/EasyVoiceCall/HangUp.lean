/-
# Hanging up

What the window shows against what the threads of all its workers do
(`client_qt5/mainwindow.cpp`, `client_essential/Worker.cpp`). Between the two lies the queue of events: a worker
is through its login before the window says so, and reports of a timer that was stopped may still wait
when the window has said that the call is over.

Where a call is hung up once its audio has been started, or `syncStart` has returned (`HangsUpLate`),
the window is in one of four situations (`Flow`): hung up, an attempt that has come to nothing, an
attempt, or a call. There is never more than one worker whose threads still run, and a
window that shows no call has none: nothing but answers to heartbeats goes out until the button is clicked
again.

Key definitions: `Session.Quiet`, `Worker.Trying`, `Worker.Live`, `Window.HungUp`, `Window.Flow`.
Key theorems: `Worker.quiet_step`, `Worker.trying_net`, `Window.hungUp_step`, `Window.flow_step`, `hung_up_is_silent`.
-/
import EasyVoiceCall.Finish
import EasyVoiceCall.MainWindow

namespace EasyVoiceCall

open NetPacket

/-! ### A worker -/

namespace Worker

/-- No audio, and no timer. -/
structure Quiet (s : Worker) : Prop where
  running : s.running = false
  callback : s.callback = .idle
  timer : s.timer = .absent ∨ s.timer = .returned

/-- `syncStart` has not got past its test of the login. -/
def BeforeLogin : NetPc → Prop
  | .entry | .init | .connecting _ | .login | .waiting _ | .check => True
  | _ => False

structure Trying (s : Worker) : Prop where
  quiet : s.Quiet
  net : BeforeLogin s.net
  stop : s.stop = .idle
  kept : s.EndpointKept

/-- The login has been confirmed. -/
structure Live (s : Worker) : Prop where
  net : ¬ BeforeLogin s.net
  isLogin : s.isLogin = true
  kept : s.EndpointKept

theorem trying_start (needAec durationReporter : Bool) : (start needAec durationReporter).Trying :=
  ⟨⟨rfl, rfl, Or.inl rfl⟩, trivial, rfl, iff_of_true rfl (Or.inl rfl)⟩

theorem quiet_stopStep {s s' : Worker} {o : List WorkerObs} (hq : s.Quiet) (h : s.stopStep = some (s', o)) :
    s'.Quiet := by
  obtain ⟨hrunning, hcallback, htimer⟩ := hq
  cases hs : s.stop <;> simp only [stopStep, hs] at h
  case joinNet =>
    split at h <;> cases h
    exact ⟨hrunning, hcallback, htimer⟩
  case endpoint =>
    split_ifs at h <;> cases h
    · exact ⟨hrunning, hcallback, htimer⟩
    · exact ⟨rfl, hcallback, htimer⟩
  all_goals try split_ifs at h
  all_goals cases h
  all_goals exact ⟨hrunning, hcallback, htimer⟩

/-- **A quiet worker** stays so, and its threads put out nothing but the answers of its receiver. -/
theorem quiet_step {v : Version} {s s' : Worker} {a : WorkerAction} {o : List WorkerObs} (hq : s.Quiet)
    (hnet : ∀ env, a ≠ .net env) (hstop : a ≠ .stop) (h : s.step v a = some (s', o)) :
    s'.Quiet ∧ a ≠ .timer ∧ (∀ f ok, a ≠ .audio f ok) ∧
      (o = [] ∨ ∃ ok up, o = send ok (ofType v up .HeartBeatResponse 0)) := by
  obtain ⟨hrunning, hcallback, htimer⟩ := hq
  cases a with
  | net env => exact absurd rfl (hnet env)
  | stop => exact absurd rfl hstop
  | timer =>
    simp only [step, timerStep] at h
    rcases htimer with ht | ht <;> rw [ht] at h <;> cases h
  | callback =>
    simp only [step, callbackStep, hrunning] at h
    cases h
  | audio f ok =>
    simp only [step, audioStep, hcallback] at h
    cases h
  | receive type ok up =>
    refine ⟨?_, fun hc => (by cases hc), fun _ _ hc => (by cases hc), ?_⟩
    · simp only [step, receiveStep] at h
      split_ifs at h <;> cases h <;> exact ⟨hrunning, hcallback, htimer⟩
    · simp only [step, receiveStep] at h
      split_ifs at h <;> cases h
      · exact Or.inr ⟨ok, up, rfl⟩
      · exact Or.inl rfl
      · exact Or.inl rfl
  | setMute mute =>
    cases h
    exact ⟨⟨hrunning, hcallback, htimer⟩, fun hc => (by cases hc), fun _ _ hc => (by cases hc), Or.inl rfl⟩

/-- A statement of `syncStart` on the way to the login: it goes on, gives up, with or without a
word, or the login is there. -/
theorem trying_net {v : Version} {s s' : Worker} {env : NetEnv} {o : List WorkerObs} (ht : s.Trying)
    (h : s.netStep v env = some (s', o)) :
    (s'.Trying ∧ toggledOf o = []) ∨
    (s'.Quiet ∧ s'.net = .returned false ∧ (toggledOf o = [] ∨ toggledOf o = [.Disconnected])) ∨
    (s'.Live ∧ s'.stop = .idle ∧ toggledOf o = [.Connected]) := by
  have hstep : s.step v (.net env) = some (s', o) := h
  have hkept : s'.EndpointKept := endpointKept_step ht.kept hstep
  obtain ⟨⟨hrunning, hcallback, htimer⟩, hnet, hstop, -⟩ := ht
  cases hn : s.net <;> rw [hn] at hnet <;> simp only [netStep, hn] at h
  case entry =>
    cases h
    exact Or.inl ⟨⟨⟨hrunning, hcallback, htimer⟩, trivial, hstop, hkept⟩, rfl⟩
  case init =>
    split_ifs at h <;> cases h
    · exact Or.inl ⟨⟨⟨hrunning, hcallback, htimer⟩, trivial, hstop, hkept⟩, rfl⟩
    · exact Or.inr (Or.inl ⟨⟨hrunning, hcallback, htimer⟩, rfl, Or.inl rfl⟩)
  case connecting i =>
    split_ifs at h <;> cases h
    · exact Or.inl ⟨⟨⟨hrunning, hcallback, htimer⟩, trivial, hstop, hkept⟩, rfl⟩
    · exact Or.inl ⟨⟨⟨hrunning, hcallback, htimer⟩, trivial, hstop, hkept⟩, rfl⟩
    · exact Or.inr (Or.inl ⟨⟨hrunning, hcallback, htimer⟩, rfl, Or.inr rfl⟩)
  case login =>
    cases h
    exact Or.inl ⟨⟨⟨hrunning, hcallback, htimer⟩, trivial, hstop, hkept⟩, toggledOf_send _ _⟩
  case waiting i =>
    split_ifs at h <;> cases h <;> exact Or.inl ⟨⟨⟨hrunning, hcallback, htimer⟩, trivial, hstop, hkept⟩, rfl⟩
  case check =>
    split_ifs at h with hlogin <;> cases h
    · exact Or.inr (Or.inl ⟨⟨hrunning, hcallback, htimer⟩, rfl, Or.inr rfl⟩)
    · exact Or.inr (Or.inr ⟨⟨fun hc => hc, by simpa using hlogin, hkept⟩, hstop, rfl⟩)
  all_goals exact absurd hnet fun hc => hc

/-- The other threads, and the button for muting. -/
theorem trying_other {v : Version} {s s' : Worker} {a : WorkerAction} {o : List WorkerObs} (ht : s.Trying)
    (hnet : ∀ env, a ≠ .net env) (hstop : a ≠ .stop) (h : s.step v a = some (s', o)) :
    s'.Trying ∧ toggledOf o = [] := by
  obtain ⟨hquiet, -⟩ := quiet_step ht.quiet hnet hstop h
  refine ⟨⟨hquiet, ?_, (stop_frame h hstop).1.trans ht.stop, endpointKept_step ht.kept h⟩, toggledOf_step h hnet⟩
  rw [net_frame h hnet]
  exact ht.net

/-- **A call** goes on whatever its threads do, and reports nothing more. -/
theorem live_step {v : Version} {s s' : Worker} {a : WorkerAction} {o : List WorkerObs} (hl : s.Live)
    (h : s.step v a = some (s', o)) : s'.Live ∧ toggledOf o = [] := by
  have hkept : s'.EndpointKept := endpointKept_step hl.kept h
  obtain ⟨hnet, hlogin, -⟩ := hl
  by_cases hn : ∃ env, a = .net env
  · obtain ⟨env, rfl⟩ := hn
    have hstep : s.netStep v env = some (s', o) := h
    have hbeat : (s.sendHeartbeat v env).1.isLogin = s.isLogin := by
      unfold sendHeartbeat
      dsimp only
      split <;> rfl
    cases hpc : s.net <;> rw [hpc] at hnet <;> simp only [netStep, hpc] at hstep
    case loadEndpoint =>
      split_ifs at hstep
      cases hstep
      exact ⟨⟨fun hc => hc, hlogin, hkept⟩, rfl⟩
    case startAudio =>
      cases hstep
      exact ⟨⟨fun hc => hc, hlogin, hkept⟩, rfl⟩
    case startTimer =>
      split_ifs at hstep <;> cases hstep <;> exact ⟨⟨fun hc => hc, hlogin, hkept⟩, rfl⟩
    case test =>
      cases hstep
      refine ⟨⟨?_, hlogin, hkept⟩, rfl⟩
      dsimp only
      split <;> exact fun hc => hc
    case heartbeat =>
      cases hstep
      exact ⟨⟨fun hc => hc, hbeat.trans hlogin, hkept⟩, toggledOf_sendHeartbeat v s env⟩
    case logout =>
      cases hstep
      exact ⟨⟨fun hc => hc, hlogin, hkept⟩, toggledOf_send _ _⟩
    case returned ok => cases hstep
    all_goals exact absurd trivial hnet
  · have hnet' : ∀ env, a ≠ .net env := fun env he => hn ⟨env, he⟩
    have hsame : s'.net = s.net := net_frame h hnet'
    refine ⟨⟨by rwa [hsame], ?_, hkept⟩, toggledOf_step h hnet'⟩
    cases a with
    | net env => exact absurd rfl (hnet' env)
    | stop =>
      have hstep : s.stopStep = some (s', o) := h
      cases hs : s.stop <;> simp only [stopStep, hs] at hstep
      case joinNet =>
        split at hstep <;> cases hstep
        exact hlogin
      all_goals try split_ifs at hstep
      all_goals cases hstep <;> exact hlogin
    | timer =>
      simp only [step, timerStep] at h
      split at h <;> cases h <;> exact hlogin
    | callback =>
      simp only [step, callbackStep] at h
      split at h <;> cases h
      exact hlogin
    | audio f ok =>
      simp only [step, audioStep] at h
      split_ifs at h
      split at h <;> cases h
      exact hlogin
    | receive type ok up =>
      simp only [step, receiveStep] at h
      split_ifs at h <;> cases h
      · exact hlogin
      · rfl
      · exact hlogin
    | setMute mute =>
      cases h
      exact hlogin

/-- A worker that has been stopped is quiet. -/
theorem Stopping.quiet {s : Worker} (hs : s.Stopping) (hret : s.stop = .returned) :
    s.Quiet ∧ ∃ ok, s.net = .returned ok := by
  obtain ⟨hrunning, hcallback⟩ := hs.silent (by simp [hret])
  exact ⟨⟨hrunning, hcallback, hs.timerDone hret⟩, hs.netDone (Or.inr hret)⟩

end Worker

/-! ### The window -/

/-- No thread of the worker is left but the receiver's. -/
structure Session.Quiet (session : Session) : Prop where
  worker : session.worker.Quiet
  net : session.started = true → ∃ ok, session.worker.net = .returned ok

namespace Window

/-- The durations that wait in the queue. -/
def durationsOf (events : List WindowEvent) : List UInt32 :=
  events.filterMap fun
    | .SetDuration duation_ => some duation_
    | _ => none

/-- What `label_duration` shows when the queue has been emptied. -/
def settled (self : Window) : String :=
  ((durationsOf self.events).getLast?.map durationText).getD self.ui.label_duration

/-- The workers but for one are quiet. -/
def Others (workers : List Session) (k : ℕ) : Prop := ∀ j session, workers[j]? = some session → j ≠ k → session.Quiet

/-- A call is hung up when its audio has been started, or `syncStart` has returned. -/
def HangsUpLate (self : Window) : WindowAction → Prop
  | .clickConnecting _ =>
    self.currentUiState_ = .Connected → ∀ session, self.current = some session → session.worker.PastStart
  | _ => True

/-- No call, and none on its way. -/
structure HungUp (window : Window) : Prop where
  state : window.currentUiState_ = .Disconnected
  stopping : window.stopping = false
  quiet : ∀ session ∈ window.workers, session.Quiet
  pending : statesOf window.events = []
  label : window.settled = ""

/-- The four situations: no call; an attempt that has come to nothing, which the window may be
about to be told; an attempt; a call, which the window may be about to be told, and
which may be being hung up. -/
inductive Flow (window : Window) : Prop
  | hungUp (h : window.HungUp)
  | nothing (stopping : window.stopping = false) (quiet : ∀ session ∈ window.workers, session.Quiet)
      (state : window.currentUiState_ = .Connecting)
      (pending : statesOf window.events = [] ∨ statesOf window.events = [.Disconnected])
  | attempt (k : ℕ) (session : Session) (stopping : window.stopping = false) (current : window.worker_ = some k)
      (found : window.workers[k]? = some session) (others : Others window.workers k) (trying : session.worker.Trying)
      (state : window.currentUiState_ = .Connecting) (pending : statesOf window.events = [])
  | call (k : ℕ) (session : Session) (current : window.worker_ = some k)
      (found : window.workers[k]? = some session) (others : Others window.workers k) (live : session.worker.Live)
      (state : (window.currentUiState_ = .Connecting ∧ statesOf window.events = [.Connected]) ∨
        (window.currentUiState_ = .Connected ∧ statesOf window.events = []))
      (stop : (window.stopping = false ∧ session.worker.stop = .idle) ∨
        (window.stopping = true ∧ window.currentUiState_ = .Connected ∧ session.worker.PastStart ∧
          (session.worker.stop = .idle ∨ session.worker.Stopping)))

theorem durationsOf_append (a b : List WindowEvent) : durationsOf (a ++ b) = durationsOf a ++ durationsOf b :=
  List.filterMap_append

theorem settled_eq {window window' : Window} (hevents : durationsOf window'.events = durationsOf window.events)
    (hlabel : window'.ui.label_duration = window.ui.label_duration) : window'.settled = window.settled := by
  unfold settled
  rw [hevents, hlabel]

/-- The window is told that the call is over: the last duration to come is none. -/
theorem hungUp_of_disconnected {window : Window} (hstopping : window.stopping = false)
    (hquiet : ∀ session ∈ window.workers, session.Quiet) (hpending : statesOf window.events = []) :
    (window.onNetworkChanged .Disconnected).HungUp := by
  refine ⟨rfl, hstopping, hquiet, ?_, ?_⟩
  · have hsame : statesOf (window.events ++ [.SetDuration 0]) = statesOf window.events := by
      rw [statesOf_append]
      exact List.append_nil _
    exact hsame.trans hpending
  · have hlast : (durationsOf (window.events ++ [.SetDuration 0])).getLast? = some 0 := by
      rw [durationsOf_append]
      exact List.getLast?_concat
    have hsettled : (window.onNetworkChanged .Disconnected).settled =
        ((durationsOf (window.events ++ [.SetDuration 0])).getLast?.map durationText).getD window.ui.label_duration :=
      rfl
    rw [hsettled, hlast]
    rfl

/-- An event that is taken and is no state. -/
theorem event_spec {window : Window} {e : WindowEvent} {events : List WindowEvent} (he : window.events = e :: events)
    (hno : ∀ networkState, e ≠ .NetworkState networkState) :
    let window' := ({ window with events } : Window).event e
    window'.currentUiState_ = window.currentUiState_ ∧ statesOf window'.events = statesOf window.events ∧
      window'.settled = window.settled := by
  intro window'
  unfold settled
  rw [he]
  cases e with
  | AudioVolume aivl =>
    have hevents : window'.events = events ∧ window'.currentUiState_ = window.currentUiState_ ∧
        window'.ui.label_duration = window.ui.label_duration := by
      simp only [window', event]
      split <;> exact ⟨rfl, rfl, rfl⟩
    obtain ⟨h1, h2, h3⟩ := hevents
    rw [h1, h3]
    exact ⟨h2, rfl, rfl⟩
  | Vad isActive_ => exact ⟨rfl, rfl, rfl⟩
  | NetworkState state_ => exact absurd rfl (hno state_)
  | ShowTextMessage message_ => exact ⟨rfl, rfl, rfl⟩
  | SetDuration duation_ =>
    refine ⟨rfl, rfl, ?_⟩
    have hcons : durationsOf (.SetDuration duation_ :: events) = duation_ :: durationsOf events := rfl
    rw [hcons]
    cases hd : durationsOf events with
    | nil => simp [window', event, hd]
    | cons d ds => simp [window', event, hd, List.getLast?_cons]

theorem quiet_set {workers : List Session} {session : Session} {k : ℕ} (hquiet : ∀ s ∈ workers, s.Quiet)
    (hs : session.Quiet) : ∀ s ∈ workers.set k session, s.Quiet := fun s hin =>
  (List.mem_or_eq_of_mem_set hin).elim (hquiet s) fun he => he ▸ hs

/-- The one that is left out may be exchanged. -/
theorem Others.set_self {workers : List Session} {k : ℕ} (h : Others workers k) (session : Session) :
    Others (workers.set k session) k := by
  intro j s hj hne
  rw [List.getElem?_set_ne (Ne.symm hne)] at hj
  exact h j s hj hne

theorem Others.set {workers : List Session} {j k : ℕ} {session : Session} (h : Others workers k)
    (hs : session.Quiet) : Others (workers.set j session) k := by
  intro i s hi hne
  rw [List.getElem?_set] at hi
  split_ifs at hi
  · cases hi
    exact hs
  · exact h i s hi hne

/-- A worker that is destroyed was quiet, and is. -/
theorem quiet_destroyed {w w' : Worker} (hq : w.Quiet) (h : destroyed w = some w') : w'.Quiet ∧ w'.net = w.net := by
  obtain ⟨⟨w₁, o⟩, hexec, rfl⟩ := Option.map_eq_some_iff.mp h
  refine Lts.history_rule (fun w (_ : Unit) => Worker.stopStep w) (fun _ (w' : Worker) _ => w'.Quiet ∧ w'.net = w.net)
    ⟨hq, rfl⟩ ?_ hexec
  rintro _ w₂ _ _ w₃ o₃ ⟨hq₂, hn₂⟩ hstep
  exact ⟨Worker.quiet_stopStep hq₂ hstep, (Worker.stopStep_frame hstep).1.trans hn₂⟩

/-- A new worker, where the others are quiet. -/
theorem setWorker_spec {window window' : Window} {session : Session} {o : List WindowObs}
    (hquiet : ∀ s ∈ window.workers, s.Quiet) (h : window.setWorker session = some (window', o)) :
    ∃ workers, (∀ s ∈ workers, s.Quiet) ∧ o = [.created] ∧
      window' = { window with workers := workers ++ [session], worker_ := some workers.length } := by
  unfold setWorker at h
  split at h
  · rename_i k old hk hold
    have hin : old ∈ window.workers := by
      rw [current, hk] at hold
      exact List.mem_of_getElem? hold
    split at h
    · cases h
    · rename_i w hw
      cases h
      obtain ⟨hworker, hnet⟩ := quiet_destroyed (hquiet old hin).worker hw
      refine ⟨window.workers.set k { old with worker := w }, quiet_set hquiet ⟨hworker, fun hs => ?_⟩, rfl, ?_⟩
      · obtain ⟨ok, hok⟩ := (hquiet old hin).net hs
        exact ⟨ok, hnet.trans hok⟩
      · rw [List.length_set]
  · cases h
    exact ⟨window.workers, hquiet, rfl, rfl⟩

/-! The `static`s are not looked at. -/

section Statics

variable (self : Window) {w : Worker}

theorem quiet_withStatics (h : w.Quiet) : (self.withStatics w).Quiet := ⟨h.running, h.callback, h.timer⟩

theorem trying_withStatics (h : w.Trying) : (self.withStatics w).Trying :=
  ⟨quiet_withStatics self h.quiet, h.net, h.stop, h.kept⟩

theorem live_withStatics (h : w.Live) : (self.withStatics w).Live := ⟨h.net, h.isLogin, h.kept⟩

theorem stopping_withStatics (h : w.Stopping) : (self.withStatics w).Stopping :=
  ⟨h.begun, h.flag, h.past, h.kept, h.silent, h.netDone, h.timerDone⟩

end Statics

/-- The threads of a quiet worker post nothing. -/
theorem posted_quiet {v : Version} {window : Window} {session : Session} {a : WorkerAction} {w : Worker} {o : List WorkerObs}
    (hq : session.Quiet) (hs : session.started = true) (ha : isMain a = false)
    (h : (window.withStatics session.worker).step v a = some (w, o)) (s : UInt32) (level_ recentMaxLevel_ : UInt8) :
    ({ session with worker := w, s } : Session).Quiet ∧ posted session a o level_ recentMaxLevel_ = [] ∧
      (o = [] ∨ ∃ ok up, o = Worker.send ok (ofType v up .HeartBeatResponse 0)) := by
  obtain ⟨ok, hret⟩ := hq.net hs
  have hnet : ∀ env, a ≠ .net env := by
    rintro env rfl
    simp only [Worker.step, Worker.netStep, withStatics, hret] at h
    cases h
  have hstop : a ≠ .stop := by
    rintro rfl
    cases ha
  obtain ⟨hworker, htimer, haudio, ho⟩ := Worker.quiet_step (quiet_withStatics window hq.worker) hnet hstop h
  have hn : w.net = (window.withStatics session.worker).net := Worker.net_frame h hnet
  refine ⟨⟨hworker, fun _ => ⟨ok, hn.trans hret⟩⟩, ?_, ho⟩
  have hreported : reported session level_ recentMaxLevel_ a = [] := by
    cases a with
    | timer => exact absurd rfl htimer
    | audio f ok => exact absurd rfl (haudio f ok)
    | _ => rfl
  have htoggle : o.flatMap (toggleState session) = [] := by
    rcases ho with rfl | ⟨ok, up, rfl⟩
    · rfl
    · unfold Worker.send
      split <;> rfl
  rw [posted, htoggle, hreported]
  rfl

/-- What the button for muting does to a worker. -/
def muted (session : Session) (checked : Bool) : Session :=
  { session with worker := { session.worker with uplink := { session.worker.uplink with mute_ := checked } } }

theorem muted_step (v : Version) (session : Session) (checked : Bool) :
    session.worker.step v (.setMute checked) = some ((muted session checked).worker, []) := rfl

/-- A click on it leaves the rest of the window as it was. -/
theorem micMute_get (self : Window) (checked : Bool) :
    let self' := self.on_toggleButton_micMute_clicked checked
    (self'.currentUiState_ = self.currentUiState_ ∧ self'.worker_ = self.worker_ ∧ self'.events = self.events ∧
      self'.stopping = self.stopping ∧ self'.ui.label_duration = self.ui.label_duration) ∧
    ∀ k, self'.workers[k]? =
      (self.workers[k]?).map fun session => if self.worker_ = some k then muted session checked else session := by
  intro self'
  obtain ⟨workers, hclick, hworkers⟩ := micMute_spec self checked
  have hself : self' = _ := hclick
  refine ⟨?_, fun k => ?_⟩
  · rw [hself]
    split <;> exact ⟨rfl, rfl, rfl, rfl, rfl⟩
  · have hget : self'.workers = workers := by
      rw [hself]
      split <;> rfl
    rw [hget, hworkers]
    split
    · rfl
    · exact Option.map_id'.symm

/-! ### One step -/

theorem HungUp.of_eq {window window' : Window} (h : window.HungUp)
    (hstate : window'.currentUiState_ = window.currentUiState_) (hstopping : window'.stopping = window.stopping)
    (hquiet : ∀ session ∈ window'.workers, session.Quiet)
    (hpending : statesOf window'.events = statesOf window.events) (hsettled : window'.settled = window.settled) :
    window'.HungUp :=
  ⟨hstate.trans h.state, hstopping.trans h.stopping, hquiet, hpending.trans h.pending, hsettled.trans h.label⟩

/-- What changes neither the state nor a worker, and posts no state and no duration. -/
theorem Flow.of_eq {window window' : Window} (h : window.Flow)
    (hstate : window'.currentUiState_ = window.currentUiState_) (hworkers : window'.workers = window.workers)
    (hworker_ : window'.worker_ = window.worker_) (hstopping : window'.stopping = window.stopping)
    (hpending : statesOf window'.events = statesOf window.events) (hsettled : window'.settled = window.settled) :
    window'.Flow := by
  cases h with
  | hungUp h => exact .hungUp (h.of_eq hstate hstopping (hworkers ▸ h.quiet) hpending hsettled)
  | nothing stopping quiet state pending =>
    exact .nothing (hstopping.trans stopping) (hworkers ▸ quiet) (hstate.trans state) (hpending ▸ pending)
  | attempt k session stopping current found others trying state pending =>
    exact .attempt k session (hstopping.trans stopping) (hworker_.trans current) (hworkers ▸ found)
      (hworkers ▸ others) trying (hstate.trans state) (hpending.trans pending)
  | call k session current found others live state stop =>
    exact .call k session (hworker_.trans current) (hworkers ▸ found) (hworkers ▸ others) live
      (hstate ▸ hpending ▸ state) (hstopping ▸ hstate ▸ stop)

theorem Flow.hungUp_of_disconnected {window : Window} (h : window.Flow) (hs : window.currentUiState_ = .Disconnected) :
    window.HungUp := by
  cases h with
  | hungUp h => exact h
  | nothing stopping quiet state pending =>
    rw [hs] at state
    cases state
  | attempt k session stopping current found others trying state pending =>
    rw [hs] at state
    cases state
  | call k session current found others live state stop =>
    rw [hs] at state
    rcases state with ⟨hc, -⟩ | ⟨hc, -⟩ <;> cases hc

/-- An event is taken. -/
theorem flow_event {window : Window} {e : WindowEvent} {events : List WindowEvent} (h : window.Flow)
    (he : window.events = e :: events) : (({ window with events } : Window).event e).Flow := by
  by_cases hno : ∀ networkState, e ≠ .NetworkState networkState
  · obtain ⟨hstate, hpending, hsettled⟩ := event_spec he hno
    obtain ⟨-, hworkers, hworker_, hstopping⟩ := event_frame { window with events } e
    exact h.of_eq hstate hworkers hworker_ hstopping hpending hsettled
  · -- the window is told what the worker has toggled
    push Not at hno
    obtain ⟨networkState, rfl⟩ := hno
    have hcons : statesOf window.events = networkState :: statesOf events := by rw [he]; rfl
    cases h with
    | hungUp h =>
      have hp := h.pending
      rw [hcons] at hp
      cases hp
    | nothing stopping quiet state pending =>
      rw [hcons] at pending
      rcases pending with hp | hp
      · cases hp
      · obtain ⟨rfl, hrest⟩ := List.cons.inj hp
        exact .hungUp (Window.hungUp_of_disconnected stopping quiet hrest)
    | attempt k session stopping current found others trying state pending =>
      rw [hcons] at pending
      cases pending
    | call k session current found others live state stop =>
      rw [hcons] at state
      rcases state with ⟨hs, hp⟩ | ⟨-, hp⟩
      · obtain ⟨rfl, hrest⟩ := List.cons.inj hp
        refine .call k session current found others live (Or.inr ⟨rfl, hrest⟩) (Or.inl ?_)
        rcases stop with hstop | ⟨-, hc, -⟩
        · exact hstop
        · rw [hs] at hc
          cases hc
      · cases hp

/-- The button is clicked. -/
theorem flow_click {window window' : Window} {r : GotoWork} {o : List WindowObs} (h : window.Flow)
    (hstopping : window.stopping = false) (hlate : window.HangsUpLate (.clickConnecting r))
    (hs : window.on_pushButton_connecting_clicked r = some (window', o)) : window'.Flow := by
  cases hstate : window.currentUiState_ <;> simp only [on_pushButton_connecting_clicked, hstate] at hs
  case Connecting =>
    cases hs
    exact h
  case Disconnected =>
    have hup := h.hungUp_of_disconnected hstate
    have hstart : ∀ needAec started, (⟨Worker.start needAec started, 0, started⟩ : Session).worker.Trying :=
      fun _ _ => Worker.trying_start _ _
    have hbefore : ∀ s ∈ (window.onNetworkChanged .Connecting).workers, s.Quiet := hup.quiet
    cases r with
    | caught =>
      cases hs
      exact .nothing hstopping hup.quiet rfl (Or.inl hup.pending)
    | caughtLater needAec =>
      obtain ⟨workers, hquiet, -, rfl⟩ := setWorker_spec hbefore hs
      refine .nothing hstopping (fun s hin => ?_) rfl (Or.inl hup.pending)
      rcases List.mem_append.mp hin with hin | hin
      · exact hquiet s hin
      · rw [List.mem_singleton.mp hin]
        exact ⟨(hstart needAec false).quiet, fun hc => by cases hc⟩
    | started needAec =>
      obtain ⟨workers, hquiet, -, rfl⟩ := setWorker_spec hbefore hs
      refine .attempt workers.length _ hstopping rfl List.getElem?_concat_length ?_ (hstart needAec true) rfl hup.pending
      intro j s hj hne
      rcases Nat.lt_trichotomy j workers.length with hlt | heq | hgt
      · rw [List.getElem?_append_left hlt] at hj
        exact hquiet s (List.mem_of_getElem? hj)
      · exact absurd heq hne
      · rw [List.getElem?_eq_none (by rw [List.length_append]; exact hgt)] at hj
        cases hj
  case Connected =>
    cases h with
    | hungUp h => exact absurd (h.state.symm.trans hstate) (by decide)
    | nothing stopping quiet state pending => exact absurd (state.symm.trans hstate) (by decide)
    | attempt k session stopping current found others trying state pending =>
      exact absurd (state.symm.trans hstate) (by decide)
    | call k session current found others live state stop =>
      have hcurrent : window.current = some session := by
        rw [Window.current, current]
        exact found
      rw [hcurrent] at hs
      cases hs
      obtain ⟨-, hpending⟩ := state.resolve_left fun hc => by rw [hstate] at hc; cases hc.1
      obtain ⟨-, hidle⟩ := stop.resolve_right fun hc => Bool.false_ne_true (hstopping.symm.trans hc.1)
      exact .call k session current found others live (Or.inr ⟨rfl, hpending⟩)
        (Or.inr ⟨rfl, rfl, hlate hstate session hcurrent, Or.inl hidle⟩)

/-- The main thread in `syncStop`, and after it. -/
theorem flow_syncStop (v : Version) {window window' : Window} {o : List WindowObs} (h : window.Flow)
    (hstopping : window.stopping = true) (hs : window.syncStop = some (window', o)) : window'.Flow := by
  cases h with
  | hungUp h => exact absurd (h.stopping.symm.trans hstopping) Bool.false_ne_true
  | nothing stopping quiet state pending => exact absurd (stopping.symm.trans hstopping) Bool.false_ne_true
  | attempt k session stopping current found others trying state pending =>
    exact absurd (stopping.symm.trans hstopping) Bool.false_ne_true
  | call k session current found others live state stop =>
    have hcurrent : window.current = some session := by
      rw [Window.current, current]
      exact found
    obtain ⟨-, hconnected, hpast, hstop⟩ := stop.resolve_left fun hc =>
      Bool.false_ne_true (hc.1.symm.trans hstopping)
    obtain ⟨-, hpending⟩ := state.resolve_left fun hc => by rw [hconnected] at hc; cases hc.1
    unfold syncStop at hs
    rw [hcurrent, current] at hs
    dsimp only at hs
    split_ifs at hs with hret
    · -- it has returned: all workers are quiet
      cases hs
      have hst : session.worker.Stopping := hstop.resolve_left (by rw [hret]; decide)
      obtain ⟨hquiet, hnet⟩ := hst.quiet hret
      refine .hungUp (Window.hungUp_of_disconnected rfl (fun s hin => ?_) hpending)
      obtain ⟨j, hj⟩ := List.mem_iff_getElem?.mp hin
      by_cases hjk : j = k
      · subst hjk
        rw [found] at hj
        cases hj
        exact ⟨hquiet, fun _ => hnet⟩
      · exact others j s hj hjk
    · split at hs
      · cases hs
      · rename_i w o₁ hstep
        cases hs
        have hstep' : session.worker.step v .stop = some (w, o₁) := hstep
        have hpast' : w.PastStart := Worker.pastStart_step hpast hstep'
        have hstop' : w.stop = .idle ∨ w.Stopping := by
          rcases hstop with hidle | hst
          · exact Worker.stopping_of_idle live.kept hidle (fun _ _ => hpast) hstep'
          · exact Or.inr (Worker.stopping_step hst hstep').1
        exact .call k { session with worker := w } rfl
          (by rw [List.getElem?_set_self (List.getElem?_eq_some_iff.mp found).1]) (others.set_self _)
          (Worker.live_step live hstep').1 (Or.inr ⟨hconnected, hpending⟩) (Or.inr ⟨hstopping, hconnected, hpast', hstop'⟩)

/-- A step of a worker's thread. -/
theorem flow_thread {v : Version} {window window' : Window} {k : ℕ} {a : WorkerAction} {level_ recentMaxLevel_ : UInt8}
    {o : List WindowObs} (h : window.Flow) (hs : window.thread v k a level_ recentMaxLevel_ = some (window', o)) :
    window'.Flow := by
  obtain ⟨session, w, o₁, s, hsession, hstarted, ha, hstep, rfl, rfl⟩ := thread_spec hs
  set session' : Session := { session with worker := w, s } with hsession'
  have hlt : k < window.workers.length := (List.getElem?_eq_some_iff.mp hsession).1
  have hpending : statesOf (window.events ++ posted session a o₁ level_ recentMaxLevel_) =
      statesOf window.events ++ Worker.toggledOf o₁ := by
    rw [statesOf_append, statesOf_posted]
  have hstop : a ≠ .stop := by
    rintro rfl
    cases ha
  -- a worker that is quiet changes nothing that the window sees
  have hcalm : session.Quiet → session'.Quiet ∧ window.events ++ posted session a o₁ level_ recentMaxLevel_ =
      window.events := by
    intro hq
    obtain ⟨hq', hposted, -⟩ := posted_quiet hq hstarted ha hstep s level_ recentMaxLevel_
    exact ⟨hq', by rw [hposted, List.append_nil]⟩
  cases h with
  | hungUp h =>
    obtain ⟨hq', hevents⟩ := hcalm (h.quiet session (List.mem_of_getElem? hsession))
    refine .hungUp (h.of_eq rfl rfl (quiet_set h.quiet hq') (congrArg statesOf hevents) ?_)
    exact settled_eq (congrArg durationsOf hevents) rfl
  | nothing stopping quiet state pending =>
    obtain ⟨hq', hevents⟩ := hcalm (quiet session (List.mem_of_getElem? hsession))
    exact .nothing stopping (quiet_set quiet hq') state (by rw [hevents]; exact pending)
  | attempt k₀ session₀ stopping current found others trying state pending =>
    by_cases hk : k = k₀
    · subst hk
      rw [hsession] at found
      cases found
      have hfound : (window.workers.set k session')[k]? = some session' := List.getElem?_set_self hlt
      by_cases hnet : ∃ env, a = .net env
      · obtain ⟨env, rfl⟩ := hnet
        rcases Worker.trying_net (trying_withStatics window trying) hstep with ⟨htrying, ho⟩ | ⟨hquiet, hret, ho⟩ | ⟨hlive, hidle, ho⟩
        · refine .attempt k session' stopping current hfound (others.set_self _) htrying state ?_
          rw [hpending, pending, ho]
          rfl
        · refine .nothing stopping (fun s' hin => ?_) state ?_
          · obtain ⟨j, hj⟩ := List.mem_iff_getElem?.mp hin
            by_cases hjk : j = k
            · subst hjk
              rw [hfound] at hj
              cases hj
              exact ⟨hquiet, fun _ => ⟨false, hret⟩⟩
            · exact others.set_self session' j s' hj hjk
          · rw [hpending, pending]
            exact ho
        · refine .call k session' current hfound (others.set_self _) hlive (Or.inl ⟨state, ?_⟩) (Or.inl ⟨stopping, hidle⟩)
          rw [hpending, pending, ho]
          rfl
      · obtain ⟨htrying, ho⟩ := Worker.trying_other (trying_withStatics window trying) (fun env he => hnet ⟨env, he⟩)
          hstop hstep
        refine .attempt k session' stopping current hfound (others.set_self _) htrying state ?_
        rw [hpending, pending, ho]
        rfl
    · obtain ⟨hq', hevents⟩ := hcalm (others k session hsession hk)
      refine .attempt k₀ session₀ stopping current ?_ (others.set hq') trying state ?_
      · rw [List.getElem?_set_ne hk]
        exact found
      · rw [hevents]
        exact pending
  | call k₀ session₀ current found others live state stop =>
    by_cases hk : k = k₀
    · subst hk
      rw [hsession] at found
      cases found
      obtain ⟨hlive, ho⟩ := Worker.live_step (live_withStatics window live) hstep
      have hidle : session.worker.stop = .idle → w.stop = .idle := (Worker.stop_frame hstep hstop).1.trans
      have hsame : statesOf (window.events ++ posted session a o₁ level_ recentMaxLevel_) = statesOf window.events := by
        rw [hpending, ho, List.append_nil]
      refine .call k session' current (List.getElem?_set_self hlt) (others.set_self _) hlive ?_ ?_
      · rw [hsame]
        exact state
      · rcases stop with ⟨hno, hst⟩ | ⟨hyes, hconn, hpast, hst⟩
        · exact Or.inl ⟨hno, hidle hst⟩
        · have hpast' : (window.withStatics session.worker).PastStart := hpast
          refine Or.inr ⟨hyes, hconn, Worker.pastStart_step hpast' hstep, ?_⟩
          exact hst.imp hidle fun hst => (Worker.stopping_step (stopping_withStatics window hst) hstep).1
    · obtain ⟨hq', hevents⟩ := hcalm (others k session hsession hk)
      refine .call k₀ session₀ current ?_ (others.set hq') live ?_ stop
      · rw [List.getElem?_set_ne hk]
        exact found
      · rw [hevents]
        exact state

theorem quiet_muted {session : Session} (h : session.Quiet) (checked : Bool) : (muted session checked).Quiet :=
  ⟨⟨h.worker.running, h.worker.callback, h.worker.timer⟩, h.net⟩

/-- The button for muting is clicked. -/
theorem flow_micMute (v : Version) {window : Window} (h : window.Flow) (checked : Bool) :
    (window.on_toggleButton_micMute_clicked checked).Flow := by
  obtain ⟨⟨hstate, hworker_, hevents, hstopping, hlabel⟩, hget⟩ := micMute_get window checked
  set window' := window.on_toggleButton_micMute_clicked checked
  have hquiet : ∀ (k : ℕ) (s' : Session), window'.workers[k]? = some s' →
      (∀ s : Session, window.workers[k]? = some s → s.Quiet) → s'.Quiet := by
    intro k s' hk hq
    rw [hget] at hk
    obtain ⟨s, hs, rfl⟩ := Option.map_eq_some_iff.mp hk
    split
    · exact quiet_muted (hq s hs) checked
    · exact hq s hs
  have hall : (∀ s ∈ window.workers, s.Quiet) → ∀ s ∈ window'.workers, s.Quiet := by
    intro hq s hin
    obtain ⟨k, hk⟩ := List.mem_iff_getElem?.mp hin
    exact hquiet k s hk fun s' hs' => hq s' (List.mem_of_getElem? hs')
  have hothers : ∀ k, Others window.workers k → Others window'.workers k :=
    fun k ho j s' hj hne => hquiet j s' hj fun s hs => ho j s hs hne
  have hcurrent : ∀ k session, window.worker_ = some k → window.workers[k]? = some session →
      window'.workers[k]? = some (muted session checked) := by
    intro k session hk hs
    rw [hget, hs, Option.map_some, if_pos hk]
  have hpending : statesOf window'.events = statesOf window.events := congrArg statesOf hevents
  cases h with
  | hungUp h =>
    exact .hungUp (h.of_eq hstate hstopping (hall h.quiet) hpending (settled_eq (congrArg durationsOf hevents) hlabel))
  | nothing stopping quiet state pending =>
    exact .nothing (hstopping.trans stopping) (hall quiet) (hstate.trans state) (hpending ▸ pending)
  | attempt k session stopping current found others trying state pending =>
    obtain ⟨htrying, -⟩ := Worker.trying_other trying (fun _ hc => by cases hc) (fun hc => by cases hc)
      (muted_step v session checked)
    exact .attempt k _ (hstopping.trans stopping) (hworker_.trans current) (hcurrent k session current found)
      (hothers k others) htrying (hstate.trans state) (hpending.trans pending)
  | call k session current found others live state stop =>
    have hstep := muted_step v session checked
    refine .call k _ (hworker_.trans current) (hcurrent k session current found) (hothers k others)
      (Worker.live_step live hstep).1 ?_ ?_
    · rw [hstate, hpending]
      exact state
    · rw [hstopping, hstate]
      rcases stop with hno | ⟨hyes, hconn, hpast, hst⟩
      · exact Or.inl hno
      · exact Or.inr ⟨hyes, hconn, Worker.pastStart_step hpast hstep,
          hst.imp id fun hst => (Worker.stopping_step hst hstep).1⟩

/-- **One step**, where a call is not hung up too early. -/
theorem flow_step {v : Version} {window window' : Window} {a : WindowAction} {o : List WindowObs} (h : window.Flow)
    (hlate : window.HangsUpLate a) (hs : window.step v a = some (window', o)) : window'.Flow := by
  cases a with
  | event =>
    simp only [step] at hs
    split at hs
    · cases hs
    · split at hs
      · cases hs
      · rename_i e events he
        cases hs
        exact flow_event h he
  | clickConnecting r =>
    simp only [step] at hs
    split_ifs at hs with hstopping hbutton
    · exact flow_click h (Bool.eq_false_iff.mpr hstopping) hlate hs
    · cases hs
      exact h
  | clickMicMute =>
    simp only [step] at hs
    split_ifs at hs
    cases hs
    exact flow_micMute v h _
  | keyF2 =>
    simp only [step] at hs
    split_ifs at hs
    cases hs
    exact h.of_eq rfl rfl rfl rfl rfl rfl
  | syncStop =>
    simp only [step] at hs
    split_ifs at hs with hstopping
    exact flow_syncStop v h hstopping hs
  | thread k a level_ recentMaxLevel_ => exact flow_thread h hs
  | outVolume k level_ recentMaxLevel_ =>
    simp only [step] at hs
    split at hs
    · cases hs
    · split_ifs at hs
      cases hs
      have hstates : statesOf (window.events ++ [.AudioVolume ⟨.Out, level_, recentMaxLevel_⟩]) =
          statesOf window.events := by
        rw [statesOf_append]
        exact List.append_nil _
      have hdurations : durationsOf (window.events ++ [.AudioVolume ⟨.Out, level_, recentMaxLevel_⟩]) =
          durationsOf window.events := by
        rw [durationsOf_append]
        exact List.append_nil _
      exact h.of_eq rfl rfl rfl rfl hstates (settled_eq hdurations rfl)

theorem flow_create : create.Flow := by
  refine .hungUp ⟨rfl, rfl, fun session hin => ?_, by decide, by decide⟩
  cases hin

/-- A window that is hung up, and whose button is not clicked: it stays so, and its workers only answer
heartbeats. -/
theorem hungUp_step {v : Version} {window window' : Window} {a : WindowAction} {o : List WindowObs}
    (h : window.HungUp) (ha : ∀ r, a ≠ .clickConnecting r) (hs : window.step v a = some (window', o)) :
    window'.HungUp ∧ ∀ k x, .worker k x ∈ o → ∃ p, x = .sent p ∧ p.payloadType = .HeartBeatResponse := by
  have hflow : window'.Flow := by
    refine flow_step (.hungUp h) ?_ hs
    cases a with
    | clickConnecting r => exact absurd rfl (ha r)
    | _ => trivial
  suffices hsame : window'.currentUiState_ = .Disconnected ∧
      ∀ k x, .worker k x ∈ o → ∃ p, x = .sent p ∧ p.payloadType = .HeartBeatResponse from
    ⟨hflow.hungUp_of_disconnected hsame.1, hsame.2⟩
  cases a with
  | clickConnecting r => exact absurd rfl (ha r)
  | event =>
    simp only [step] at hs
    split at hs
    · cases hs
    · split at hs
      · cases hs
      · rename_i e events he
        cases hs
        have hno : ∀ networkState, e ≠ .NetworkState networkState := by
          rintro networkState rfl
          have hp := h.pending
          rw [he] at hp
          cases hp
        exact ⟨(event_spec he hno).1.trans h.state, fun k x hx => by cases hx⟩
  | clickMicMute =>
    simp only [step] at hs
    split_ifs at hs
    cases hs
    exact ⟨(micMute_get window _).1.1.trans h.state, fun k x hx => by cases List.mem_singleton.mp hx⟩
  | keyF2 =>
    simp only [step] at hs
    split_ifs at hs
    cases hs
    exact ⟨h.state, fun k x hx => by cases hx⟩
  | syncStop =>
    simp only [step, h.stopping] at hs
    cases hs
  | thread k a level_ recentMaxLevel_ =>
    obtain ⟨session, w, o₁, s, hsession, hstarted, hmain, hstep, rfl, rfl⟩ := thread_spec hs
    obtain ⟨-, -, ho⟩ := posted_quiet (h.quiet session (List.mem_of_getElem? hsession)) hstarted hmain hstep s
      level_ recentMaxLevel_
    refine ⟨h.state, fun j x hx => ?_⟩
    obtain ⟨y, hy, hyx⟩ := List.mem_map.mp hx
    cases hyx
    rcases ho with rfl | ⟨ok, up, rfl⟩
    · cases hy
    · unfold Worker.send at hy
      split at hy
      · exact ⟨_, List.mem_singleton.mp hy, payloadType_ofType ..⟩
      · cases hy
  | outVolume k level_ recentMaxLevel_ =>
    simp only [step] at hs
    split at hs
    · cases hs
    · split_ifs at hs
      cases hs
      exact ⟨h.state, fun k x hx => by cases hx⟩

instance (self : Window) : ∀ a, Decidable (self.HangsUpLate a)
  | .clickConnecting _ => inferInstanceAs (Decidable (_ → ∀ session ∈ self.current, session.worker.PastStart))
  | .event => isTrue trivial
  | .clickMicMute => isTrue trivial
  | .keyF2 => isTrue trivial
  | .syncStop => isTrue trivial
  | .thread _ _ _ _ => isTrue trivial
  | .outVolume _ _ _ => isTrue trivial

end Window

open Window

/-- **A window that shows no call.** In every run in which no call is hung up before its audio has been
started, whatever events wait and however the threads of all workers run: while the state is
`Disconnected`, no worker's audio, timer or `syncStart` runs, the duration will be empty once the
queue is, and however the run goes on, until the button is clicked nothing is put out but answers to
heartbeats. While it is `Connected`, the login of the worker was confirmed, and all others are quiet. -/
theorem hung_up_is_silent {v : Version} {as : List WindowAction} {window : Window} {o : List WindowObs}
    (h : Window.exec v as = some (window, o)) (hlate : Lts.Along (Window.step v) HangsUpLate Window.create as) :
    (window.currentUiState_ = .Disconnected →
      (∀ session ∈ window.workers, session.Quiet) ∧ window.settled = "" ∧
      ∀ bs window' o', Lts.exec (Window.step v) window bs = some (window', o') → (∀ r, .clickConnecting r ∉ bs) →
        window'.currentUiState_ = .Disconnected ∧
        ∀ k x, .worker k x ∈ o' → ∃ p, x = .sent p ∧ p.payloadType = .HeartBeatResponse) ∧
    (window.currentUiState_ = .Connected → ∃ k session, window.worker_ = some k ∧
      window.workers[k]? = some session ∧ session.worker.isLogin = true ∧ Others window.workers k) := by
  have hflow : window.Flow := Lts.along_rule (Window.step v) HangsUpLate (fun window _ => window.Flow) flow_create
    (fun _ _ _ _ _ hC hF hstep => flow_step hF hC hstep) h hlate
  refine ⟨fun hs => ?_, fun hs => ?_⟩
  · have hup := hflow.hungUp_of_disconnected hs
    refine ⟨hup.quiet, hup.label, fun bs window' o' hexec hno => ?_⟩
    have hrun := Lts.along_rule (Window.step v) (fun _ a => ∀ r, a ≠ .clickConnecting r)
      (fun window o => window.HungUp ∧
        ∀ k x, .worker k x ∈ o → ∃ p, x = .sent p ∧ p.payloadType = .HeartBeatResponse)
      ⟨hup, fun k x hx => by cases hx⟩ ?_ hexec ?_
    · exact ⟨hrun.1.state, hrun.2⟩
    · rintro w o a w' o' ha ⟨hw, ho⟩ hstep
      obtain ⟨hw', ho'⟩ := hungUp_step hw ha hstep
      exact ⟨hw', fun k x hx => (List.mem_append.mp hx).elim (ho k x) (ho' k x)⟩
    · rintro pre a s₁ o₁ ⟨post, rfl⟩ - r rfl
      exact hno r (by simp)
  · cases hflow with
    | hungUp h => exact absurd (h.state.symm.trans hs) (by decide)
    | nothing stopping quiet state pending => exact absurd (state.symm.trans hs) (by decide)
    | attempt k session stopping current found others trying state pending =>
      exact absurd (state.symm.trans hs) (by decide)
    | call k session current found others live state stop =>
      exact ⟨k, session, current, found, live.isLogin, others⟩

/-- A call is made, and the window is told. -/
def sampleWindowCall : List WindowAction :=
  .event :: .clickConnecting (.started false) :: sampleCall.map (fun a => .thread 0 a 0 0) ++ [.event, .event]

/-- A call that has lasted a second is hung up: the report of the timer comes after the click, and
a callback is at work. -/
theorem hung_up_is_silent_call : ∃ window o,
    Window.exec sampleVersion (sampleWindowCall ++
      [.thread 0 .timer 0 0, .thread 0 .callback 0 0, .clickConnecting .caught, .syncStop, .thread 0 sampleAudio 0 0,
        .thread 0 .timer 0 0, .syncStop, .syncStop, .thread 0 sampleNet 0 0, .thread 0 sampleNet 0 0,
        .thread 0 .timer 0 0, .syncStop, .syncStop, .syncStop]) = some (window, o) ∧
    window.events.length = 3 ∧ window.settled = "" ∧ ∀ session ∈ window.workers, session.Quiet := by
  have hrun : Window.exec sampleVersion (sampleWindowCall ++
      [.thread 0 .timer 0 0, .thread 0 .callback 0 0, .clickConnecting .caught, .syncStop, .thread 0 sampleAudio 0 0,
        .thread 0 .timer 0 0, .syncStop, .syncStop, .thread 0 sampleNet 0 0, .thread 0 sampleNet 0 0,
        .thread 0 .timer 0 0, .syncStop, .syncStop, .syncStop]) = some (_, _) := rfl
  obtain ⟨hquiet, hsettled, -⟩ := (hung_up_is_silent hrun (by decide)).1 rfl
  exact ⟨_, _, hrun, rfl, hsettled, hquiet⟩

/-- Hung up between the login and the start of the audio: the window shows no call, and the
microphone is on. -/
example : ((Window.exec sampleVersion
    (.event :: .clickConnecting (.started false) :: (sampleCall.take 8).map (fun a => .thread 0 a 0 0) ++
      [.event, .event, .clickConnecting .caught, .syncStop, .syncStop, .syncStop] ++
      List.replicate 4 (.thread 0 sampleNet 0 0) ++ [.thread 0 .timer 0 0, .syncStop, .syncStop, .syncStop])).map
        fun r => (r.1.currentUiState_, r.1.workers.map fun session => session.worker.running)) =
    some (.Disconnected, [true]) := rfl

end EasyVoiceCall
