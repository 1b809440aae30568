/-
# The window

`client_qt5/mainwindow.{hpp,cpp}`. What the workers' threads report is posted to the
window as events, which the main thread takes in order between the clicks of the user. A
click that hangs up runs `syncStop` on the main thread, and takes no event until that has
returned. The outcome of `gotoWork` is that of `Attempt.lean`: the worker's thread is
started, or a `std::exception` was caught on the way. Each worker has a stream of its
own. In the source there is one endpoint, whose stream and callback the next `init` replaces: that is the
same where a worker's stream has ended before the next worker is made.

The widgets say what `currentUiState_` is (`widgets_coherent`). The button for muting
is not read when a worker is made, so it is right when it was clicked since, or was not down
(`mute_agrees_iff`), while the meter is empty as long as it is down (`meter_empty`).

Key definitions: `Window.step`, `Window.Coherent`.
Key theorems: `widgets_coherent`, `mute_agrees_iff`, `meter_empty`.
-/
import EasyVoiceCall.Attempt
import EasyVoiceCall.Stop
import EasyVoiceCall.VolumeMeter

namespace EasyVoiceCall

open AudioIoVolume (MAX_VOLUME_LEVEL)

/-! ### The form -/

/-- The events of the window's own types. -/
inductive WindowEvent
  | AudioVolume (aivl : AudioIoVolume)
  | Vad (isActive_ : Bool)
  | NetworkState (state_ : NetworkState)
  | ShowTextMessage (message_ : String)
  | SetDuration (duation_ : UInt32)

/-- The widgets: which are enabled, down or visible, and what they show. -/
structure Ui where
  lineEdit_serverHost : Bool
  lineEdit_serverPort : Bool
  checkBox_needAec : Bool
  pushButton_connecting : Bool
  text : String
  icon : String
  groupBox_details : Bool
  label_duration : String
  label_vad : String
  statusBar : String
  toggleButton_micMute : Bool
  label_img_ : ℕ × ℕ → Bar

/-- `mainwindow.ui`. -/
def Ui.form : Ui := ⟨true, true, true, true, "", "", true, "", "", "", false, fun _ => .empty⟩

/-- A number of two digits at least. -/
def getter (_value : UInt32) : List Char := (Nat.toDigits 10 _value.toNat).leftpad 2 '0'

/-- What a `SetDurationEvent` shows. -/
def durationText (duation_ : UInt32) : String :=
  if duation_ = 0 then ""
  else
    let _s := duation_ % 60
    let _m := (duation_ / 60) % 60
    let _h := duation_ / 3600
    String.ofList ('[' :: getter _h ++ ':' :: getter _m ++ ':' :: getter _s ++ [']'])

/-! ### The window -/

/-- A worker that the window has made, what its timer reports next, and whether
`asyncStart` has been called. -/
structure Session where
  worker : Worker
  s : UInt32
  started : Bool

/-- The window, and all workers it has made; `worker_` is one of them. `stopping`: the main
thread is in `syncStop`. `heartbeatTime` and `lastTimeStamp` are the `static`s of `sendHeartbeat` and
`nsAecVolumeVadSend`, which all workers share. -/
structure Window where
  ui : Ui
  currentUiState_ : NetworkState
  advancedMode_ : Bool
  workers : List Session
  worker_ : Option ℕ
  events : List WindowEvent
  stopping : Bool
  heartbeatTime : Option ℤ
  lastTimeStamp : Option ℤ

/-- How `gotoWork` ends: a `std::exception` was caught, before a worker was made or after, or
the worker was started. -/
inductive GotoWork
  | caught
  | caughtLater (needAec : Bool)
  | started (needAec : Bool)

/-- What happens: the main thread takes an event, or the user clicks or presses a key, or the main
thread goes on in `syncStop`; a thread of a worker takes a step, or the audio callback
reports what it plays. -/
inductive WindowAction
  | event
  | clickConnecting (r : GotoWork)
  | clickMicMute
  | keyF2
  | syncStop
  | thread (k : ℕ) (a : WorkerAction) (level_ recentMaxLevel_ : UInt8)
  | outVolume (k : ℕ) (level_ recentMaxLevel_ : UInt8)

inductive WindowObs
  | worker (k : ℕ) (x : WorkerObs)
  | created
  | micMute (checked : Bool)
  deriving DecidableEq

namespace Window

def post (self : Window) (event : WindowEvent) : Window := { self with events := self.events ++ [event] }

/-- `onNetworkChanged`, on the main thread. -/
def onNetworkChanged (self : Window) : NetworkState → Window
  | .Disconnected =>
    { self with
      ui := { self.ui with
        lineEdit_serverHost := true, lineEdit_serverPort := true, checkBox_needAec := true
        pushButton_connecting := true, text := "Connect!", icon := ":/call_up.png" }
      events := self.events ++ [.SetDuration 0]
      currentUiState_ := .Disconnected }
  | .Connecting =>
    { self with
      ui := { self.ui with
        lineEdit_serverHost := false, lineEdit_serverPort := false, checkBox_needAec := false
        pushButton_connecting := false, text := "Connecting..." }
      currentUiState_ := .Connecting }
  | .Connected =>
    { self with
      ui := { self.ui with
        lineEdit_serverHost := false, lineEdit_serverPort := false, checkBox_needAec := false
        pushButton_connecting := true, icon := ":/hang_up.png", text := "Disconnect!" }
      currentUiState_ := .Connected }

/-- Pictures set one after the other. -/
def draw (label_img_ : ℕ × ℕ → Bar) (pixmaps : List ((ℕ × ℕ) × Bar)) : ℕ × ℕ → Bar :=
  pixmaps.foldl (fun label_img_ p => Function.update label_img_ p.1 p.2) label_img_

/-- `onVolumeChanged`, on the main thread. -/
def onVolumeChanged (self : Window) (aivl : AudioIoVolume) : Window :=
  { self with ui := { self.ui with label_img_ := draw self.ui.label_img_ (MainWindow.onVolumeChanged aivl) } }

/-- `onVad`, on the main thread. -/
def onVad (self : Window) (isActive : Bool) : Window :=
  { self with ui := { self.ui with label_vad := if isActive then "active" else "inactive" } }

/-- `showMessage`, on the main thread; an empty message clears the status bar. -/
def showMessage (self : Window) (message : String) : Window :=
  { self with ui := { self.ui with statusBar := message } }

def toggleAdvancedMode (self : Window) (newMode : Bool) : Window :=
  { self with advancedMode_ := newMode, ui := { self.ui with groupBox_details := newMode } }

/-- The constructor. -/
def create : Window :=
  let self : Window := ⟨Ui.form, .Disconnected, true, [], none, [], false, none, none⟩
  let self := self.onVolumeChanged ⟨.In, 0, 0⟩
  let self := self.onVolumeChanged ⟨.Out, 0, 0⟩
  let self := self.onNetworkChanged .Disconnected
  let self := self.toggleAdvancedMode false
  self.showMessage "F1: help    F2: toggle mode (advanced/easy mode)"

/-- `event`, on an event of the window's own. -/
def event (self : Window) : WindowEvent → Window
  | .AudioVolume aivl =>
    if aivl.io_ = .In ∧ self.ui.toggleButton_micMute then self else self.onVolumeChanged aivl
  | .Vad isActive_ => self.onVad isActive_
  | .NetworkState state_ => self.onNetworkChanged state_
  | .ShowTextMessage message_ => self.showMessage message_
  | .SetDuration duation_ => { self with ui := { self.ui with label_duration := durationText duation_ } }

/-- The worker that `worker_` points to. -/
def current (self : Window) : Option Session := self.worker_.bind fun k => self.workers[k]?

/-- `~Worker`, which stops the worker, where none of its threads has to be waited for. -/
def destroyed (w : Worker) : Option Worker :=
  (Lts.exec (fun w (_ : Unit) => w.stopStep) w (List.replicate 5 ())).map (·.1)

/-- `worker_ = IWorker::create()` and what follows: the worker before is destroyed. -/
def setWorker (self : Window) (session : Session) : Option (Window × List WindowObs) :=
  match self.worker_, self.current with
  | some k, some old =>
    match destroyed old.worker with
    | none => none
    | some w =>
      some ({ self with
        workers := self.workers.set k { old with worker := w } ++ [session]
        worker_ := some self.workers.length }, [.created])
  | _, _ =>
    some ({ self with workers := self.workers ++ [session], worker_ := some self.workers.length }, [.created])

/-- `gotoWork`, with its outcome. -/
def gotoWork (self : Window) : GotoWork → Option (Window × List WindowObs)
  | .caught => some (self.onNetworkChanged .Connecting, [])
  | .caughtLater needAec => (self.onNetworkChanged .Connecting).setWorker ⟨Worker.start needAec false, 0, false⟩
  | .started needAec => (self.onNetworkChanged .Connecting).setWorker ⟨Worker.start needAec true, 0, true⟩

/-- `on_pushButton_connecting_clicked`. -/
def on_pushButton_connecting_clicked (self : Window) (r : GotoWork) : Option (Window × List WindowObs) :=
  match self.currentUiState_ with
  | .Disconnected => self.gotoWork r
  | .Connected =>
    match self.current with
    | some _ => some ({ self with stopping := true }, [])
    | none => some (self.onNetworkChanged .Disconnected, [])
  | .Connecting => some (self, [])

/-- The main thread in `syncStop`, and after it. -/
def syncStop (self : Window) : Option (Window × List WindowObs) :=
  match self.worker_, self.current with
  | some k, some session =>
    if session.worker.stop = .returned then
      some ({ self with worker_ := none, stopping := false }.onNetworkChanged .Disconnected, [])
    else
      match session.worker.stopStep with
      | none => none
      | some (w, _) => some ({ self with workers := self.workers.set k { session with worker := w } }, [])
  | _, _ => none

/-- `on_toggleButton_micMute_clicked`. -/
def on_toggleButton_micMute_clicked (self : Window) (checked : Bool) : Window :=
  let self : Window := { self with ui := { self.ui with toggleButton_micMute := checked } }
  let self : Window :=
    match self.worker_, self.current with
    | some k, some session =>
      { self with workers := self.workers.set k { session with
        worker := { session.worker with uplink := { session.worker.uplink with mute_ := checked } } } }
    | _, _ => self
  if checked then self.onVolumeChanged ⟨.In, 0, 0⟩ else self

/-- What `toggleState` posts, and `durationReporter_` after it where there is no connection. -/
def toggleState (session : Session) : WorkerObs → List WindowEvent
  | .toggled .Disconnected =>
    match session.worker.net with
    | .connecting _ =>
      [.ShowTextMessage "Could not connect to Server...", .NetworkState .Disconnected] ++
        if session.worker.durationReporter_ then [.SetDuration 0] else []
    | _ => [.ShowTextMessage "Could not Login to Server...", .NetworkState .Disconnected]
  | .toggled newState => [.ShowTextMessage "", .NetworkState newState]
  | .sent _ => []

/-- What the reporters post: of the timer, and of the microphone's meter. -/
def reported (session : Session) (level_ recentMaxLevel_ : UInt8) : WorkerAction → List WindowEvent
  | .timer => if session.worker.timer = .body then [.SetDuration session.s] else []
  | .audio _ _ => [.AudioVolume ⟨.In, level_, recentMaxLevel_⟩]
  | _ => []

/-- What is posted at a step of a worker's thread. -/
def posted (session : Session) (a : WorkerAction) (o : List WorkerObs) (level_ recentMaxLevel_ : UInt8) :
    List WindowEvent :=
  o.flatMap (toggleState session) ++ reported session level_ recentMaxLevel_ a

/-- `syncStop` and `setMute` are the main thread's. -/
def isMain : WorkerAction → Bool
  | .stop => true
  | .setMute _ => true
  | _ => false

/-- A worker whose thread runs, with the `static`s as they are. -/
def withStatics (self : Window) (w : Worker) : Worker :=
  { w with heartbeatTime := self.heartbeatTime, uplink := { w.uplink with lastTimeStamp := self.lastTimeStamp } }

/-- A step of a worker's thread. -/
def thread (v : Version) (self : Window) (k : ℕ) (a : WorkerAction) (level_ recentMaxLevel_ : UInt8) :
    Option (Window × List WindowObs) :=
  match self.workers[k]? with
  | none => none
  | some session =>
    if !session.started ∨ isMain a then none
    else
      match (self.withStatics session.worker).step v a with
      | none => none
      | some (w, o) =>
        let s := match a with
          | .timer => if session.worker.timer = .body then session.s + 1 else session.s
          | _ => session.s
        some ({ self with
          workers := self.workers.set k { session with worker := w, s }
          events := self.events ++ posted session a o level_ recentMaxLevel_
          heartbeatTime := w.heartbeatTime
          lastTimeStamp := w.uplink.lastTimeStamp }, o.map (.worker k))

def step (v : Version) (self : Window) : WindowAction → Option (Window × List WindowObs)
  | .event =>
    if self.stopping then none
    else
      match self.events with
      | [] => none
      | e :: events => some ({ self with events }.event e, [])
  | .clickConnecting r =>
    if self.stopping then none
    else if self.ui.pushButton_connecting then self.on_pushButton_connecting_clicked r
    else some (self, [])
  | .clickMicMute =>
    if self.stopping then none
    else
      let checked := !self.ui.toggleButton_micMute
      some (self.on_toggleButton_micMute_clicked checked, [.micMute checked])
  | .keyF2 => if self.stopping then none else some (self.toggleAdvancedMode !self.advancedMode_, [])
  | .syncStop => if self.stopping then self.syncStop else none
  | .thread k a level_ recentMaxLevel_ => self.thread v k a level_ recentMaxLevel_
  | .outVolume k level_ recentMaxLevel_ =>
    match self.workers[k]? with
    | none => none
    | some session =>
      if session.worker.running ∨ session.worker.callback = .unmuted then
        some (self.post (.AudioVolume ⟨.Out, level_, recentMaxLevel_⟩), [])
      else none

/-- A run from the constructor. -/
abbrev exec (v : Version) (as : List WindowAction) : Option (Window × List WindowObs) :=
  Lts.exec (step v) create as

/-! ### The widgets -/

/-- The states that wait in the queue. -/
def statesOf (events : List WindowEvent) : List NetworkState :=
  events.filterMap fun
    | .NetworkState state_ => some state_
    | _ => none

/-- What is written on the button. -/
def textOf : NetworkState → String
  | .Disconnected => "Connect!"
  | .Connecting => "Connecting..."
  | .Connected => "Disconnect!"

/-- What its icon is. -/
def iconOf : NetworkState → String
  | .Connected => ":/hang_up.png"
  | _ => ":/call_up.png"

/-- The widgets are those of the state, and the meter is empty while the microphone is muted. -/
structure Coherent (window : Window) : Prop where
  host : window.ui.lineEdit_serverHost = decide (window.currentUiState_ = .Disconnected)
  port : window.ui.lineEdit_serverPort = decide (window.currentUiState_ = .Disconnected)
  needAec : window.ui.checkBox_needAec = decide (window.currentUiState_ = .Disconnected)
  button : window.ui.pushButton_connecting = decide (window.currentUiState_ ≠ .Connecting)
  text : window.ui.text = textOf window.currentUiState_
  icon : window.ui.icon = iconOf window.currentUiState_
  details : window.ui.groupBox_details = window.advancedMode_
  meter : window.ui.toggleButton_micMute = true → ∀ i < MAX_VOLUME_LEVEL, window.ui.label_img_ (0, i) = .empty
  pending : .Connecting ∉ statesOf window.events

theorem statesOf_append (a b : List WindowEvent) : statesOf (a ++ b) = statesOf a ++ statesOf b :=
  List.filterMap_append

theorem draw_concat (label_img_ : ℕ × ℕ → Bar) (pixmaps : List ((ℕ × ℕ) × Bar)) (p : (ℕ × ℕ) × Bar) :
    draw label_img_ (pixmaps ++ [p]) = Function.update (draw label_img_ pixmaps) p.1 p.2 := by
  rw [draw, List.foldl_append]
  rfl

/-- A label that gets no picture keeps its own. -/
theorem draw_of_ne {label_img_ : ℕ × ℕ → Bar} {pixmaps : List ((ℕ × ℕ) × Bar)} {x : ℕ × ℕ}
    (h : ∀ p ∈ pixmaps, p.1 ≠ x) : draw label_img_ pixmaps x = label_img_ x := by
  induction pixmaps using List.reverseRecOn with
  | nil => rfl
  | append_singleton pixmaps p ih =>
    rw [draw_concat, Function.update_of_ne (h p (by simp)).symm]
    exact ih fun q hq => h q (List.mem_append_left _ hq)

/-- A label that gets one picture only has it. -/
theorem draw_of_mem {label_img_ : ℕ × ℕ → Bar} {pixmaps : List ((ℕ × ℕ) × Bar)} {x : ℕ × ℕ} {b : Bar}
    (hx : ∃ p ∈ pixmaps, p.1 = x) (h : ∀ p ∈ pixmaps, p.2 = b) : draw label_img_ pixmaps x = b := by
  induction pixmaps using List.reverseRecOn with
  | nil =>
    obtain ⟨p, hp, -⟩ := hx
    cases hp
  | append_singleton pixmaps p ih =>
    rw [draw_concat]
    by_cases hp : x = p.1
    · rw [hp, Function.update_self]
      exact h p (by simp)
    · rw [Function.update_of_ne hp]
      refine ih ?_ fun q hq => h q (List.mem_append_left _ hq)
      obtain ⟨q, hq, rfl⟩ := hx
      rcases List.mem_append.mp hq with hq | hq
      · exact ⟨q, hq, rfl⟩
      · rw [List.mem_singleton.mp hq] at hp
        exact absurd rfl hp

/-- The levels of the speaker leave the labels of the microphone alone. -/
theorem draw_out (label_img_ : ℕ × ℕ → Bar) (level_ recentMaxLevel_ : UInt8) (i : ℕ) :
    draw label_img_ (MainWindow.onVolumeChanged ⟨.Out, level_, recentMaxLevel_⟩) (0, i) = label_img_ (0, i) := by
  refine draw_of_ne fun p hp he => ?_
  have hrow : p.1.1 = 1 := by
    rcases List.mem_append.mp hp with hp | hp
    · obtain ⟨j, -, rfl⟩ := List.mem_map.mp hp
      rfl
    · split at hp
      · rw [List.mem_singleton.mp hp]
        rfl
      · cases hp
  rw [he] at hrow
  exact Nat.zero_ne_one hrow

/-- A silent microphone empties its labels. -/
theorem draw_silent (label_img_ : ℕ × ℕ → Bar) {i : ℕ} (hi : i < MAX_VOLUME_LEVEL) :
    draw label_img_ (MainWindow.onVolumeChanged ⟨.In, 0, 0⟩) (0, i) = .empty := by
  have hpixmaps : MainWindow.onVolumeChanged ⟨.In, 0, 0⟩ =
      (List.range MAX_VOLUME_LEVEL).map fun i => ((0, i), Bar.empty) := by decide
  rw [hpixmaps]
  refine draw_of_mem ⟨_, List.mem_map.mpr ⟨i, List.mem_range.mpr hi, rfl⟩, rfl⟩ fun p hp => ?_
  obtain ⟨j, -, rfl⟩ := List.mem_map.mp hp
  rfl

namespace Coherent

variable {self self' : Window}

/-- What leaves the widgets alone and posts no `Connecting`. -/
theorem of_eq (h : self.Coherent) (hui : self'.ui = self.ui) (hstate : self'.currentUiState_ = self.currentUiState_)
    (hmode : self'.advancedMode_ = self.advancedMode_) (hpending : .Connecting ∉ statesOf self'.events) :
    self'.Coherent := by
  obtain ⟨_, _, _, _, _, _, _, _, _⟩ := self'
  cases hui
  cases hstate
  cases hmode
  exact ⟨h.host, h.port, h.needAec, h.button, h.text, h.icon, h.details, h.meter, hpending⟩

/-- `Connecting` follows `Disconnected` only, so the icon is right. -/
theorem onNetworkChanged (h : self.Coherent) {networkState : NetworkState}
    (hn : networkState = .Connecting → self.currentUiState_ = .Disconnected) :
    (self.onNetworkChanged networkState).Coherent := by
  cases networkState with
  | Disconnected =>
    refine ⟨rfl, rfl, rfl, rfl, rfl, rfl, h.details, h.meter, ?_⟩
    have hpending : statesOf (self.events ++ [.SetDuration 0]) = statesOf self.events := by
      rw [statesOf_append]
      exact List.append_nil _
    exact hpending ▸ h.pending
  | Connecting =>
    have hicon : self.ui.icon = iconOf .Disconnected := hn rfl ▸ h.icon
    exact ⟨rfl, rfl, rfl, rfl, rfl, hicon, h.details, h.meter, h.pending⟩
  | Connected => exact ⟨rfl, rfl, rfl, rfl, rfl, rfl, h.details, h.meter, h.pending⟩

theorem onVolumeChanged (h : self.Coherent) {aivl : AudioIoVolume}
    (hm : self.ui.toggleButton_micMute = true → aivl.io_ = .Out) : (self.onVolumeChanged aivl).Coherent := by
  refine ⟨h.host, h.port, h.needAec, h.button, h.text, h.icon, h.details, fun hmute i hi => ?_, h.pending⟩
  obtain ⟨io_, level_, recentMaxLevel_⟩ := aivl
  cases hm hmute
  exact (draw_out _ _ _ _).trans (h.meter hmute i hi)

/-- An event of the window's own. -/
theorem event (h : self.Coherent) {e : WindowEvent} (he : e ≠ .NetworkState .Connecting) :
    (self.event e).Coherent := by
  cases e with
  | AudioVolume aivl =>
    unfold Window.event
    dsimp only
    split
    · exact h
    · rename_i hno
      refine h.onVolumeChanged fun hmute => ?_
      cases hio : aivl.io_ with
      | In => exact absurd ⟨hio, hmute⟩ hno
      | Out => rfl
  | Vad isActive_ => exact ⟨h.host, h.port, h.needAec, h.button, h.text, h.icon, h.details, h.meter, h.pending⟩
  | NetworkState state_ => exact h.onNetworkChanged fun hstate => absurd (by rw [hstate]) he
  | ShowTextMessage message_ =>
    exact ⟨h.host, h.port, h.needAec, h.button, h.text, h.icon, h.details, h.meter, h.pending⟩
  | SetDuration duation_ => exact ⟨h.host, h.port, h.needAec, h.button, h.text, h.icon, h.details, h.meter, h.pending⟩

theorem setWorker (h : self.Coherent) {session : Session} {o : List WindowObs}
    (hs : self.setWorker session = some (self', o)) : self'.Coherent := by
  unfold Window.setWorker at hs
  split at hs
  · split at hs
    · cases hs
    · cases hs
      exact h.of_eq rfl rfl rfl h.pending
  · cases hs
    exact h.of_eq rfl rfl rfl h.pending

end Coherent

/-- No thread of a worker toggles `Connecting`. -/
theorem toggled_ne {v : Version} {s s' : Worker} {a : WorkerAction} {o : List WorkerObs}
    (h : s.step v a = some (s', o)) : .Connecting ∉ Worker.toggledOf o := by
  by_cases hnet : ∃ env, a = .net env
  · obtain ⟨env, rfl⟩ := hnet
    have hstep : s.netStep v env = some (s', o) := h
    cases hn : s.net <;> simp only [Worker.netStep, hn] at hstep
    case heartbeat =>
      cases hstep
      rw [Worker.toggledOf_sendHeartbeat]
      exact List.not_mem_nil
    case login =>
      cases hstep
      rw [Worker.toggledOf_send]
      exact List.not_mem_nil
    case logout =>
      cases hstep
      rw [Worker.toggledOf_send]
      exact List.not_mem_nil
    all_goals try split_ifs at hstep
    all_goals cases hstep <;> decide
  · rw [Worker.toggledOf_step h fun env he => hnet ⟨env, he⟩]
    exact List.not_mem_nil

/-- The states that a step of a worker posts are those that it toggles. -/
theorem statesOf_posted (session : Session) (a : WorkerAction) (o : List WorkerObs) (level_ recentMaxLevel_ : UInt8) :
    statesOf (posted session a o level_ recentMaxLevel_) = Worker.toggledOf o := by
  have hobs : ∀ x : WorkerObs, statesOf (toggleState session x) = Worker.toggledOf [x] := by
    rintro (p | newState)
    · rfl
    · cases newState
      · simp only [toggleState]
        split
        · split <;> rfl
        · rfl
      · rfl
      · rfl
  have hrest : statesOf (reported session level_ recentMaxLevel_ a) = [] := by
    cases a with
    | timer =>
      simp only [reported]
      split <;> rfl
    | _ => rfl
  rw [posted, statesOf_append, hrest, List.append_nil]
  induction o with
  | nil => rfl
  | cons x o ih =>
    rw [List.flatMap_cons, statesOf_append, hobs, ih]
    exact (Worker.toggledOf_append [x] o).symm

/-- An event leaves the workers alone, and the button for muting. -/
theorem event_frame (self : Window) (e : WindowEvent) :
    (self.event e).ui.toggleButton_micMute = self.ui.toggleButton_micMute ∧
      (self.event e).workers = self.workers ∧ (self.event e).worker_ = self.worker_ ∧
      (self.event e).stopping = self.stopping := by
  cases e with
  | AudioVolume aivl =>
    unfold event
    dsimp only
    split <;> exact ⟨rfl, rfl, rfl, rfl⟩
  | NetworkState state_ => cases state_ <;> exact ⟨rfl, rfl, rfl, rfl⟩
  | _ => exact ⟨rfl, rfl, rfl, rfl⟩

/-- The worker that another one takes the place of. -/
theorem current_set {self : Window} {k : ℕ} {session : Session} :
    ({ self with workers := self.workers.set k session } : Window).current =
      if self.worker_ = some k then self.current.map fun _ => session else self.current := by
  unfold current
  cases hj : self.worker_ with
  | none => rfl
  | some j =>
    simp only [Option.bind_some, List.getElem?_set]
    by_cases hk : k = j
    · subst hk
      rw [if_pos rfl, if_pos rfl]
      split
      · rename_i hlt
        rw [List.getElem?_eq_getElem hlt]
        rfl
      · rename_i hlt
        rw [List.getElem?_eq_none (Nat.le_of_not_lt hlt)]
        rfl
    · rw [if_neg hk, if_neg fun he => hk (Option.some.inj he).symm]

/-- A step of a worker's thread, as the window sees it. -/
theorem thread_spec {v : Version} {self self' : Window} {k : ℕ} {a : WorkerAction} {level_ recentMaxLevel_ : UInt8}
    {o : List WindowObs} (h : self.thread v k a level_ recentMaxLevel_ = some (self', o)) :
    ∃ session w o₁ s, self.workers[k]? = some session ∧ session.started = true ∧ isMain a = false ∧
      (self.withStatics session.worker).step v a = some (w, o₁) ∧ o = o₁.map (.worker k) ∧
      self' = { self with
        workers := self.workers.set k { session with worker := w, s }
        events := self.events ++ posted session a o₁ level_ recentMaxLevel_
        heartbeatTime := w.heartbeatTime
        lastTimeStamp := w.uplink.lastTimeStamp } := by
  unfold thread at h
  split at h
  · cases h
  · rename_i session hsession
    split at h
    · cases h
    · rename_i hrun
      rw [not_or, Bool.not_eq_true', Bool.not_eq_false, Bool.not_eq_true] at hrun
      split at h
      · cases h
      · rename_i w o₁ hstep
        cases h
        exact ⟨session, w, o₁, _, hsession, hrun.1, hrun.2, hstep, rfl, rfl⟩

/-- A click on the button for muting: what it changes of the window, and of the worker. -/
theorem micMute_spec (self : Window) (checked : Bool) : ∃ workers,
    self.on_toggleButton_micMute_clicked checked =
      (if checked then
        ({ self with ui := { self.ui with toggleButton_micMute := checked }, workers } : Window).onVolumeChanged
          ⟨.In, 0, 0⟩
      else { self with ui := { self.ui with toggleButton_micMute := checked }, workers }) ∧
    ∀ k, workers[k]? = if self.worker_ = some k then (self.workers[k]?).map fun session =>
        { session with worker := { session.worker with uplink := { session.worker.uplink with mute_ := checked } } }
      else self.workers[k]? := by
  unfold on_toggleButton_micMute_clicked
  cases hk : self.worker_ with
  | none => exact ⟨self.workers, by simp, fun k => by simp⟩
  | some k =>
    cases hsession : self.workers[k]? with
    | none =>
      refine ⟨self.workers, by simp [current, hsession], fun j => ?_⟩
      split
      · rename_i hj
        cases hj
        rw [hsession]
        rfl
      · rfl
    | some session =>
      refine ⟨_, by simp only [current, hsession, Option.bind_some]; rfl, fun j => ?_⟩
      rw [List.getElem?_set]
      by_cases hj : k = j
      · subst hj
        rw [if_pos rfl, if_pos rfl, if_pos (List.getElem?_eq_some_iff.mp hsession).1, hsession]
        rfl
      · rw [if_neg hj, if_neg fun he => hj (Option.some.inj he)]

theorem coherent_create : create.Coherent := by
  refine ⟨rfl, rfl, rfl, rfl, rfl, rfl, rfl, fun hmute => ?_, by decide⟩
  cases hmute

/-- **One step** keeps the widgets right. -/
theorem coherent_step {v : Version} {self self' : Window} {a : WindowAction} {o : List WindowObs}
    (h : self.Coherent) (hs : self.step v a = some (self', o)) : self'.Coherent := by
  cases a with
  | event =>
    simp only [step] at hs
    split at hs
    · cases hs
    · split at hs
      · cases hs
      · rename_i e events he
        cases hs
        have hpending := h.pending
        rw [he] at hpending
        have hcons : statesOf (e :: events) = statesOf [e] ++ statesOf events := statesOf_append [e] events
        have htaken : ({ self with events } : Window).Coherent :=
          h.of_eq rfl rfl rfl fun hin => hpending (hcons ▸ List.mem_append_right _ hin)
        refine htaken.event ?_
        rintro rfl
        exact hpending List.mem_cons_self
  | clickConnecting r =>
    simp only [step] at hs
    split_ifs at hs with hstop hbutton
    · cases hstate : self.currentUiState_ <;> simp only [on_pushButton_connecting_clicked, hstate] at hs
      case Disconnected =>
        have hconn : (self.onNetworkChanged .Connecting).Coherent := h.onNetworkChanged fun _ => hstate
        cases r with
        | caught =>
          cases hs
          exact hconn
        | caughtLater needAec => exact hconn.setWorker hs
        | started needAec => exact hconn.setWorker hs
      case Connecting =>
        cases hs
        exact h
      case Connected =>
        split at hs
        · cases hs
          exact h.of_eq rfl hstate.symm rfl h.pending
        · cases hs
          exact h.onNetworkChanged (fun hc => by cases hc)
    · cases hs
      exact h
  | clickMicMute =>
    simp only [step] at hs
    split_ifs at hs
    cases hs
    obtain ⟨workers, hclick, -⟩ := micMute_spec self !self.ui.toggleButton_micMute
    rw [hclick]
    cases hmute : self.ui.toggleButton_micMute with
    | true =>
      refine ⟨h.host, h.port, h.needAec, h.button, h.text, h.icon, h.details, ?_, h.pending⟩
      exact fun hc => absurd hc Bool.false_ne_true
    | false =>
      refine ⟨h.host, h.port, h.needAec, h.button, h.text, h.icon, h.details, ?_, h.pending⟩
      exact fun _ i hi => draw_silent _ hi
  | keyF2 =>
    simp only [step] at hs
    split_ifs at hs
    cases hs
    exact ⟨h.host, h.port, h.needAec, h.button, h.text, h.icon, rfl, h.meter, h.pending⟩
  | syncStop =>
    simp only [step] at hs
    split_ifs at hs
    unfold syncStop at hs
    split at hs
    · split_ifs at hs
      · cases hs
        refine Coherent.onNetworkChanged ?_ (fun hc => by cases hc)
        exact h.of_eq rfl rfl rfl h.pending
      · split at hs
        · cases hs
        · cases hs
          exact h.of_eq rfl rfl rfl h.pending
    · cases hs
  | thread k a level_ recentMaxLevel_ =>
    obtain ⟨session, w, o₁, s, -, -, -, hstep, -, rfl⟩ := thread_spec hs
    refine h.of_eq rfl rfl rfl ?_
    rw [statesOf_append, statesOf_posted]
    exact fun hin => (List.mem_append.mp hin).elim h.pending (toggled_ne hstep)
  | outVolume k level_ recentMaxLevel_ =>
    simp only [step] at hs
    split at hs
    · cases hs
    · split_ifs at hs
      cases hs
      refine h.of_eq rfl rfl rfl ?_
      have hsame : statesOf (self.events ++ [.AudioVolume ⟨.Out, level_, recentMaxLevel_⟩]) = statesOf self.events := by
        rw [statesOf_append]
        exact List.append_nil _
      exact hsame ▸ h.pending

/-! ### The microphone -/

/-- A worker is made, or the button for muting is clicked. -/
def isMaking : WindowObs → Bool
  | .created => true
  | .micMute _ => true
  | .worker _ _ => false

def isMicMute : WindowObs → Bool
  | .micMute _ => true
  | .created => false
  | .worker _ _ => false

/-- What a click leaves; a new worker is not muted. -/
def checkedOf : Option WindowObs → Bool
  | some (.micMute checked) => checked
  | _ => false

/-- A block of the microphone: what it leaves of the voice decision, and whether it goes out as speech. -/
theorem vadSend_spec {v : Version} {u u' : Uplink} {f : Frame} {packets : List NetPacket}
    (h : u.vadSend v f = some (u', packets)) :
    (∃ sn, u' = { (u.onVoice f).onClock f with sn_sendingAudio_ := sn }) ∧
      ((∃ p ∈ packets, p.payloadType = .AudioMessage) ↔ u'.sendOpus_ = true) := by
  unfold Uplink.vadSend at h
  split at h
  · cases h
  dsimp only at h
  set d := (u.onVoice f).onClock f
  split at h
  · rename_i hs
    split at h
    · cases h
    · obtain ⟨p, rfl, hp, -, rfl⟩ := Uplink.sendNext_spec h
      exact ⟨⟨_, rfl⟩, iff_of_true ⟨p, List.mem_singleton_self p, hp⟩ hs⟩
  · rename_i hs
    split at h
    · obtain ⟨p, rfl, hp, -, rfl⟩ := Uplink.sendNext_spec h
      refine ⟨⟨_, rfl⟩, iff_of_false ?_ hs⟩
      rintro ⟨q, hq, ht⟩
      rw [List.mem_singleton.mp hq, hp] at ht
      cases ht
    · obtain ⟨rfl, rfl⟩ := Prod.mk.inj (Option.some.inj h)
      exact ⟨⟨_, rfl⟩, iff_of_false (fun ⟨_, hq, _⟩ => List.not_mem_nil hq) hs⟩

theorem mute_vadSend {v : Version} {u u' : Uplink} {f : Frame} {sent : List NetPacket}
    (h : u.vadSend v f = some (u', sent)) : u'.mute_ = u.mute_ := by
  obtain ⟨⟨sn, rfl⟩, -⟩ := vadSend_spec h
  unfold Uplink.onClock Uplink.onVoice
  dsimp only
  split_ifs <;> rfl

theorem uplink_sendHeartbeat (v : Version) (s : Worker) (env : NetEnv) :
    (s.sendHeartbeat v env).1.uplink = s.uplink := by
  unfold Worker.sendHeartbeat
  dsimp only
  split <;> rfl

/-- The threads of a worker leave `mute_` alone. -/
theorem mute_step {v : Version} {s s' : Worker} {a : WorkerAction} {o : List WorkerObs} (ha : isMain a = false)
    (h : s.step v a = some (s', o)) : s'.uplink.mute_ = s.uplink.mute_ := by
  cases a with
  | net env =>
    have hstep : s.netStep v env = some (s', o) := h
    cases hn : s.net <;> simp only [Worker.netStep, hn] at hstep
    case heartbeat =>
      cases hstep
      exact congrArg Uplink.mute_ (uplink_sendHeartbeat v s env)
    all_goals try split_ifs at hstep
    all_goals cases hstep <;> rfl
  | stop => cases ha
  | timer =>
    simp only [Worker.step, Worker.timerStep] at h
    split at h <;> cases h <;> rfl
  | callback =>
    simp only [Worker.step, Worker.callbackStep] at h
    split at h <;> cases h
    rfl
  | audio f ok =>
    simp only [Worker.step, Worker.audioStep] at h
    split_ifs at h
    split at h
    · cases h
    · rename_i u packets hu
      cases h
      exact mute_vadSend hu
  | receive type ok up =>
    simp only [Worker.step, Worker.receiveStep] at h
    split_ifs at h <;> cases h <;> rfl
  | setMute mute => cases ha

/-- What the clicks and the makings of workers say of the microphone. -/
structure MuteKnown (window : Window) (o : List WindowObs) : Prop where
  button : window.ui.toggleButton_micMute = checkedOf (History.last isMicMute o)
  worker : ∀ session, window.current = some session →
    session.worker.uplink.mute_ = checkedOf (History.last isMaking o)

theorem uplink_stopStep {s s' : Worker} {o : List WorkerObs} (h : s.stopStep = some (s', o)) :
    s'.uplink = s.uplink := by
  cases hs : s.stop <;> simp only [Worker.stopStep, hs] at h
  case joinNet =>
    split at h <;> cases h
    rfl
  all_goals try split_ifs at h
  all_goals cases h <;> rfl

/-- A step that shows nothing of the microphone. -/
theorem MuteKnown.of_eq {window window' : Window} {o o' : List WindowObs} (h : window.MuteKnown o)
    (hui : window'.ui.toggleButton_micMute = window.ui.toggleButton_micMute)
    (hcurrent : ∀ session', window'.current = some session' → ∃ session, window.current = some session ∧
      session'.worker.uplink.mute_ = session.worker.uplink.mute_)
    (ho : ∀ x ∈ o', isMaking x = false) : window'.MuteKnown (o ++ o') := by
  have ho' : ∀ x ∈ o', isMicMute x = false := by
    intro x hx
    have hmake := ho x hx
    cases x with
    | worker k y => rfl
    | created => rfl
    | micMute checked => cases hmake
  refine ⟨?_, fun session' hs => ?_⟩
  · rw [hui, History.last_append_of_none _ ho']
    exact h.button
  · obtain ⟨session, hsession, hmute⟩ := hcurrent session' hs
    rw [hmute, History.last_append_of_none _ ho]
    exact h.worker session hsession

/-- A new worker is current, and not muted. -/
theorem MuteKnown.setWorker {window window' : Window} {o o' : List WindowObs} (h : window.MuteKnown o)
    {session : Session} (hm : session.worker.uplink.mute_ = false)
    (hs : window.setWorker session = some (window', o')) : window'.MuteKnown (o ++ o') := by
  obtain ⟨hui, hcurrent, rfl⟩ : window'.ui = window.ui ∧ window'.current = some session ∧ o' = [.created] := by
    unfold Window.setWorker at hs
    split at hs
    · split at hs
      · cases hs
      · cases hs
        refine ⟨rfl, ?_, rfl⟩
        simp [current]
    · cases hs
      refine ⟨rfl, ?_, rfl⟩
      simp [current]
  refine ⟨?_, fun session' hs' => ?_⟩
  · rw [hui, History.last_concat]
    exact h.button
  · rw [hcurrent] at hs'
    cases hs'
    rw [History.last_concat]
    exact hm

/-- **One step.** -/
theorem muteKnown_step {v : Version} {window window' : Window} {a : WindowAction} {o o' : List WindowObs}
    (h : window.MuteKnown o) (hs : window.step v a = some (window', o')) : window'.MuteKnown (o ++ o') := by
  have hnone : ∀ x ∈ ([] : List WindowObs), isMaking x = false := fun x hx => absurd hx List.not_mem_nil
  cases a with
  | event =>
    simp only [step] at hs
    split at hs
    · cases hs
    · split at hs
      · cases hs
      · rename_i e events he
        cases hs
        obtain ⟨hui, hworkers, hworker_, -⟩ := event_frame { window with events } e
        refine h.of_eq hui (fun session hsession => ⟨session, ?_, rfl⟩) hnone
        rwa [current, hworkers, hworker_] at hsession
  | clickConnecting r =>
    simp only [step] at hs
    split_ifs at hs with hstop hbutton
    · cases hstate : window.currentUiState_ <;> simp only [on_pushButton_connecting_clicked, hstate] at hs
      case Disconnected =>
        have hconn : (window.onNetworkChanged .Connecting).MuteKnown o := ⟨h.button, h.worker⟩
        cases r with
        | caught =>
          cases hs
          exact hconn.of_eq rfl (fun session hsession => ⟨session, hsession, rfl⟩) hnone
        | caughtLater needAec => exact hconn.setWorker rfl hs
        | started needAec => exact hconn.setWorker rfl hs
      case Connecting =>
        cases hs
        exact h.of_eq rfl (fun session hsession => ⟨session, hsession, rfl⟩) hnone
      case Connected =>
        split at hs <;> cases hs <;> exact h.of_eq rfl (fun session hsession => ⟨session, hsession, rfl⟩) hnone
    · cases hs
      exact h.of_eq rfl (fun session hsession => ⟨session, hsession, rfl⟩) hnone
  | clickMicMute =>
    simp only [step] at hs
    split_ifs at hs
    cases hs
    set checked := !window.ui.toggleButton_micMute
    obtain ⟨workers, hclick, hworkers⟩ := micMute_spec window checked
    refine ⟨?_, fun session hsession => ?_⟩
    · rw [hclick, History.last_concat]
      split <;> rfl
    · have hcurrent : ∃ k, window.worker_ = some k ∧ workers[k]? = some session := by
        rw [hclick] at hsession
        cases hk : window.worker_ with
        | none =>
          exfalso
          revert hsession
          split <;> simp [current, Window.onVolumeChanged, hk]
        | some k =>
          refine ⟨k, rfl, ?_⟩
          revert hsession
          split <;> simp [current, Window.onVolumeChanged, hk]
      obtain ⟨k, hk, hsession'⟩ := hcurrent
      rw [hworkers, if_pos hk] at hsession'
      obtain ⟨old, -, rfl⟩ := Option.map_eq_some_iff.mp hsession'
      rw [History.last_concat]
      rfl
  | keyF2 =>
    simp only [step] at hs
    split_ifs at hs
    cases hs
    exact h.of_eq rfl (fun session hsession => ⟨session, hsession, rfl⟩) hnone
  | syncStop =>
    simp only [step] at hs
    split_ifs at hs
    unfold syncStop at hs
    split at hs
    · rename_i k session hk hsession
      split_ifs at hs
      · cases hs
        exact h.of_eq rfl (fun session' hs' => by cases hs') hnone
      · split at hs
        · cases hs
        · rename_i w o₁ hstep
          cases hs
          refine h.of_eq rfl (fun session' hs' => ⟨session, hsession, ?_⟩) hnone
          rw [current_set, if_pos hk, hsession] at hs'
          cases hs'
          exact congrArg Uplink.mute_ (uplink_stopStep hstep)
    · cases hs
  | thread k a level_ recentMaxLevel_ =>
    obtain ⟨session, w, o₁, s, hsession, -, ha, hstep, rfl, rfl⟩ := thread_spec hs
    refine h.of_eq rfl (fun session' hs' => ?_) fun x hx => ?_
    · have hset : (if window.worker_ = some k then window.current.map fun _ => { session with worker := w, s }
          else window.current) = some session' := current_set.symm.trans hs'
      split at hset
      · rename_i hk
        have hcurrent : window.current = some session := by rw [current, hk]; exact hsession
        rw [hcurrent] at hset
        cases hset
        have hmute : w.uplink.mute_ = (window.withStatics session.worker).uplink.mute_ := mute_step ha hstep
        exact ⟨session, hcurrent, hmute⟩
      · exact ⟨session', hset, rfl⟩
    · obtain ⟨y, -, rfl⟩ := List.mem_map.mp hx
      rfl
  | outVolume k level_ recentMaxLevel_ =>
    simp only [step] at hs
    split at hs
    · cases hs
    · split_ifs at hs
      cases hs
      exact h.of_eq rfl (fun session hsession => ⟨session, hsession, rfl⟩) hnone

end Window

open Window

/-- **The widgets are right.** In every run, whatever the user does and however the threads of
all workers run: what is enabled, the text and the icon are those of `currentUiState_`, the details are
there in the advanced mode, and the meter is empty while the microphone's button is down. -/
theorem widgets_coherent {v : Version} {as : List WindowAction} {window : Window} {o : List WindowObs}
    (h : Window.exec v as = some (window, o)) : window.Coherent := by
  exact Lts.history_rule (Window.step v) (fun _ window _ => window.Coherent) coherent_create
    (fun _ _ _ _ _ _ hc hstep => coherent_step hc hstep) h

/-- The widgets, while a call is being made and the microphone is muted. -/
theorem widgets_coherent_connecting : ∃ window o,
    Window.exec sampleVersion [.clickMicMute, .clickConnecting (.started false)] = some (window, o) ∧
    window.ui.text = "Connecting..." ∧ window.ui.icon = ":/call_up.png" ∧ window.ui.label_img_ (0, 3) = .empty := by
  have hrun : Window.exec sampleVersion [.clickMicMute, .clickConnecting (.started false)] = some (_, _) := rfl
  have hc := widgets_coherent hrun
  exact ⟨_, _, hrun, hc.text, hc.icon, hc.meter rfl 3 (by decide)⟩

/-- **When the microphone is muted.** In every run in which there is a worker: its `mute_` is what the button
shows unless the worker was made after the last click on the button, and that click muted. Where they
differ, the worker is not muted, and the meter is empty all the same. -/
theorem mute_agrees_iff {v : Version} {as : List WindowAction} {window : Window} {o : List WindowObs}
    (h : Window.exec v as = some (window, o)) {session : Session} (hs : window.current = some session) :
    (session.worker.uplink.mute_ = window.ui.toggleButton_micMute ↔
      ¬ (History.last isMaking o = some .created ∧ History.last isMicMute o = some (.micMute true))) ∧
    (session.worker.uplink.mute_ ≠ window.ui.toggleButton_micMute →
      session.worker.uplink.mute_ = false ∧ ∀ i < MAX_VOLUME_LEVEL, window.ui.label_img_ (0, i) = .empty) := by
  obtain ⟨hcoherent, hknown⟩ : window.Coherent ∧ window.MuteKnown o := by
    refine Lts.history_rule (Window.step v) (fun _ window o => window.Coherent ∧ window.MuteKnown o)
      ⟨coherent_create, rfl, fun session hs => by cases hs⟩ ?_ h
    exact fun _ _ _ _ _ _ hc hstep => ⟨coherent_step hc.1 hstep, muteKnown_step hc.2 hstep⟩
  obtain ⟨hsome, hnone⟩ := History.last_of_imp isMaking (q := isMicMute) (h := o) fun x hx => by
    cases x <;> first | rfl | cases hx
  rw [hknown.button, hknown.worker session hs]
  cases hmaking : History.last isMaking o with
  | none =>
    rw [hnone hmaking]
    simp [checkedOf]
  | some x =>
    cases x with
    | worker k y => exact absurd (History.last_mem _ hmaking).2 Bool.false_ne_true
    | micMute checked =>
      rw [hsome _ hmaking rfl]
      simp
    | created =>
      cases hmute : History.last isMicMute o with
      | none => simp [checkedOf]
      | some y =>
        cases y with
        | worker k y => exact absurd (History.last_mem _ hmute).2 Bool.false_ne_true
        | created => exact absurd (History.last_mem _ hmute).2 Bool.false_ne_true
        | micMute checked =>
          cases checked with
          | false => simp [checkedOf]
          | true =>
            have hbutton : window.ui.toggleButton_micMute = true := by rw [hknown.button, hmute]; rfl
            refine ⟨by simp [checkedOf], fun _ => ⟨rfl, hcoherent.meter hbutton⟩⟩

/-- Muted before the call: the button is down, and speech is sent. -/
theorem mute_agrees_iff_muted_before : ∃ window o session,
    Window.exec sampleVersion ([.clickMicMute, .clickConnecting (.started false)] ++
      (sampleCall ++ [.callback, sampleAudio]).map fun a => .thread 0 a 5 5) = some (window, o) ∧
    window.current = some session ∧ session.worker.uplink.mute_ ≠ window.ui.toggleButton_micMute ∧
    (o.any fun
      | .worker _ (.sent p) => p.payloadType = .AudioMessage
      | _ => false) = true := by
  have hrun : Window.exec sampleVersion ([.clickMicMute, .clickConnecting (.started false)] ++
      (sampleCall ++ [.callback, sampleAudio]).map fun a => .thread 0 a 5 5) = some (_, _) := rfl
  refine ⟨_, _, _, hrun, rfl, fun hsame => ?_, ?_⟩
  · exact (mute_agrees_iff hrun rfl).1.mp hsame ⟨by decide, by decide⟩
  · rfl

end EasyVoiceCall
