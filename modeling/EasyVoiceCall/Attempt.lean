/-
# One attempt to connect

`MainWindow::gotoWork` (`client_qt5/mainwindow.cpp`) reports `Connecting`, which
disables the button, initialises a worker and starts its net thread;
`Worker::init` and `Worker::syncStart` are in `client_essential/Worker.cpp`. A step
that fails returns an error, throws a `std::exception`, or makes the code
throw a string or a `char` pointer, and the handlers take a `std::exception` only. What
each call does is an input (`Calls`); the functions are written out with what they
throw and catch.

Only `syncStart` reports a state after `Connecting`, and not where `pClient->init`
throws. So an attempt ends connected or disconnected, with nothing thrown to the
outside, exactly when every step up to there succeeds. What the threads of `Worker`
report agrees with it, in every run (`definite_iff`).

Key definitions: `Calls`, `MainWindow.gotoWork`, `Worker.init`, `Worker.syncStart`, `Definite`.
Key theorems: `wp_init`, `wp_syncStart`, `threads_agree`, `definite_iff`.
-/
import EasyVoiceCall.Lib.Throwing
import EasyVoiceCall.Stop

namespace EasyVoiceCall

open Throwing

/-! ### What is thrown and returned -/

/-- What can leave a function: a `std::exception`, a thrown `std::string` or `char`
pointer, or the end of the program at a null pointer. -/
inductive Thrown
  | exception (what : String)
  | string (s : String)
  | charPointer (s : String)
  | nullPointer
  deriving DecidableEq

/-- What `catch (std::exception &e)` takes. -/
def Thrown.what : Thrown → Option String
  | .exception what => some what
  | _ => none

/-- `ReturnType`. -/
structure ReturnType where
  ok_ : Bool
  errorMessage_ : String
  deriving DecidableEq

namespace ReturnType

/-- The constructor from an `int`. -/
def ofInt (value : ℤ) : ReturnType := ⟨value = 0, if value = 0 then "" else toString value⟩

/-- The constructor from an error text. -/
def ofError (error : String) : ReturnType := ⟨false, error⟩

end ReturnType

/-- A call that returns, or throws a `std::exception` with this `what`. -/
abbrev Outcome (α : Type) := Except String α

/-- The two implementations of `NetClient`. -/
inductive NetClient
  | RawUdpClient
  | TcpClient
  deriving DecidableEq

/-- What an attempt changes: the states reported to `onNetworkChanged`, `pClient`, and
whether the net thread was started. -/
structure Attempt where
  states : List NetworkState
  pClient : Option NetClient
  netThread_ : Bool
  deriving DecidableEq

/-- Code of an attempt. -/
abbrev Code := Throwing Thrown Attempt

def call {α : Type} : Outcome α → Code α
  | .ok a => pure a
  | .error what => throw (.exception what)

/-- `try` and `catch (std::exception &e)`. -/
def catchStd {α : Type} (x : Code α) (h : String → Code α) : Code α := catching Thrown.what x h

/-- What each call of an attempt does, and the readings of the flags other threads set:
`isConnected` at a time of asking, `isLogin` once the wait for it is over, `gotoStop_`
before each round of the sending work. -/
structure Calls where
  settings : Outcome Unit
  create : Outcome Unit
  needAec : Bool
  WebRtcAec_Init : ℤ
  downStreamProcessor : Outcome Unit
  WebRtcVad_Init : ℤ
  WebRtcVad_set_mode : ℤ
  WebRtcNsx_Init : ℤ
  WebRtcNsx_set_policy : ℤ
  reInit : Outcome ReturnType
  audioInStub : Outcome Unit
  endpoint_init : Outcome ReturnType
  make_client : Outcome Unit
  netThread : Outcome Unit
  socket : Outcome Unit
  resolve : Outcome Unit
  receiver : Outcome Unit
  isConnected : ℕ → Bool
  sendLogin : Outcome Unit
  isLogin : Bool
  endpoint_asyncStart : Outcome ReturnType
  durationTimer : Outcome Unit
  gotoStop_ : ℕ → Bool
  sendHeartbeat : ℕ → Outcome Unit
  sendLogout : Outcome Unit

/-- `MainWindow::onNetworkChanged`. -/
def onNetworkChanged (networkState : NetworkState) : Code Unit :=
  modify fun s => { s with states := s.states ++ [networkState] }

/-! ### `Worker::init` -/

/-- What `init` reads of the configuration. -/
structure ConfigRoot where
  needAec : Bool
  protocol : String

/-- The client of a protocol. -/
def NetClient.make (protocol : String) (calls : Calls) : Code NetClient := do
  if protocol = "raw_udp" then
    call calls.make_client
    return .RawUdpClient
  else if protocol = "raw_tcp" then
    call calls.make_client
    return .TcpClient
  else
    throw (.string (protocol ++ " :unknown protocol"))

/-- `Worker::init`. -/
def Worker.init (configRoot : ConfigRoot) (calls : Calls) : Code ReturnType :=
  if configRoot.needAec ∧ calls.WebRtcAec_Init ≠ 0 then
    throw (.charPointer "WebRtcAec_Init failed")
  else do
    call calls.downStreamProcessor
    catchStd (do
        if calls.WebRtcVad_Init ≠ 0 then
          return .ofError "WebRtcVad_Init failed"
        if calls.WebRtcVad_set_mode ≠ 0 then
          return .ofError "WebRtcVad_set_mode failed"
        if calls.WebRtcNsx_Init ≠ 0 then
          return .ofError "WebRtcNsx_Init failed"
        if calls.WebRtcNsx_set_policy ≠ 0 then
          return .ofError "WebRtcNsx_set_policy failed"
        let initCodec ← call calls.reInit
        if !initCodec.ok_ then
          return .ofError "initCodec fail"
        call calls.audioInStub
        let ret ← call calls.endpoint_init
        if !ret.ok_ then
          return ret
        let client ← NetClient.make configRoot.protocol calls
        modify fun s => { s with pClient := some client }
        return .ofInt 0)
      fun what => return .ofError what

/-! ### `Worker::syncStart` -/

namespace NetClient

/-- `init`: `RawUdpClientImpl` opens a socket, resolves the host and starts its receiver;
`TcpClient` resolves the host and starts its thread. -/
def init (client : NetClient) (calls : Calls) : Code Unit := do
  match client with
  | .RawUdpClient =>
    call calls.socket
    call calls.resolve
    call calls.receiver
  | .TcpClient =>
    call calls.resolve
    call calls.receiver

/-- `isConnected`, asked for the `i`-th time. -/
def isConnected (client : NetClient) (calls : Calls) (i : ℕ) : Bool :=
  match client with
  | .RawUdpClient => true
  | .TcpClient => calls.isConnected i

/-- `send`: `RawUdpClientImpl::sendUdp` catches what `send_to` throws, `TcpClient` posts. -/
def send (client : NetClient) (send_to : Outcome Unit) : Code ReturnType :=
  match client with
  | .RawUdpClient =>
    catchStd (do
        call send_to
        return .ofInt 0)
      fun what => return .ofError what
  | .TcpClient => return .ofInt 0

end NetClient

namespace Worker

/-- The sending work from round `i` on, `n` rounds of it at most: whether it is over. -/
def sendingWork (calls : Calls) (client : NetClient) : ℕ → ℕ → Code Bool
  | _, 0 => return false
  | i, n + 1 => do
    if calls.gotoStop_ i then
      return true
    else
      let _ ← client.send (calls.sendHeartbeat i)
      sendingWork calls client (i + 1) n

/-- The end of `syncStart`, from the start of the audio on. -/
def work (calls : Calls) (pClient : NetClient) (n : ℕ) : Code (Option ReturnType) := do
  let _ ← call calls.endpoint_asyncStart
  call calls.durationTimer
  let ended ← sendingWork calls pClient 0 n
  if !ended then
    return none
  let _ ← pClient.send calls.sendLogout
  return some (.ofInt 0)

/-- `Worker::syncStart`, as far as `n` rounds of the sending work: `none` where it has not
returned by then. -/
def syncStart (calls : Calls) (n : ℕ) : Code (Option ReturnType) :=
  catchStd (do
      let s ← get
      match s.pClient with
      | none => throw .nullPointer
      | some pClient =>
        pClient.init calls
        if !(List.range 10).any (pClient.isConnected calls) then
          onNetworkChanged .Disconnected
          return some (.ofError "Could not connect to Server...")
        let _ ← pClient.send calls.sendLogin
        if !calls.isLogin then
          onNetworkChanged .Disconnected
          return some (.ofError "Could not Login to Server...")
        onNetworkChanged .Connected
        work calls pClient n)
    fun what => return some (.ofError what)

/-- `Worker::asyncStart`. -/
def asyncStart (calls : Calls) : Code Unit := do
  call calls.netThread
  modify fun s => { s with netThread_ := true }

end Worker

/-! ### The attempt -/

/-- What `gotoWork` tries once it has reported `Connecting`. -/
def MainWindow.startWorker (calls : Calls) : Code Unit := do
  call calls.settings
  call calls.create
  let ret ← Worker.init ⟨calls.needAec, "raw_udp"⟩ calls
  if !ret.ok_ then
    throw (.string ret.errorMessage_)
  else
    Worker.asyncStart calls

/-- `MainWindow::gotoWork`. -/
def MainWindow.gotoWork (calls : Calls) : Code Unit :=
  catchStd (do
      onNetworkChanged .Connecting
      startWorker calls)
    fun _ => return ()

/-- What escapes from a program. -/
def escaped {α : Type} : Except Thrown α → Option Thrown
  | .ok _ => none
  | .error e => some e

/-- How an attempt ends: what escapes `gotoWork` and what the net thread, and the states
reported. -/
structure Ended where
  gotoWork : Option Thrown
  netThread : Option Thrown
  states : List NetworkState
  deriving DecidableEq

/-- Before anything is done. -/
def Attempt.start : Attempt := ⟨[], none, false⟩

/-- An attempt, as far as `n` rounds of the sending work. -/
def attempt (calls : Calls) (n : ℕ) : Ended :=
  let r := MainWindow.gotoWork calls .start
  if r.2.netThread_ then
    let t := Worker.syncStart calls n r.2
    ⟨escaped r.1, escaped t.1, t.2.states⟩
  else ⟨escaped r.1, none, r.2.states⟩

/-- The last state reported is `Connected` or `Disconnected`. -/
def LastDefinite (states : List NetworkState) : Prop :=
  states.getLast? = some .Connected ∨ states.getLast? = some .Disconnected

instance (states : List NetworkState) : Decidable (LastDefinite states) := by unfold LastDefinite; infer_instance

/-- Nothing escapes either thread, and the attempt is not left `Connecting`. -/
def Definite (e : Ended) : Prop := e.gotoWork = none ∧ e.netThread = none ∧ LastDefinite e.states

instance (e : Ended) : Decidable (Definite e) := by unfold Definite; infer_instance

/-! ### What each function needs -/

@[simp] theorem wp_call {α : Type} (r : Outcome α) {Q : α → Attempt → Prop} {E : Thrown → Attempt → Prop}
    {s : Attempt} : wp (call r) Q E s ↔
      (∃ a, r = .ok a ∧ Q a s) ∨ ∃ what, r = .error what ∧ E (.exception what) s := by
  rcases r with what | a <;> simp [call]

@[simp] theorem wp_catchStd {α : Type} (x : Code α) (h : String → Code α) {Q : α → Attempt → Prop}
    {E : Thrown → Attempt → Prop} {s : Attempt} :
    wp (catchStd x h) Q E s ↔ wp x Q (handled Thrown.what (fun what => wp (h what) Q E) E) s :=
  wp_catching _ _ _

@[simp] theorem wp_onNetworkChanged (n : NetworkState) {Q : Unit → Attempt → Prop} {E : Thrown → Attempt → Prop}
    {s : Attempt} : wp (onNetworkChanged n) Q E s ↔ Q () { s with states := s.states ++ [n] } :=
  Iff.rfl

section Handled

variable {H : String → Attempt → Prop} {E : Thrown → Attempt → Prop} {s : Attempt} (text : String)

@[simp] theorem handled_exception : handled Thrown.what H E (.exception text) s ↔ H text s :=
  handled_of_some rfl

end Handled

/-- Every call of `Worker::init` succeeds. -/
structure Calls.InitSucceeds (calls : Calls) : Prop where
  aec : calls.needAec = true → calls.WebRtcAec_Init = 0
  downStreamProcessor : calls.downStreamProcessor = .ok ()
  vad : calls.WebRtcVad_Init = 0
  vad_mode : calls.WebRtcVad_set_mode = 0
  nsx : calls.WebRtcNsx_Init = 0
  nsx_policy : calls.WebRtcNsx_set_policy = 0
  codec : ∃ r, calls.reInit = .ok r ∧ r.ok_ = true
  audioInStub : calls.audioInStub = .ok ()
  endpoint : ∃ r, calls.endpoint_init = .ok r ∧ r.ok_ = true
  client : calls.make_client = .ok ()

/-- Where neither an error nor anything thrown will do, `init` needs every call to succeed, and
leaves a `RawUdpClient`. -/
theorem wp_init {calls : Calls} {Q : ReturnType → Attempt → Prop} {E : Thrown → Attempt → Prop} {s : Attempt}
    (hQ : ∀ r, r.ok_ = false → ¬ Q r s) (hE : ∀ e, ¬ E e s) :
    wp (Worker.init ⟨calls.needAec, "raw_udp"⟩ calls) Q E s ↔
      calls.InitSucceeds ∧ Q (.ofInt 0) { s with pClient := some .RawUdpClient } := by
  have herror : ∀ text, ¬ Q (.ofError text) s := fun text => hQ _ rfl
  have hret : ∀ (r : ReturnType) (P : Prop), (if r.ok_ = false then Q r s else P) ↔ r.ok_ = true ∧ P := by
    intro r P
    by_cases hr : r.ok_ = false
    · rw [if_pos hr]
      exact iff_of_false (hQ r hr) fun h => by simp [hr] at h
    · rw [if_neg hr]
      simp [hr]
  simp only [Worker.init, NetClient.make, wp_bind, wp_ite, wp_throw, wp_pure, wp_call, wp_catchStd, wp_modify,
    handled_exception, herror, hE, hret, and_false, exists_false, or_false, if_false_left, not_and, not_not,
    Bool.not_eq_true', Bool.not_eq_false, reduceIte]
  constructor
  · rintro ⟨h1, _, h2, h3, h4, h5, h6, r, h7, hr, _, h8, r', h9, hr', _, h10, hq⟩
    exact ⟨⟨h1, h2, h3, h4, h5, h6, ⟨r, h7, hr⟩, h8, ⟨r', h9, hr'⟩, h10⟩, hq⟩
  · rintro ⟨⟨h1, h2, h3, h4, h5, h6, ⟨r, h7, hr⟩, h8, ⟨r', h9, hr'⟩, h10⟩, hq⟩
    exact ⟨h1, (), h2, h3, h4, h5, h6, r, h7, hr, (), h8, r', h9, hr', (), h10, hq⟩

section Frame

variable {τ : Type} {f : Attempt → τ}

theorem keeps_call {α : Type} (r : Outcome α) : Keeps f (call r) := by
  rcases r with what | a
  · exact keeps_throw _
  · exact keeps_pure _

theorem keeps_catchStd {α : Type} {x : Code α} {h : String → Code α} (hx : Keeps f x) (hh : ∀ c, Keeps f (h c)) :
    Keeps f (catchStd x h) :=
  hx.catching hh

/-- `init` changes `pClient` only. -/
theorem keeps_init (hf : ∀ s c, f { s with pClient := c } = f s) (configRoot : ConfigRoot) (calls : Calls) :
    Keeps f (Worker.init configRoot calls) := by
  have hmake : ∀ protocol, Keeps f (NetClient.make protocol calls) := fun _ =>
    Keeps.ite ((keeps_call _).bind fun _ => keeps_pure _)
      (Keeps.ite ((keeps_call _).bind fun _ => keeps_pure _) (keeps_throw _))
  have hclient : Keeps f (do
      let client ← NetClient.make configRoot.protocol calls
      modify fun s => { s with pClient := some client }
      return ReturnType.ofInt 0) :=
    (hmake _).bind fun client => (keeps_modify fun s => hf s (some client)).bind fun _ => keeps_pure _
  refine Keeps.ite (keeps_throw _) ((keeps_call _).bind fun _ => keeps_catchStd ?_ fun _ => keeps_pure _)
  refine Keeps.ite (keeps_pure _) (Keeps.ite (keeps_pure _) (Keeps.ite (keeps_pure _) (Keeps.ite (keeps_pure _) ?_)))
  refine (keeps_call _).bind fun _ => Keeps.ite (keeps_pure _) ((keeps_call _).bind fun _ => ?_)
  exact (keeps_call _).bind fun _ => Keeps.ite (keeps_pure _) hclient

end Frame

/-- The constructor of the `RawUdpClientImpl` does not throw. -/
structure Calls.ClientSucceeds (calls : Calls) : Prop where
  socket : calls.socket = .ok ()
  resolve : calls.resolve = .ok ()
  receiver : calls.receiver = .ok ()

theorem wp_client_init {calls : Calls} {Q : Unit → Attempt → Prop} {E : Thrown → Attempt → Prop} {s : Attempt}
    {X : Prop} (hE : ∀ what, E (.exception what) s ↔ X) : wp (NetClient.RawUdpClient.init calls) Q E s ↔
      (calls.ClientSucceeds → Q () s) ∧ (¬ calls.ClientSucceeds → X) := by
  have hfails : ¬ calls.ClientSucceeds →
      ((calls.ClientSucceeds → Q () s) ∧ (¬ calls.ClientSucceeds → X) ↔ X) := fun hf => by simp [hf]
  simp only [NetClient.init, wp_bind, wp_call, hE]
  rcases h1 : calls.socket with w | _
  · rw [hfails fun hc => by simp [hc.socket] at h1]
    simp
  rcases h2 : calls.resolve with w | _
  · rw [hfails fun hc => by simp [hc.resolve] at h2]
    simp
  rcases h3 : calls.receiver with w | _
  · rw [hfails fun hc => by simp [hc.receiver] at h3]
    simp
  · have hok : calls.ClientSucceeds := ⟨h1, h2, h3⟩
    simp only [hok, forall_const, not_true_eq_false, IsEmpty.forall_iff, and_true]
    simp only [reduceCtorEq, false_and, exists_false, or_false, true_and]
    constructor
    · rintro ⟨_, _, _, hQ⟩
      exact hQ
    · exact fun hQ => ⟨(), (), (), hQ⟩

theorem wp_send (client : NetClient) (r : Outcome Unit) {Q : Attempt → Prop} {E : Thrown → Attempt → Prop}
    {s : Attempt} : wp (client.send r) (fun _ => Q) E s ↔ Q s := by
  rcases client with _ | _
  · rcases r with what | _ <;> simp [NetClient.send]
  · rfl

section Work

variable {calls : Calls} {client : NetClient} {Q : Attempt → Prop} {E : Thrown → Attempt → Prop} {s : Attempt}

theorem wp_sendingWork : ∀ n i : ℕ, wp (Worker.sendingWork calls client i n) (fun _ => Q) E s ↔ Q s
  | 0, _ => Iff.rfl
  | n + 1, i => by
    simp only [Worker.sendingWork, wp_ite, wp_pure, wp_bind, wp_sendingWork n (i + 1), wp_send, ite_self]

/-- From the start of the audio on only a `std::exception` is thrown, and nothing is changed. -/
theorem wp_work {n : ℕ} (hE : ∀ what, E (.exception what) s ↔ Q s) :
    wp (Worker.work calls client n) (fun _ => Q) E s ↔ Q s := by
  have hlogout : ∀ ended : Bool, wp (if !ended then pure none else do
      let _ ← client.send calls.sendLogout
      pure (some (ReturnType.ofInt 0))) (fun _ => Q) E = Q := by
    intro ended
    funext s'
    simp only [wp_ite, wp_pure, wp_bind, wp_send, ite_self]
  simp only [Worker.work, wp_bind, wp_call, hlogout, wp_sendingWork, hE]
  rcases calls.endpoint_asyncStart with w | r
  · simp
  · rcases calls.durationTimer with w | _ <;> simp

end Work

/-- **What `syncStart` reports.** Nothing escapes it, and it reports one state where
`pClient->init` does not throw, and none where it does. -/
theorem wp_syncStart {calls : Calls} {n : ℕ} {s : Attempt} (hs : s.pClient = some .RawUdpClient)
    (P : List NetworkState → Prop) : wp (Worker.syncStart calls n) (fun _ s' => P s'.states) (fun _ _ => False) s ↔
      (calls.ClientSucceeds → P (s.states ++ [if calls.isLogin then .Connected else .Disconnected])) ∧
      (¬ calls.ClientSucceeds → P s.states) := by
  have hasked : (List.range 10).any (NetClient.RawUdpClient.isConnected calls) = true := rfl
  have hwork : ∀ s' : Attempt, wp (Worker.work calls .RawUdpClient n) (fun _ s' => P s'.states)
      (handled Thrown.what (fun what => wp (pure (some (.ofError what)) : Code (Option ReturnType))
        (fun _ s' => P s'.states) fun _ _ => False) fun _ _ => False) s' ↔ P s'.states :=
    fun s' => wp_work (Q := fun s' => P s'.states) fun what => handled_exception what
  simp only [Worker.syncStart, wp_catchStd, wp_bind, wp_get, hs]
  rw [wp_client_init (X := P s.states) fun what => handled_exception what]
  refine and_congr_left fun _ => imp_congr_right fun _ => ?_
  simp only [hasked, Bool.not_true, Bool.false_eq_true, ↓reduceIte, wp_bind, wp_send, wp_ite, wp_onNetworkChanged,
    wp_pure, hwork]
  rcases calls.isLogin with _ | _ <;> simp

/-- Every step of `gotoWork` succeeds: the net thread is started. -/
structure Calls.Starts (calls : Calls) : Prop where
  settings : calls.settings = .ok ()
  create : calls.create = .ok ()
  init : calls.InitSucceeds
  netThread : calls.netThread = .ok ()

/-- Where nothing thrown before the net thread is started will do, every step must succeed. -/
theorem wp_startWorker (calls : Calls) {Q : Unit → Attempt → Prop} {E : Thrown → Attempt → Prop} {s : Attempt}
    (hE : ∀ e c, ¬ E e { s with pClient := c }) : wp (MainWindow.startWorker calls) Q E s ↔
      calls.Starts ∧ Q () { s with pClient := some .RawUdpClient, netThread_ := true } := by
  have hEs : ∀ e, ¬ E e s := fun e => hE e s.pClient
  have hError : ∀ r : ReturnType, r.ok_ = false → ¬ wp (if !r.ok_ then throw (.string r.errorMessage_)
      else Worker.asyncStart calls : Code Unit) Q E s := by
    intro r hr
    simpa [hr] using hEs _
  simp only [MainWindow.startWorker, wp_bind, wp_call, hEs, and_false, exists_false, or_false,
    wp_init hError hEs]
  constructor
  · rintro ⟨_, h1, _, h2, hinit, hstart⟩
    simp only [ReturnType.ofInt, decide_true, Bool.not_true, Bool.false_eq_true, ↓reduceIte, Worker.asyncStart,
      wp_bind, wp_call, hE, and_false, exists_false, or_false] at hstart
    obtain ⟨_, h3, hQ⟩ := hstart
    exact ⟨⟨h1, h2, hinit, h3⟩, hQ⟩
  · rintro ⟨⟨h1, h2, hinit, h3⟩, hQ⟩
    refine ⟨(), h1, (), h2, hinit, ?_⟩
    simp only [ReturnType.ofInt, decide_true, Bool.not_true, Bool.false_eq_true, ↓reduceIte, Worker.asyncStart,
      wp_bind, wp_call, hE, and_false, exists_false, or_false]
    exact ⟨(), h3, hQ⟩

/-- Whatever fails, `startWorker` reports nothing, and throws before it starts the net thread only. -/
theorem startWorker_frame (calls : Calls) {s : Attempt} (hs : s.netThread_ = false) :
    wp (MainWindow.startWorker calls) (fun _ s' => s'.states = s.states)
      (fun _ s' => s'.states = s.states ∧ s'.netThread_ = false) s := by
  have hcall : ∀ {α : Type} (r : Outcome α), Keeps (fun s : Attempt => (s.states, s.netThread_)) (call r) :=
    fun r => keeps_call r
  have hinit : Keeps (fun s : Attempt => (s.states, s.netThread_))
      (Worker.init ⟨calls.needAec, "raw_udp"⟩ calls) := keeps_init (fun _ _ => rfl) _ _
  have hsame : ∀ s' : Attempt, (s'.states, s'.netThread_) = (s.states, s.netThread_) →
      s'.states = s.states ∧ s'.netThread_ = false := by
    intro s' h
    obtain ⟨h1, h2⟩ := Prod.mk.inj h
    exact ⟨h1, h2.trans hs⟩
  rw [MainWindow.startWorker, wp_bind]
  refine (hcall calls.settings).wp (fun _ s₁ h₁ => ?_) fun _ s₁ h₁ => hsame s₁ h₁
  rw [wp_bind]
  refine (hcall calls.create).wp (fun _ s₂ h₂ => ?_) fun _ s₂ h₂ => hsame s₂ (h₂.trans h₁)
  rw [wp_bind]
  refine hinit.wp (fun r s₃ h₃ => ?_) fun _ s₃ h₃ => hsame s₃ (h₃.trans (h₂.trans h₁))
  have h₃' := hsame s₃ (h₃.trans (h₂.trans h₁))
  rw [wp_ite, Worker.asyncStart, wp_bind]
  split
  · exact h₃'
  · exact (hcall calls.netThread).wp (fun _ s₄ h₄ => (Prod.mk.inj h₄).1.trans h₃'.1)
      fun _ s₄ h₄ => hsame s₄ (h₄.trans (h₃.trans (h₂.trans h₁)))

/-! ### How an attempt ends -/

/-- Every step up to `pClient->init` succeeds. -/
structure Calls.Succeed (calls : Calls) : Prop where
  starts : calls.Starts
  client : calls.ClientSucceeds

theorem escaped_eq_none_iff {α : Type} (x : Code α) (s : Attempt) :
    escaped (x s).1 = none ↔ wp x (fun _ _ => True) (fun _ _ => False) s := by
  unfold wp
  rcases x s with ⟨e | a, s'⟩ <;> simp [escaped]

theorem wp_iff_of_not_escaped {α : Type} {x : Code α} {s : Attempt} (h : escaped (x s).1 = none) (P : Attempt → Prop) :
    wp x (fun _ s' => P s') (fun _ _ => False) s ↔ P (x s).2 := by
  rcases hx : x s with ⟨e | a, s'⟩
  · rw [hx] at h
    cases h
  · exact wp_of_ok hx

/-- `gotoWork` starts the net thread where every step succeeds. Otherwise it has reported
`Connecting`, and no more. -/
theorem gotoWork_spec (calls : Calls) :
    (calls.Starts → MainWindow.gotoWork calls .start = (.ok (), ⟨[.Connecting], some .RawUdpClient, true⟩)) ∧
    (¬ calls.Starts → (MainWindow.gotoWork calls .start).2.states = [.Connecting] ∧
      (MainWindow.gotoWork calls .start).2.netThread_ = false) := by
  set s : Attempt := ⟨[.Connecting], none, false⟩ with hs
  have hrun : MainWindow.gotoWork calls .start = catchStd (MainWindow.startWorker calls) (fun _ => pure ()) s := rfl
  have hframe := startWorker_frame calls (s := s) rfl
  have hstarts := wp_startWorker calls (s := s) (Q := fun _ s' => s'.netThread_ = true)
    (E := fun _ s' => s'.netThread_ = true) (by simp [hs])
  have hstate := wp_startWorker calls (s := s) (E := fun _ s' => s'.netThread_ = true)
    (Q := fun _ s' => s' = ⟨[.Connecting], some .RawUdpClient, true⟩) (by simp [hs])
  rw [hrun, catchStd]
  rcases hx : MainWindow.startWorker calls s with ⟨e | ⟨⟩, s'⟩
  · rw [wp_of_error hx] at hframe hstarts
    rw [catching_of_error hx]
    refine ⟨fun h => ?_, fun _ => ?_⟩
    · exact absurd (hstarts.mpr ⟨h, rfl⟩) (by simp [hframe.2])
    · rcases e.what with _ | what <;> exact hframe
  · rw [wp_of_ok hx] at hframe hstarts hstate
    rw [catching_of_ok hx]
    refine ⟨fun h => ?_, fun h => ⟨hframe, ?_⟩⟩
    · rw [hstate.mpr ⟨h, rfl⟩]
    · exact Bool.eq_false_iff.mpr fun ht => h (hstarts.mp ht).1

/-- What an attempt reports whose net thread is started; nothing escapes it. -/
theorem attempt_of_starts {calls : Calls} (h : calls.Starts) (n : ℕ) :
    (attempt calls n).gotoWork = none ∧ (attempt calls n).netThread = none ∧
    (calls.ClientSucceeds →
      (attempt calls n).states = [.Connecting, if calls.isLogin then .Connected else .Disconnected]) ∧
    (¬ calls.ClientSucceeds → (attempt calls n).states = [.Connecting]) := by
  set s : Attempt := ⟨[.Connecting], some .RawUdpClient, true⟩ with hs
  have hattempt : attempt calls n = ⟨none, escaped (Worker.syncStart calls n s).1,
      (Worker.syncStart calls n s).2.states⟩ := by
    rw [attempt, (gotoWork_spec calls).1 h]
    rfl
  have hescape : escaped (Worker.syncStart calls n s).1 = none :=
    (escaped_eq_none_iff _ _).mpr ((wp_syncStart (s := s) rfl fun _ => True).mpr ⟨fun _ => trivial, fun _ => trivial⟩)
  rw [hattempt]
  refine ⟨rfl, hescape, fun hc => ?_, fun hc => ?_⟩
  · refine (wp_iff_of_not_escaped hescape fun s' => s'.states = _).mp ?_
    exact (wp_syncStart rfl fun l => l = _).mpr ⟨fun _ => rfl, fun hno => absurd hc hno⟩
  · refine (wp_iff_of_not_escaped hescape fun s' => s'.states = _).mp ?_
    exact (wp_syncStart rfl fun l => l = _).mpr ⟨fun hc' => absurd hc' hc, fun _ => rfl⟩

/-- Nothing escapes the net thread. Nothing escapes `gotoWork` and the last state reported is
definite exactly when every step succeeds, up to `pClient->init`. -/
theorem attempt_ends (calls : Calls) (n : ℕ) :
    (attempt calls n).netThread = none ∧ (Definite (attempt calls n) ↔ calls.Succeed) := by
  by_cases h : calls.Starts
  · obtain ⟨hgoto, hnet, hsucc, hfail⟩ := attempt_of_starts h n
    refine ⟨hnet, ?_⟩
    by_cases hc : calls.ClientSucceeds
    · refine iff_of_true ⟨hgoto, hnet, ?_⟩ ⟨h, hc⟩
      rw [hsucc hc]
      cases calls.isLogin <;> decide
    · refine iff_of_false (fun hd => ?_) fun hs => hc hs.client
      have hlast := hd.2.2
      rw [hfail hc] at hlast
      revert hlast
      decide
  · obtain ⟨hstates, hthread⟩ := (gotoWork_spec calls).2 h
    have hattempt : attempt calls n = ⟨escaped (MainWindow.gotoWork calls .start).1, none, [.Connecting]⟩ := by
      rw [attempt]
      simp only [hthread, hstates, Bool.false_eq_true, ↓reduceIte]
    refine ⟨by rw [hattempt], iff_of_false ?_ fun hs => h hs.starts⟩
    rw [hattempt]
    simp [Definite, LastDefinite]

/-- Calls that all succeed; the login is confirmed or not. -/
def sampleCalls (isLogin : Bool) : Calls where
  settings := .ok ()
  create := .ok ()
  needAec := true
  WebRtcAec_Init := 0
  downStreamProcessor := .ok ()
  WebRtcVad_Init := 0
  WebRtcVad_set_mode := 0
  WebRtcNsx_Init := 0
  WebRtcNsx_set_policy := 0
  reInit := .ok (.ofInt 0)
  audioInStub := .ok ()
  endpoint_init := .ok (.ofInt 0)
  make_client := .ok ()
  netThread := .ok ()
  socket := .ok ()
  resolve := .ok ()
  receiver := .ok ()
  isConnected := fun _ => true
  sendLogin := .ok ()
  isLogin := isLogin
  endpoint_asyncStart := .ok (.ofInt 0)
  durationTimer := .ok ()
  gotoStop_ := fun _ => false
  sendHeartbeat := fun _ => .ok ()
  sendLogout := .ok ()

example : (attempt (sampleCalls true) 3).states = [.Connecting, .Connected] := by decide

/-! ### The threads -/

namespace Worker

/-- The states toggled. -/
def toggledOf (o : List WorkerObs) : List NetworkState :=
  o.filterMap fun
    | .toggled newState => some newState
    | .sent _ => none

/-- `pClient->init` does not throw. -/
def InitReturns (s : Worker) : WorkerAction → Prop
  | .net env => s.net = .init → env.ok = true
  | _ => True

/-- `syncStart` has returned, or the audio has started. -/
def Settled (s : Worker) : Prop :=
  match s.net with
  | .startTimer | .test | .heartbeat | .logout | .returned _ => True
  | _ => False

/-- What has been toggled where `syncStart` stands; `ok` says that `pClient->init` has not thrown. -/
def Reports (ok : Prop) (net : NetPc) (l : List NetworkState) : Prop :=
  match net with
  | .entry | .init | .connecting _ | .login | .waiting _ | .check => ok ∧ l = []
  | .loadEndpoint | .startAudio | .startTimer | .test | .heartbeat | .logout => ok ∧ l = [.Connected]
  | .returned _ => (ok ∧ (l = [.Disconnected] ∨ l = [.Connected])) ∨ (¬ ok ∧ l = [])

theorem toggledOf_append (a b : List WorkerObs) : toggledOf (a ++ b) = toggledOf a ++ toggledOf b :=
  List.filterMap_append

theorem toggledOf_send (ok : Bool) (p : NetPacket) : toggledOf (send ok p) = [] := by
  unfold send
  split <;> rfl

theorem toggledOf_sendHeartbeat (v : Version) (s : Worker) (env : NetEnv) :
    toggledOf (s.sendHeartbeat v env).2 = [] := by
  unfold sendHeartbeat
  dsimp only
  split
  · exact toggledOf_send _ _
  · rfl

/-- A statement of `syncStart`. -/
theorem reports_netStep {v : Version} {s s' : Worker} {env : NetEnv} {o' : List WorkerObs} {ok : Prop}
    {l : List NetworkState} (h : Reports ok s.net l) (hs : s.netStep v env = some (s', o')) :
    Reports (ok ∧ s.InitReturns (.net env)) s'.net (l ++ toggledOf o') := by
  by_cases hinit : s.net = .init
  · rw [hinit] at h
    simp only [netStep, hinit] at hs
    split_ifs at hs with henv
    · cases hs
      exact ⟨⟨h.1, fun _ => henv⟩, by simp [h.2, toggledOf]⟩
    · cases hs
      exact Or.inr ⟨fun hc => henv (hc.2 hinit), by simp [h.2, toggledOf]⟩
  · -- no other statement runs `pClient->init`
    have hok : (ok ∧ s.InitReturns (.net env)) = ok :=
      propext ⟨fun hc => hc.1, fun hc => ⟨hc, fun hi => absurd hi hinit⟩⟩
    rw [hok]
    cases hn : s.net <;> simp only [netStep, hn] at hs <;> simp only [Reports, hn] at h
    case init => exact absurd hn hinit
    case entry =>
      cases hs
      exact ⟨h.1, by simp [h.2, toggledOf]⟩
    case connecting i =>
      split_ifs at hs <;> cases hs
      · exact ⟨h.1, by simp [h.2, toggledOf]⟩
      · exact ⟨h.1, by simp [h.2, toggledOf]⟩
      · exact Or.inl ⟨h.1, Or.inl (by simp [h.2, toggledOf])⟩
    case login =>
      cases hs
      exact ⟨h.1, by rw [h.2, toggledOf_send, List.append_nil]⟩
    case waiting i =>
      split_ifs at hs <;> cases hs <;> exact ⟨h.1, by simp [h.2, toggledOf]⟩
    case check =>
      split_ifs at hs <;> cases hs
      · exact Or.inl ⟨h.1, Or.inl (by simp [h.2, toggledOf])⟩
      · exact ⟨h.1, by simp [h.2, toggledOf]⟩
    case startTimer =>
      split_ifs at hs <;> cases hs
      · exact ⟨h.1, by simp [h.2, toggledOf]⟩
      · exact ⟨h.1, by simp [h.2, toggledOf]⟩
      · exact Or.inl ⟨h.1, Or.inr (by simp [h.2, toggledOf])⟩
    case heartbeat =>
      cases hs
      exact ⟨h.1, by rw [h.2, toggledOf_sendHeartbeat, List.append_nil]⟩
    case logout =>
      cases hs
      exact Or.inl ⟨h.1, Or.inr (by rw [h.2, toggledOf_send, List.append_nil])⟩
    case returned b => cases hs
    case loadEndpoint =>
      split_ifs at hs
      cases hs
      exact ⟨h.1, by simp [h.2, toggledOf]⟩
    case startAudio =>
      cases hs
      exact ⟨h.1, by simp [h.2, toggledOf]⟩
    case test =>
      split_ifs at hs <;> cases hs <;> exact ⟨h.1, by simp [h.2, toggledOf]⟩

/-- The other threads toggle nothing. -/
theorem toggledOf_step {v : Version} {s s' : Worker} {a : WorkerAction} {o' : List WorkerObs}
    (h : s.step v a = some (s', o')) (hnet : ∀ env, a ≠ .net env) : toggledOf o' = [] := by
  by_cases hstop : a = .stop
  · subst hstop
    obtain ⟨-, rfl, -⟩ := stopStep_frame h
    rfl
  · obtain ⟨-, rfl | ⟨f, ok, u, packets, -, -, rfl⟩ | ⟨ok, up, -, rfl⟩⟩ := step_other h hnet hstop
    · rfl
    · rw [toggledOf, List.filterMap_flatMap, List.flatMap_eq_nil_iff]
      exact fun p _ => toggledOf_send ok p
    · exact toggledOf_send ok _

/-- **What a run has reported**, where `syncStart` stands. -/
theorem reports_exec {v : Version} {needAec durationReporter : Bool} {as : List WorkerAction} {s : Worker}
    {o : List WorkerObs} (h : exec v needAec durationReporter as = some (s, o)) :
    Reports (Lts.Along (step v) InitReturns (start needAec durationReporter) as) s.net (toggledOf o) := by
  have hrun := Lts.history_rule (step v) (fun as s o => exec v needAec durationReporter as = some (s, o) ∧
      Reports (Lts.Along (step v) InitReturns (start needAec durationReporter) as) s.net (toggledOf o))
    ⟨rfl, Lts.along_nil _ _ _, rfl⟩ ?_ h
  · exact hrun.2
  · rintro as s o a s' o' ⟨hexec, ih⟩ hstep
    refine ⟨(Lts.exec_concat _).mpr ⟨s, o, o', hexec, hstep, rfl⟩, ?_⟩
    rw [toggledOf_append, Lts.along_concat_iff _ hexec]
    by_cases hnet : ∃ env, a = .net env
    · obtain ⟨env, rfl⟩ := hnet
      exact reports_netStep ih hstep
    · have hnet' : ∀ env, a ≠ .net env := fun env he => hnet ⟨env, he⟩
      have hret : s.InitReturns a := by
        cases a <;> first | trivial | exact absurd rfl (hnet' _)
      have hsame : s'.net = s.net := net_frame hstep hnet'
      rw [toggledOf_step hstep hnet', List.append_nil, hsame]
      simpa [hret] using ih

end Worker

/-- **The threads agree with the attempt.** Where `gotoWork` has started the net thread: whatever run its
threads have made by the time `syncStart` has returned or the audio has started, the states reported are
those of an attempt, one whose `pClient->init` throws where the run's did. -/
theorem threads_agree {v : Version} {needAec durationReporter : Bool} {as : List WorkerAction} {s : Worker}
    {o : List WorkerObs} (h : Worker.exec v needAec durationReporter as = some (s, o)) (hs : s.Settled) :
    ∃ calls : Calls, calls.Starts ∧ (calls.ClientSucceeds ↔
        Lts.Along (Worker.step v) Worker.InitReturns (Worker.start needAec durationReporter) as) ∧
      ∀ n, (attempt calls n).states = .Connecting :: Worker.toggledOf o := by
  have hstarts : ∀ isLogin resolve, Calls.Starts { sampleCalls isLogin with resolve } := fun _ _ =>
    ⟨rfl, rfl, ⟨fun _ => rfl, rfl, rfl, rfl, rfl, rfl, ⟨_, rfl, rfl⟩, rfl, ⟨_, rfl, rfl⟩, rfl⟩, rfl⟩
  have hclient : ∀ isLogin, Calls.ClientSucceeds (sampleCalls isLogin) := fun _ => ⟨rfl, rfl, rfl⟩
  have hlogin : ∀ isLogin n, (attempt (sampleCalls isLogin) n).states =
      [.Connecting, if isLogin then .Connected else .Disconnected] := fun isLogin n =>
    (attempt_of_starts (hstarts isLogin (.ok ())) n).2.2.1 (hclient isLogin)
  have hreports := Worker.reports_exec h
  have hend : (Lts.Along (Worker.step v) Worker.InitReturns (Worker.start needAec durationReporter) as ∧
      (Worker.toggledOf o = [.Disconnected] ∨ Worker.toggledOf o = [.Connected])) ∨
      (¬ Lts.Along (Worker.step v) Worker.InitReturns (Worker.start needAec durationReporter) as ∧
        Worker.toggledOf o = []) := by
    unfold Worker.Settled at hs
    cases hn : s.net <;> simp only [hn] at hs <;> simp only [Worker.Reports, hn] at hreports
    case returned ok => exact hreports
    all_goals exact Or.inl ⟨hreports.1, Or.inr hreports.2⟩
  rcases hend with ⟨hok, hl | hl⟩ | ⟨hno, hl⟩
  · refine ⟨sampleCalls false, hstarts false (.ok ()), iff_of_true (hclient false) hok, fun n => ?_⟩
    rw [hlogin, hl]
    rfl
  · refine ⟨sampleCalls true, hstarts true (.ok ()), iff_of_true (hclient true) hok, fun n => ?_⟩
    rw [hlogin, hl]
    rfl
  · have hthrows : ¬ Calls.ClientSucceeds { sampleCalls true with resolve := .error "Host not found" } :=
      fun hc => by simpa using hc.resolve
    refine ⟨{ sampleCalls true with resolve := .error "Host not found" }, hstarts true _,
      iff_of_false hthrows hno, fun n => ?_⟩
    rw [(attempt_of_starts (hstarts true _) n).2.2.2 hthrows, hl]

/-- **How every attempt ends.** Whatever each call of an attempt returns or throws, and
however far the sending work has got: nothing escapes the net thread; and nothing escapes `gotoWork`
and the last state reported is `Connected` or `Disconnected` exactly when every step succeeds, up to
`pClient->init`. The threads bear it out: in every run in which `syncStart` has returned or the audio has
started, the states reported are those of an attempt, and the last is definite exactly when
`pClient->init` has not thrown. -/
theorem definite_iff (calls : Calls) (n : ℕ) :
    (attempt calls n).netThread = none ∧ (Definite (attempt calls n) ↔ calls.Succeed) ∧
    ∀ {v : Version} {needAec durationReporter : Bool} {as : List WorkerAction} {s : Worker} {o : List WorkerObs},
      Worker.exec v needAec durationReporter as = some (s, o) → s.Settled →
      (LastDefinite (.Connecting :: Worker.toggledOf o) ↔
        Lts.Along (Worker.step v) Worker.InitReturns (Worker.start needAec durationReporter) as) ∧
      ∃ calls' : Calls, calls'.Starts ∧ (calls'.ClientSucceeds ↔
          Lts.Along (Worker.step v) Worker.InitReturns (Worker.start needAec durationReporter) as) ∧
        ∀ n, (attempt calls' n).states = .Connecting :: Worker.toggledOf o := by
  refine ⟨(attempt_ends calls n).1, (attempt_ends calls n).2, fun {v needAec durationReporter as s o} h hs => ?_⟩
  obtain ⟨calls', hstarts, hclient, hstates⟩ := threads_agree h hs
  refine ⟨?_, calls', hstarts, hclient, hstates⟩
  obtain ⟨hgoto, hnet, -, -⟩ := attempt_of_starts hstarts 0
  rw [← hstates 0, ← hclient]
  constructor
  · exact fun hlast => ((attempt_ends calls' 0).2.mp ⟨hgoto, hnet, hlast⟩).client
  · exact fun hc => ((attempt_ends calls' 0).2.mpr ⟨hstarts, hc⟩).2.2

/-- A call that is logged in, and a host that does not resolve. -/
theorem definite_iff_call :
    (∃ s o, Worker.exec sampleVersion false true sampleCall = some (s, o) ∧
      Worker.toggledOf o = [.Connected] ∧
      Lts.Along (Worker.step sampleVersion) Worker.InitReturns (Worker.start false true) sampleCall) ∧
    ∃ s o, Worker.exec sampleVersion false true [sampleNet, .net ⟨false, 0, 0, 0, 0⟩] = some (s, o) ∧
      Worker.toggledOf o = [] ∧
      ¬ Lts.Along (Worker.step sampleVersion) Worker.InitReturns (Worker.start false true)
        [sampleNet, .net ⟨false, 0, 0, 0, 0⟩] := by
  have hcall : Worker.exec sampleVersion false true sampleCall = some (_, _) := rfl
  have hfailed : Worker.exec sampleVersion false true [sampleNet, .net ⟨false, 0, 0, 0, 0⟩] = some (_, _) := rfl
  refine ⟨⟨_, _, hcall, rfl, ?_⟩, ⟨_, _, hfailed, rfl, fun hret => ?_⟩⟩
  · exact ((definite_iff (sampleCalls true) 0).2.2 hcall trivial).1.mp (Or.inl rfl)
  · exact absurd (((definite_iff (sampleCalls true) 0).2.2 hfailed trivial).1.mpr hret) (by decide)

/-- A host that does not resolve leaves the attempt `Connecting`, a device that cannot be opened makes
a string escape `gotoWork`, and an echo canceller that cannot be set up a `char` pointer. -/
theorem attempt_fails :
    (attempt { sampleCalls true with resolve := .error "Host not found" } 0).states = [.Connecting] ∧
    (attempt { sampleCalls true with endpoint_init := .ok (.ofError "Invalid device") } 0).gotoWork =
      some (.string "Invalid device") ∧
    (attempt { sampleCalls true with WebRtcAec_Init := -1 } 0).gotoWork =
      some (.charPointer "WebRtcAec_Init failed") ∧
    ¬ ∀ (calls : Calls) (n : ℕ), Definite (attempt calls n) := by
  refine ⟨by decide, by decide, by decide, fun h => ?_⟩
  exact absurd (h { sampleCalls true with resolve := .error "Host not found" } 0) (by decide)

end EasyVoiceCall
