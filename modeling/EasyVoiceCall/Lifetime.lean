/-
# What a thread outlives

Two things that a thread of `Worker` may still use when they are gone.

`syncStop` clears `endpoint_` before it joins the thread that runs `syncStart`,
and `syncStart` uses the pointer without a test once the login is confirmed. It
is there where `syncStop` has not cleared it yet (`endpoint_alive_iff`).

The callback that `syncStart` gives to the network client refers to `isLogin`, a
variable of its own frame. The receiver runs on: `RawUdpClientImpl` and its
owner hold each other by `shared_ptr`s, so no destructor ends the loop. A
`LoginResponse` that is handled after `syncStart` has returned is written to a
frame that is gone (`login_frame_alive`).

A `Client` is a worker with its receiver, which takes a datagram off the socket
in one step and calls the callback in another.

Key theorems: `endpoint_alive_iff`, `login_frame_alive`.
-/
import EasyVoiceCall.Stop

namespace EasyVoiceCall

open Buffer NetPacket

namespace Worker

/-! ### The endpoint -/

/-- `syncStart` uses `endpoint_` only while it is there: it is not null where it is
dereferenced, and not cleared when its `asyncStart` is called. -/
def EndpointAlive (s : Worker) : WorkerAction → Prop
  | .net _ => (s.net = .loadEndpoint → s.endpoint_ = true) ∧ (s.net = .startAudio → s.endpoint_ = true)
  | _ => True

instance (s : Worker) : ∀ a, Decidable (s.EndpointAlive a)
  | .net _ => inferInstanceAs (Decidable (_ ∧ _))
  | .stop => inferInstanceAs (Decidable True)
  | .timer => inferInstanceAs (Decidable True)
  | .callback => inferInstanceAs (Decidable True)
  | .audio _ _ => inferInstanceAs (Decidable True)
  | .receive _ _ _ => inferInstanceAs (Decidable True)
  | .setMute _ => inferInstanceAs (Decidable True)

/-- `syncStop` has not got past its `endpoint_ = nullptr`. -/
def NotCleared (s : Worker) : Prop := s.stop = .idle ∨ s.stop = .endpoint ∨ s.stop = .clear

/-- `syncStart` takes the two steps of `endpoint_->asyncStart()` before `syncStop`
takes its `endpoint_ = nullptr`. -/
def StartsFirst (s : Worker) : WorkerAction → Prop
  | .net _ => s.net = .loadEndpoint ∨ s.net = .startAudio → s.NotCleared
  | _ => True

/-- `syncStart` is past the start of the audio, or it has returned. -/
def PastStart (s : Worker) : Prop :=
  match s.net with
  | .startTimer | .test | .heartbeat | .logout | .returned _ => True
  | _ => False

/-- `syncStop` is called when `syncStart` has started the audio, or returned. -/
def StopsLate (s : Worker) (a : WorkerAction) : Prop := a = .stop → s.stop = .idle → s.PastStart

/-- The pointer is there until `syncStop` has cleared it. -/
def EndpointKept (s : Worker) : Prop := s.endpoint_ = true ↔ s.NotCleared

theorem endpointKept_step {v : Version} {s s' : Worker} {a : WorkerAction} {o : List WorkerObs}
    (hk : s.EndpointKept) (h : s.step v a = some (s', o)) : s'.EndpointKept := by
  by_cases hstop : a = .stop
  · subst hstop
    have hs : s.stopStep = some (s', o) := h
    unfold EndpointKept NotCleared at hk ⊢
    cases hpc : s.stop <;> simp only [stopStep, hpc] at hs hk
    case endpoint =>
      have he : s.endpoint_ = true := hk.mpr (by simp)
      split_ifs at hs with hnull hidle
      · rw [he] at hnull
        cases hnull
      · cases hs
        exact iff_of_true he (by simp)
    case joinNet =>
      split at hs <;> cases hs
      exact hk.trans (by simp)
    all_goals try split_ifs at hs
    all_goals cases hs <;> simp_all
  · unfold EndpointKept NotCleared at hk ⊢
    obtain ⟨hs, he⟩ := stop_frame h hstop
    rw [hs, he]
    exact hk

/-- What is past the start stays so. -/
theorem pastStart_step {v : Version} {s s' : Worker} {a : WorkerAction} {o : List WorkerObs}
    (hp : s.PastStart) (h : s.step v a = some (s', o)) : s'.PastStart := by
  by_cases hnet : ∃ env, a = .net env
  · obtain ⟨env, rfl⟩ := hnet
    have hstep : s.netStep v env = some (s', o) := h
    unfold PastStart at hp
    cases hn : s.net <;> simp only [netStep, hn] at hstep hp
    case test =>
      cases hstep
      unfold PastStart
      dsimp only
      split_ifs <;> trivial
    all_goals try split_ifs at hstep
    all_goals cases hstep <;> trivial
  · have hsame : s'.net = s.net := net_frame h fun env he => hnet ⟨env, he⟩
    unfold PastStart
    rw [hsame]
    exact hp

end Worker

open Worker

/-- **When the endpoint is there.** On every interleaving after `asyncStart` has
returned: `syncStart` never dereferences a null `endpoint_`, and never starts the
audio after `syncStop` has cleared the pointer, exactly when its two steps of
`endpoint_->asyncStart()` come before `syncStop`'s `endpoint_ = nullptr`. They do
where `syncStop` is called after the start of the audio, or after `syncStart` has
returned. -/
theorem endpoint_alive_iff (v : Version) (needAec durationReporter : Bool) (as : List WorkerAction) :
    (Lts.Along (Worker.step v) EndpointAlive (Worker.start needAec durationReporter) as ↔
      Lts.Along (Worker.step v) StartsFirst (Worker.start needAec durationReporter) as) ∧
    (Lts.Along (Worker.step v) StopsLate (Worker.start needAec durationReporter) as →
      Lts.Along (Worker.step v) StartsFirst (Worker.start needAec durationReporter) as) := by
  have hstart : (Worker.start needAec durationReporter).EndpointKept := iff_of_true rfl (Or.inl rfl)
  refine ⟨⟨fun h => ?_, fun h => ?_⟩, fun h => ?_⟩
  · refine Lts.along_mono_rule _ EndpointKept (fun _ _ _ _ hk _ hstep => endpointKept_step hk hstep) ?_ hstart h
    intro s a hk halive
    cases a
    case net env =>
      rintro (hn | hn)
      · exact hk.mp (halive.1 hn)
      · exact hk.mp (halive.2 hn)
    all_goals trivial
  · refine Lts.along_mono_rule _ EndpointKept (fun _ _ _ _ hk _ hstep => endpointKept_step hk hstep) ?_ hstart h
    intro s a hk hfirst
    cases a
    case net env => exact ⟨fun hn => hk.mpr (hfirst (Or.inl hn)), fun hn => hk.mpr (hfirst (Or.inr hn))⟩
    all_goals trivial
  · refine Lts.along_mono_rule _ (fun s => s.stop = .idle ∨ s.PastStart) ?_ ?_ (Or.inl rfl) h
    · rintro s a s' o hp hlate hstep
      by_cases hstop : a = .stop
      · have hpast : s.PastStart := hp.elim (hlate hstop) id
        exact Or.inr (pastStart_step hpast hstep)
      · rcases hp with hidle | hpast
        · exact Or.inl ((stop_frame hstep hstop).1.trans hidle)
        · exact Or.inr (pastStart_step hpast hstep)
    · intro s a hp _
      cases a
      case net env =>
        intro hn
        rcases hp with hidle | hpast
        · exact Or.inl hidle
        · unfold PastStart at hpast
          rcases hn with hn | hn <;> rw [hn] at hpast <;> exact absurd hpast id
      all_goals trivial

/-- `syncStop` is called while `syncStart` waits for the login, and clears the
pointer: `syncStart` dereferences null. Or it clears the pointer between the
load and the call: the audio is started. -/
theorem endpoint_used_late :
    ¬ Lts.Along (Worker.step sampleVersion) EndpointAlive (Worker.start false false)
      (sampleLogin ++ [.stop, .stop, .stop, .receive .LoginResponse true 0] ++ List.replicate 3 sampleNet) ∧
    ¬ Lts.Along (Worker.step sampleVersion) EndpointAlive (Worker.start false false)
      (sampleLogin ++ .receive .LoginResponse true 0 :: List.replicate 3 sampleNet ++
        [.stop, .stop, .stop, sampleNet]) := by
  decide

/-! ### The frame of `syncStart` -/

/-- The thread of `RawUdpClientImpl`: in `receive_from`, in the callback with a
packet, or past its loop. -/
inductive ReceiverPc
  | waiting
  | handling (netPacket : NetPacket)
  | ended

/-- A worker and the receiver of its network client. -/
structure Client where
  worker : Worker
  receiver : ReceiverPc

/-- A step of one of the worker's threads, a datagram off the socket, an error of
`receive_from`, or the callback on the packet. -/
inductive ClientAction
  | worker (a : WorkerAction)
  | arrive (datagram : Bytes) (now : UInt32)
  | fail
  | handle (ok : Bool) (upTime : UInt32)

namespace Client

/-- A worker once `asyncStart` has returned. -/
def start (needAec durationReporter : Bool) : Client := ⟨Worker.start needAec durationReporter, .waiting⟩

/-- The receiver's loop: its thread is made by `pClient->init`, and only an error of
the socket ends it. -/
def receiverStep (v : Version) (self : Client) (datagram : Bytes) (now : UInt32) : Option Client :=
  match self.receiver with
  | .waiting =>
    if self.worker.clientUp then
      match RawUdpClientImpl.receive v now datagram with
      | some newPacket => some { self with receiver := .handling newPacket }
      | none => some self
    else none
  | _ => none

/-- The rest of a round: `onDataReceived_`. -/
def handleStep (v : Version) (self : Client) (ok : Bool) (upTime : UInt32) : Option (Client × List WorkerObs) :=
  match self.receiver with
  | .handling netPacket =>
    match self.worker.receiveStep v netPacket.payloadType ok upTime with
    | some (worker, o) => some (⟨worker, .waiting⟩, o)
    | none => none
  | _ => none

def step (v : Version) (self : Client) : ClientAction → Option (Client × List WorkerObs)
  | .worker (.receive _ _ _) => none
  | .worker a =>
    match self.worker.step v a with
    | some (worker, o) => some ({ self with worker }, o)
    | none => none
  | .arrive datagram now => (self.receiverStep v datagram now).map fun self => (self, [])
  | .fail =>
    match self.receiver with
    | .waiting => if self.worker.clientUp then some ({ self with receiver := .ended }, []) else none
    | _ => none
  | .handle ok upTime => self.handleStep v ok upTime

/-- `syncStart` has returned, and its frame is gone. -/
def Returned (self : Client) : Prop :=
  match self.worker.net with
  | .returned _ => True
  | _ => False

instance (self : Client) : Decidable self.Returned := by
  unfold Returned
  split <;> infer_instance

/-- The receiver is in the callback with a `LoginResponse`. -/
def HandlesLogin (self : Client) : Prop :=
  match self.receiver with
  | .handling netPacket => netPacket.payloadType = .LoginResponse
  | _ => False

instance (self : Client) : Decidable self.HandlesLogin := by
  unfold HandlesLogin
  split <;> infer_instance

/-- The branch for a `LoginResponse` is taken while `isLogin` is there. -/
def FrameAlive (self : Client) : ClientAction → Prop
  | .handle _ _ => self.HandlesLogin → ¬ self.Returned
  | _ => True

/-- No `LoginResponse` is taken off the socket once `syncStart` has returned, and
`syncStart` does not return while the receiver handles one. -/
def Answered (v : Version) (self : Client) : ClientAction → Prop
  | .arrive datagram now => ∀ netPacket, RawUdpClientImpl.receive v now datagram = some netPacket →
      netPacket.payloadType = .LoginResponse → ¬ self.Returned
  | .worker (.net env) => ∀ worker o, self.worker.netStep v env = some (worker, o) →
      Returned { self with worker } → ¬ self.HandlesLogin
  | _ => True

instance (self : Client) : ∀ a, Decidable (self.FrameAlive a)
  | .worker _ => inferInstanceAs (Decidable True)
  | .arrive _ _ => inferInstanceAs (Decidable True)
  | .fail => inferInstanceAs (Decidable True)
  | .handle _ _ => inferInstanceAs (Decidable (_ → _))

/-- The threads of the worker leave the receiver alone, and only `syncStart`
returns. -/
theorem worker_spec {v : Version} {s s' : Client} {a : WorkerAction} {o : List WorkerObs}
    (h : s.step v (.worker a) = some (s', o)) :
    s'.receiver = s.receiver ∧ s.worker.step v a = some (s'.worker, o) ∧
      ((∀ env, a ≠ .net env) → s'.worker.net = s.worker.net) := by
  have hworker : s.worker.step v a = some (s'.worker, o) ∧ s'.receiver = s.receiver := by
    cases a
    case receive type ok up => cases h
    all_goals
      simp only [step] at h
      split at h
      · rename_i w p hw
        cases h
        exact ⟨hw, rfl⟩
      · cases h
  exact ⟨hworker.2, hworker.1, Worker.net_frame hworker.1⟩

/-- A datagram is dropped, or the packet it holds is handled next. -/
theorem arrive_spec {v : Version} {s s' : Client} {datagram : Bytes} {now : UInt32} {o : List WorkerObs}
    (h : s.step v (.arrive datagram now) = some (s', o)) :
    s'.worker = s.worker ∧ s.receiver = .waiting ∧ (s'.receiver = .waiting ∨
      ∃ p, RawUdpClientImpl.receive v now datagram = some p ∧ s'.receiver = .handling p) := by
  simp only [step, Option.map_eq_some_iff] at h
  obtain ⟨t, ht, hts⟩ := h
  cases hts
  unfold receiverStep at ht
  split at ht
  · rename_i hw
    split at ht
    · split at ht
      · rename_i p hp
        cases ht
        exact ⟨rfl, hw, Or.inr ⟨p, hp, rfl⟩⟩
      · cases ht
        exact ⟨rfl, hw, Or.inl hw⟩
    · cases ht
  · cases ht

theorem fail_spec {v : Version} {s s' : Client} {o : List WorkerObs} (h : s.step v .fail = some (s', o)) :
    s'.worker = s.worker ∧ s.receiver = .waiting ∧ s'.receiver = .ended := by
  simp only [step] at h
  split at h
  · rename_i hw
    split at h
    · cases h
      exact ⟨rfl, hw, rfl⟩
    · cases h
  · cases h

theorem handle_spec {v : Version} {s s' : Client} {ok : Bool} {up : UInt32} {o : List WorkerObs}
    (h : s.step v (.handle ok up) = some (s', o)) : s'.worker.net = s.worker.net ∧ s'.receiver = .waiting := by
  simp only [step, handleStep] at h
  split at h
  · rename_i p hp
    split at h
    · rename_i w q hw
      cases h
      have hstep : s.worker.step v (.receive p.payloadType ok up) = some (w, o) := hw
      exact ⟨Worker.net_frame hstep (fun _ he => by cases he), rfl⟩
    · cases h
  · cases h

/-- What has returned does not come back. -/
theorem returned_step {v : Version} {s s' : Client} {a : ClientAction} {o : List WorkerObs} (hr : s.Returned)
    (h : s.step v a = some (s', o)) : s'.Returned := by
  have hsame : s'.worker.net = s.worker.net → s'.Returned := by
    intro hnet
    unfold Returned
    rw [hnet]
    exact hr
  cases a with
  | worker a =>
    obtain ⟨-, hw, hother⟩ := worker_spec h
    by_cases hnet : ∃ env, a = .net env
    · obtain ⟨env, rfl⟩ := hnet
      have hstep : s.worker.netStep v env = some (s'.worker, o) := hw
      unfold Returned at hr
      split at hr
      · rename_i ok hn
        rw [Worker.netStep, hn] at hstep
        cases hstep
      · exact absurd hr id
    · exact hsame (hother fun env he => hnet ⟨env, he⟩)
  | arrive datagram now => exact hsame (by rw [(arrive_spec h).1])
  | fail => exact hsame (by rw [(fail_spec h).1])
  | handle ok up => exact hsame (handle_spec h).1

/-- The receiver does not leave the callback but by its end. -/
theorem handlesLogin_step {v : Version} {s s' : Client} {a : ClientAction} {o : List WorkerObs}
    (hl : s.HandlesLogin) (ha : ∀ ok up, a ≠ .handle ok up) (h : s.step v a = some (s', o)) : s'.HandlesLogin := by
  have hbusy : s.receiver ≠ .waiting := by
    intro hw
    unfold HandlesLogin at hl
    rw [hw] at hl
    exact hl
  cases a with
  | worker a =>
    unfold HandlesLogin
    rw [(worker_spec h).1]
    exact hl
  | arrive datagram now => exact absurd (arrive_spec h).2.1 hbusy
  | fail => exact absurd (fail_spec h).2.1 hbusy
  | handle ok up => exact absurd rfl (ha ok up)

/-- While a `LoginResponse` is handled `syncStart` has not returned. -/
def Alive (self : Client) : Prop := self.HandlesLogin → ¬ self.Returned

theorem alive_step {v : Version} {s s' : Client} {a : ClientAction} {o : List WorkerObs} (hi : s.Alive)
    (ha : s.Answered v a) (h : s.step v a = some (s', o)) : s'.Alive := by
  intro hl hr
  cases a with
  | worker a =>
    obtain ⟨hreceiver, hw, hother⟩ := worker_spec h
    have hl' : s.HandlesLogin := by
      unfold HandlesLogin at hl ⊢
      rwa [hreceiver] at hl
    by_cases hnet : ∃ env, a = .net env
    · obtain ⟨env, rfl⟩ := hnet
      exact ha s'.worker o hw hr hl'
    · refine hi hl' ?_
      unfold Returned at hr ⊢
      rwa [hother fun env he => hnet ⟨env, he⟩] at hr
  | arrive datagram now =>
    obtain ⟨hworker, -, hreceiver⟩ := arrive_spec h
    unfold HandlesLogin at hl
    rcases hreceiver with hw | ⟨p, hp, hpr⟩
    · rw [hw] at hl
      exact hl
    · rw [hpr] at hl
      refine ha p hp hl ?_
      unfold Returned at hr ⊢
      rwa [hworker] at hr
  | fail =>
    unfold HandlesLogin at hl
    rw [(fail_spec h).2.2] at hl
    exact hl
  | handle ok up =>
    unfold HandlesLogin at hl
    rw [(handle_spec h).2] at hl
    exact hl

/-- A `LoginResponse` in the callback after the return is written to a dead frame,
by the end of the callback. -/
theorem dead_write {v : Version} {as : List ClientAction} {s s' : Client} {o : List WorkerObs}
    (h : Lts.exec (step v) s as = some (s', o)) (hl : s.HandlesLogin) (hr : s.Returned) (hend : ¬ s'.HandlesLogin) :
    ¬ Lts.Along (step v) FrameAlive s as := by
  intro halive
  induction as generalizing s o with
  | nil =>
    cases h
    exact hend hl
  | cons a as ih =>
    obtain ⟨s₁, o₁, o₂, hstep, hexec, -⟩ := (Lts.exec_cons_iff _).mp h
    obtain ⟨hfirst, hrest⟩ := (Lts.along_cons_iff _).mp halive
    by_cases ha : ∃ ok up, a = .handle ok up
    · obtain ⟨ok, up, rfl⟩ := ha
      exact hfirst hl hr
    · have hl₁ := handlesLogin_step hl (fun ok up he => ha ⟨ok, up, he⟩) hstep
      exact ih hexec hl₁ (returned_step hr hstep) (hrest s₁ o₁ hstep)

/-- A run at whose end no `LoginResponse` is in the callback. -/
theorem answered_of_alive {v : Version} {as : List ClientAction} {s s' : Client} {o : List WorkerObs}
    (h : Lts.exec (step v) s as = some (s', o)) (hend : ¬ s'.HandlesLogin)
    (halive : Lts.Along (step v) FrameAlive s as) : Lts.Along (step v) (Answered v) s as := by
  induction as generalizing s o with
  | nil => exact Lts.along_nil _ _ _
  | cons a as ih =>
    obtain ⟨s₁, o₁, o₂, hstep, hexec, -⟩ := (Lts.exec_cons_iff _).mp h
    obtain ⟨-, hrest⟩ := (Lts.along_cons_iff _).mp halive
    have hno : s₁.HandlesLogin → ¬ s₁.Returned := fun hl hr => dead_write hexec hl hr hend (hrest s₁ o₁ hstep)
    refine (Lts.along_cons_iff _).mpr ⟨?_, fun t p ht => ?_⟩
    · cases a with
      | worker a =>
        cases a
        case net env =>
          intro w q hw hr hl
          obtain ⟨hreceiver, hw₁, -⟩ := worker_spec hstep
          have hsame : some (w, q) = some (s₁.worker, o₁) := hw.symm.trans hw₁
          cases hsame
          refine hno ?_ hr
          unfold HandlesLogin at hl ⊢
          rwa [hreceiver]
        all_goals trivial
      | arrive datagram now =>
        intro p hp hlogin hr
        have hr₁ := returned_step hr hstep
        obtain ⟨-, hw, hreceiver⟩ := arrive_spec hstep
        refine hno ?_ hr₁
        have hpr : s₁.receiver = .handling p := by
          have hup := hstep
          simp only [step, receiverStep, hw, hp] at hup
          split at hup <;> cases hup
          rfl
        unfold HandlesLogin
        rw [hpr]
        exact hlogin
      | fail => trivial
      | handle ok up => trivial
    · have hsame : some (t, p) = some (s₁, o₁) := ht.symm.trans hstep
      cases hsame
      exact ih hexec (hrest s₁ o₁ hstep)

end Client

open Client

/-- **When the frame is there.** On every interleaving of the receiver with
`syncStart`, and whatever the outcome of the connect and login phases: the
callback takes its `LoginResponse` branch only before `syncStart` has returned,
where no `LoginResponse` is taken off the socket after that, and `syncStart` does
not return while one is handled. In a run at whose end none is being handled
this is the only way. -/
theorem login_frame_alive (v : Version) (needAec durationReporter : Bool) (as : List ClientAction) :
    (Lts.Along (Client.step v) (Answered v) (Client.start needAec durationReporter) as →
      Lts.Along (Client.step v) FrameAlive (Client.start needAec durationReporter) as) ∧
    ∀ s o, Lts.exec (Client.step v) (Client.start needAec durationReporter) as = some (s, o) → ¬ s.HandlesLogin →
      (Lts.Along (Client.step v) FrameAlive (Client.start needAec durationReporter) as ↔
        Lts.Along (Client.step v) (Answered v) (Client.start needAec durationReporter) as) := by
  have hmain : Lts.Along (Client.step v) (Answered v) (Client.start needAec durationReporter) as →
      Lts.Along (Client.step v) FrameAlive (Client.start needAec durationReporter) as := by
    refine Lts.along_mono_rule _ Alive (fun _ _ _ _ hi ha hstep => alive_step hi ha hstep) ?_ (fun hl => absurd hl id)
    intro s a hi _
    cases a
    case handle ok up => exact hi
    all_goals trivial
  exact ⟨hmain, fun s o h hend => ⟨answered_of_alive h hend, hmain⟩⟩

/-- The worker's steps up to the return after a login that timed out. -/
def loginTimeout : List ClientAction := (sampleLogin ++ List.replicate 11 sampleNet).map .worker

/-- The answer to the login comes after its wait is over. And an answer that comes a
second time, after a call that has ended. -/
theorem login_frame_dead :
    ¬ Lts.Along (Client.step sampleVersion) FrameAlive (Client.start false false)
      (loginTimeout ++ [.arrive (sampleBytes 4) 0, .handle true 0]) ∧
    ¬ Lts.Along (Client.step sampleVersion) FrameAlive (Client.start false false)
      (sampleLogin.map .worker ++ [.arrive (sampleBytes 4) 0, .handle true 0] ++
        (List.replicate 5 sampleNet ++ [.stop, sampleNet, sampleNet]).map .worker ++
        [.arrive (sampleBytes 4) 0, .handle true 0]) := by
  decide

end EasyVoiceCall
