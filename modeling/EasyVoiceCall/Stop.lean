/-
# Stopping a client

`syncStop` sets `gotoStop_` and the loops of `syncStart` and of the duration timer
test it, but the first statement of `syncStart` clears it: a stop that comes
before that statement is forgotten (`stop_not_lost_iff`). A client that stops
should leave the server with a `LogoutRequest` as its last word. It does
where the login was confirmed in time and no audio callback sends a block
after `syncStart` has logged out (`stopped_client_logged_out`).

Key theorems: `stop_not_lost_iff`, `stopped_client_logged_out`, `Worker.phase_step`.
-/
import EasyVoiceCall.Carry
import EasyVoiceCall.Worker

namespace EasyVoiceCall

open Buffer NetPacket

namespace Worker

/-! ### The flag -/

/-- A stop that has begun is not forgotten. -/
def StopKept (s : Worker) : Prop := s.stop ≠ .idle → s.gotoStop_ = true

/-- `syncStart` takes its first statement before `syncStop` is called. -/
def EntersFirst (s : Worker) (a : WorkerAction) : Prop := ∀ env, a = .net env → s.net = .entry → s.stop = .idle

theorem stopKept_step {v : Version} {s s' : Worker} {a : WorkerAction} {o' : List WorkerObs} (hk : s.StopKept)
    (hf : s.EntersFirst a) (h : s.step v a = some (s', o')) : s'.StopKept := by
  by_cases hnet : ∃ env, a = .net env
  · obtain ⟨env, rfl⟩ := hnet
    obtain ⟨hstop, -, hflag⟩ := netStep_frame h
    intro hs
    rw [hstop] at hs
    rw [hflag]
    split
    · rename_i hn
      exact absurd (hf env rfl hn) hs
    · exact hk hs
  by_cases hstop : a = .stop
  · subst hstop
    obtain ⟨-, -, hflag⟩ := stopStep_frame h
    intro _
    rw [hflag]
    split
    · rfl
    · rename_i hs
      exact hk hs
  · obtain ⟨⟨-, hs, -, hflag⟩, -⟩ := step_other h (fun env he => hnet ⟨env, he⟩) hstop
    intro hs'
    rw [hflag]
    exact hk (hs ▸ hs')

/-- Both loops end at their next test. -/
theorem loops_end {v : Version} {s s' : Worker} {a : WorkerAction} {o' : List WorkerObs}
    (hg : s.gotoStop_ = true) (h : s.step v a = some (s', o')) :
    (∀ env, a = .net env → s.net = .test → s'.net = .logout) ∧
    (a = .timer → s.timer = .test → s'.timer = .returned) := by
  refine ⟨?_, ?_⟩
  · rintro env rfl hn
    simp only [step, netStep, hn, hg] at h
    cases h
    rfl
  · rintro rfl ht
    simp only [step, timerStep, ht, hg] at h
    cases h
    rfl

end Worker

open Worker

/-- **When a stop is not lost.** In every run after `asyncStart` has returned:
`gotoStop_` is true in every state after `syncStop` has set it exactly when
`syncStart` takes its first statement, if it does, before `syncStop` is called.
And then the heartbeat loop and the timer loop end at their next test. -/
theorem stop_not_lost_iff {v : Version} {needAec durationReporter : Bool} {as : List WorkerAction} {s : Worker}
    {o : List WorkerObs} (h : Worker.exec v needAec durationReporter as = some (s, o)) :
    ((∀ pre s₁ o₁, pre <+: as → Worker.exec v needAec durationReporter pre = some (s₁, o₁) → s₁.StopKept) ↔
      Lts.Along (Worker.step v) Worker.EntersFirst (Worker.start needAec durationReporter) as) ∧
    (Lts.Along (Worker.step v) Worker.EntersFirst (Worker.start needAec durationReporter) as →
      ∀ pre a s₁ o₁ s₂ o₂, pre ++ [a] <+: as → Worker.exec v needAec durationReporter pre = some (s₁, o₁) →
        s₁.step v a = some (s₂, o₂) → s₁.stop ≠ .idle →
          (∀ env, a = .net env → s₁.net = .test → s₂.net = .logout) ∧
          (a = .timer → s₁.timer = .test → s₂.timer = .returned)) := by
  have hkept : Lts.Along (Worker.step v) Worker.EntersFirst (Worker.start needAec durationReporter) as →
      ∀ pre s₁ o₁, pre <+: as → Worker.exec v needAec durationReporter pre = some (s₁, o₁) → s₁.StopKept := by
    intro hC pre s₁ o₁ hpre hexec
    refine Lts.along_rule (Worker.step v) Worker.EntersFirst (fun s _ => s.StopKept)
      (fun hs => absurd rfl hs) (fun _ _ _ _ _ hf hk hstep => stopKept_step hk hf hstep) hexec ?_
    exact fun p a t q hp => hC p a t q (hp.trans hpre)
  refine ⟨⟨fun hall => ?_, hkept⟩, fun hC pre a s₁ o₁ s₂ o₂ hpre hexec hstep hs => ?_⟩
  · -- taken after the flag is set, the first statement clears it
    rintro pre a s₁ o₁ hpre hexec env rfl hn
    by_contra hs
    obtain ⟨post, hpost⟩ := hpre
    rw [← hpost] at h
    obtain ⟨s₂, o₂, -, h₂, -, -⟩ := (Lts.exec_append_iff _).mp h
    obtain ⟨t, p, q, ht, hstep, -⟩ := (Lts.exec_concat _).mp h₂
    cases hexec.symm.trans ht
    obtain ⟨hstop, -, hflag⟩ := netStep_frame hstep
    have hk := hall _ _ _ ⟨post, hpost⟩ h₂
    rw [Worker.StopKept, hstop, hflag, if_pos hn] at hk
    exact Bool.false_ne_true (hk hs)
  · exact loops_end (hkept hC pre s₁ o₁ ((List.prefix_append _ _).trans hpre) hexec hs) hstep

/-- The stop comes before the thread has begun: the thread clears the flag. -/
theorem stop_lost : ¬ ∀ (v : Version) (needAec durationReporter : Bool) (as : List WorkerAction) (s : Worker)
    (o : List WorkerObs), Worker.exec v needAec durationReporter as = some (s, o) →
    s.stop ≠ .idle → s.gotoStop_ = true := by
  intro h
  have h1 := h sampleVersion false true [.stop, .net ⟨true, 0, 0, 0, 0⟩] _ _ rfl (by decide)
  cases h1

/-- The thread has begun: the stop is kept. -/
theorem stop_not_lost_iff_begun : ∃ s o,
    Worker.exec sampleVersion false true [.net ⟨true, 0, 0, 0, 0⟩, .stop] = some (s, o) ∧
    ∀ pre s₁ o₁, pre <+: [WorkerAction.net ⟨true, 0, 0, 0, 0⟩, .stop] →
      Worker.exec sampleVersion false true pre = some (s₁, o₁) → s₁.StopKept := by
  have hrun : Worker.exec sampleVersion false true [.net ⟨true, 0, 0, 0, 0⟩, .stop] = some (_, _) := rfl
  refine ⟨_, _, hrun, (stop_not_lost_iff hrun).1.mpr ?_⟩
  rintro pre a s₁ o₁ hpre hexec env rfl -
  rcases pre with _ | ⟨x, _ | ⟨y, t⟩⟩ <;> simp at hpre
  cases hexec
  rfl

/-! ### The last word -/

namespace Worker

/-- No `LoginRequest` has been sent. -/
def NoLogin (o : List WorkerObs) : Prop := ∀ p ∈ sentOf o, p.payloadType ≠ .LoginRequest

/-- The last datagram sent is a `LogoutRequest`. -/
def LoggedOut (o : List WorkerObs) : Prop :=
  ∃ v up, (sentOf o).getLast? = some (ofType v up .LogoutRequest 0)

/-- What is known where `syncStart` stands: until it sends the `LoginRequest`, and
where it gave up before, none has been sent; after it has logged out, the
`LogoutRequest` was the last datagram. -/
def Phase (s : Worker) (o : List WorkerObs) : Prop :=
  match s.net with
  | .entry | .init | .connecting _ | .login | .returned false => NoLogin o
  | .returned true => LoggedOut o
  | _ => True

/-- The login is confirmed by the end of its wait, the timer's thread can be made,
the socket takes the `LogoutRequest`, and once `syncStart` has returned 0 no
audio callback is left past its test of `mute_` and nobody asks for a heartbeat. -/
def Timely (s : Worker) : WorkerAction → Prop
  | .net env =>
    (s.net = .check → s.isLogin = true) ∧
    (s.net = .startTimer → s.durationReporter_ = true → env.ok = true) ∧
    (s.net = .logout → env.ok = true)
  | .audio _ _ => s.net ≠ .returned true
  | .receive type _ _ => type = .HeartBeatRequest → s.net ≠ .returned true
  | _ => True

instance (s : Worker) : ∀ a, Decidable (s.Timely a)
  | .net _ => inferInstanceAs (Decidable (_ ∧ _ ∧ _))
  | .receive _ _ _ => inferInstanceAs (Decidable (_ → _))
  | .stop => inferInstanceAs (Decidable True)
  | .timer => inferInstanceAs (Decidable True)
  | .callback => inferInstanceAs (Decidable True)
  | .audio _ _ => inferInstanceAs (Decidable (_ ≠ _))
  | .setMute _ => inferInstanceAs (Decidable True)

theorem NoLogin.append {o o' : List WorkerObs} (h : NoLogin o)
    (h' : ∀ p, WorkerObs.sent p ∈ o' → p.payloadType ≠ .LoginRequest) : NoLogin (o ++ o') := by
  intro p hp
  rw [sentOf_append] at hp
  rcases List.mem_append.mp hp with hp | hp
  · exact h p hp
  · exact h' p (mem_sentOf.mp hp)

theorem LoggedOut.append {o o' : List WorkerObs} (h : LoggedOut o) (h' : sentOf o' = []) : LoggedOut (o ++ o') := by
  unfold LoggedOut
  rw [sentOf_append, h', List.append_nil]
  exact h

/-- A step of `syncStart` keeps what is known of where it stands. -/
theorem phase_netStep {v : Version} {s s' : Worker} {env : NetEnv} {o o' : List WorkerObs} (hp : s.Phase o)
    (ht : s.Timely (.net env)) (h : s.netStep v env = some (s', o')) : s'.Phase (o ++ o') := by
  obtain ⟨hcheck, htimer, hlogout⟩ := ht
  have hquiet : NoLogin o → NoLogin (o ++ []) := fun hn => by rwa [List.append_nil]
  cases hn : s.net <;> simp only [netStep, hn] at h <;> simp only [Phase, hn] at hp
  case entry =>
    cases h
    exact hquiet hp
  case init =>
    split_ifs at h <;> cases h <;> exact hquiet hp
  case connecting i =>
    split_ifs at h <;> cases h
    · exact hquiet hp
    · exact hquiet hp
    · exact hp.append (by simp)
  case login =>
    cases h
    exact trivial
  case waiting i =>
    split_ifs at h <;> cases h <;> exact trivial
  case check =>
    rw [hcheck hn] at h
    cases h
    exact trivial
  case loadEndpoint =>
    split_ifs at h
    cases h
    exact trivial
  case startAudio =>
    cases h
    exact trivial
  case startTimer =>
    split_ifs at h with hr hok
    · cases h
      exact trivial
    · cases h
      exact trivial
    · exact absurd (htimer hn (by simpa using hr)) hok
  case test =>
    split_ifs at h <;> cases h <;> exact trivial
  case heartbeat =>
    cases h
    exact trivial
  case logout =>
    rw [hlogout hn] at h
    cases h
    refine ⟨v, env.upTime, ?_⟩
    rw [sentOf_append]
    exact List.getLast?_concat
  case returned ok => cases h

/-- The other threads do: none of them sends a `LoginRequest`, and none sends
anything once `syncStart` has logged out. -/
theorem phase_of_frame {s s' : Worker} {o o' : List WorkerObs} (hp : s.Phase o) (hnet : s'.net = s.net)
    (hlogin : ∀ p, WorkerObs.sent p ∈ o' → p.payloadType ≠ .LoginRequest)
    (hnone : s.net = .returned true → sentOf o' = []) : s'.Phase (o ++ o') := by
  unfold Phase at hp ⊢
  rw [hnet]
  cases hn : s.net <;> rw [hn] at hp
  case entry => exact NoLogin.append hp hlogin
  case init => exact NoLogin.append hp hlogin
  case connecting i => exact NoLogin.append hp hlogin
  case login => exact NoLogin.append hp hlogin
  case returned ok =>
    cases ok with
    | false => exact NoLogin.append hp hlogin
    | true => exact LoggedOut.append hp (hnone hn)
  all_goals exact trivial

/-- The other threads send audio, in the second half of the callback, and
heartbeats, when asked. -/
theorem sent_of_step {v : Version} {s s' : Worker} {a : WorkerAction} {o' : List WorkerObs}
    (h : s.step v a = some (s', o')) (hnet : ∀ env, a ≠ .net env) (hstop : a ≠ .stop) :
    (∀ p, WorkerObs.sent p ∈ o' → p.payloadType ≠ .LoginRequest) ∧
    ((∀ f ok, a ≠ .audio f ok) → (∀ ok up, a ≠ .receive .HeartBeatRequest ok up) → o' = []) := by
  obtain ⟨-, rfl | ⟨f, ok, u, packets, rfl, hu, rfl⟩ | ⟨ok, up, rfl, rfl⟩⟩ := step_other h hnet hstop
  · exact ⟨fun p hp => absurd hp List.not_mem_nil, fun _ _ => rfl⟩
  · refine ⟨fun p hp => ?_, fun hno => absurd rfl (hno f ok)⟩
    obtain ⟨q, hq, hpq⟩ := List.mem_flatMap.mp hp
    rw [mem_send hpq]
    rcases Uplink.vadSend_sends hu with ⟨rfl, -⟩ | ⟨q', rfl, -, -, ht⟩
    · cases hq
    · rw [List.mem_singleton.mp hq]
      rcases ht with ht | ht <;> rw [ht] <;> decide
  · refine ⟨fun p hp => ?_, fun _ hno => absurd rfl (hno ok up)⟩
    rw [mem_send hp, payloadType_ofType]
    decide

/-- **One step**, of any thread. -/
theorem phase_step {v : Version} {s s' : Worker} {a : WorkerAction} {o o' : List WorkerObs} (hp : s.Phase o)
    (ht : s.Timely a) (h : s.step v a = some (s', o')) : s'.Phase (o ++ o') := by
  by_cases hnet : ∃ env, a = .net env
  · obtain ⟨env, rfl⟩ := hnet
    exact phase_netStep hp ht h
  have hnet' : ∀ env, a ≠ .net env := fun env he => hnet ⟨env, he⟩
  by_cases hstop : a = .stop
  · subst hstop
    obtain ⟨hn, rfl, -⟩ := stopStep_frame h
    exact phase_of_frame hp hn (by simp) fun _ => rfl
  have hn := net_frame h hnet'
  obtain ⟨hlogin, hnone⟩ := sent_of_step h hnet' hstop
  refine phase_of_frame hp hn hlogin fun hret => ?_
  have haudio : ∀ f ok, a ≠ .audio f ok := by
    rintro f ok rfl
    exact ht hret
  have hask : ∀ ok up, a ≠ .receive .HeartBeatRequest ok up := by
    rintro ok up rfl
    exact ht rfl hret
  rw [hnone haudio hask]
  rfl

end Worker

/-- A `LogoutRequest` as the client sends it is accepted as one, in a buffer of any length. -/
theorem isLogout_of_data {E : Type*} {cfg : ServerConfig} {rx : Received E} {v : Version} {up : UInt32} {n : ℕ}
    (hn : FixHeaderLength ≤ n) (h : rx.data = (ofType v up .LogoutRequest 0).header.take n) :
    rx.isLogout cfg = true := by
  have hp : rx.packet cfg = some (ofType v up .LogoutRequest 0) := by
    rw [Received.packet, h]
    exact makePacket_ofType v up .LogoutRequest 0 hn cfg.version rx.uptime
  rw [Received.isLogout, hp]
  simp [payloadType_ofType]

/-- A client whose last datagram is a `LogoutRequest` has no connection. -/
theorem gone_of_last_logout {E : Type*} [DecidableEq E] (cfg : ServerConfig) {e : E} {rxs : List (Received E)}
    (hne : ∀ rx ∈ rxs, rx.data ≠ []) {rx₀ : Received E} {v : Version} {up : UInt32}
    (hlast : (rxs.filter fun rx => rx.endpoint = e).getLast? = some rx₀)
    (hdata : rx₀.data = (ofType v up .LogoutRequest 0).header) : e ∉ (RawUdpServer.roomOf cfg rxs).endpoints := by
  set cut : Received E → Received E := fun rx => { rx with data := rx.data.take RawUdpServer.max_length } with hcut
  have hne' : ∀ rx ∈ rxs.map cut, rx.data ≠ [] := by
    intro rx hrx
    obtain ⟨rx', hrx', rfl⟩ := List.mem_map.mp hrx
    exact fun hnil => hne rx' hrx' (by simpa [hcut, RawUdpServer.max_length] using hnil)
  rw [RawUdpServer.roomOf_eq, (RawUdpSpec.roomAfter_spec cfg (rxs.map cut) hne').2 e]
  rintro ⟨rx, hrx, hno⟩
  have hfilter : (rxs.map cut).filter (fun rx => rx.endpoint = e) =
      (rxs.filter fun rx => rx.endpoint = e).map cut := by
    rw [List.filter_map]
    rfl
  have hrx' : ((rxs.map cut).filter fun rx => rx.endpoint = e).getLast? = some rx := hrx
  rw [hfilter, List.getLast?_map, hlast] at hrx'
  have hcutrx : cut rx₀ = rx := Option.some.inj hrx'
  have hdata' : rx.data = (ofType v up .LogoutRequest 0).header.take RawUdpServer.max_length := by
    rw [← hcutrx, ← hdata]
  rw [isLogout_of_data (by decide) hdata'] at hno
  cases hno

/-- **A stopped client is gone.** In every run whose steps are timely: once
`syncStart` has returned, if a `LoginRequest` was ever sent, the last datagram
sent is a `LogoutRequest`, and a server that has received the datagrams in the
order sent, between any others, has no connection for the client's endpoint. -/
theorem stopped_client_logged_out {v : Version} {needAec durationReporter : Bool} {as : List WorkerAction}
    {s : Worker} {o : List WorkerObs} (h : Worker.exec v needAec durationReporter as = some (s, o))
    (ht : Lts.Along (Worker.step v) Worker.Timely (Worker.start needAec durationReporter) as) {ret : Bool}
    (hnet : s.net = .returned ret) (hlogin : ∃ p ∈ Worker.sentOf o, p.payloadType = .LoginRequest) :
    (∃ p, (Worker.sentOf o).getLast? = some p ∧ p.payloadType = .LogoutRequest) ∧
    ∀ {E : Type*} [DecidableEq E] (cfg : ServerConfig) (e : E) (rxs : List (Received E)),
      (∀ rx ∈ rxs, rx.data ≠ []) →
      (rxs.filter (fun rx => rx.endpoint = e)).map (·.data) = (Worker.sentOf o).map (·.header) →
        e ∉ (RawUdpServer.roomOf cfg rxs).endpoints := by
  have hphase : s.Phase o := by
    refine Lts.along_rule (Worker.step v) Worker.Timely (fun s o => s.Phase o) ?_
      (fun _ _ _ _ _ hC hP hstep => phase_step hP hC hstep) h ht
    exact fun p hp => by cases hp
  have hout : Worker.LoggedOut o := by
    rw [Worker.Phase, hnet] at hphase
    cases ret with
    | true => exact hphase
    | false =>
      obtain ⟨p, hp, hpt⟩ := hlogin
      exact absurd hpt (hphase p hp)
  obtain ⟨w, up, hlast⟩ := hout
  refine ⟨⟨_, hlast, payloadType_ofType ..⟩, fun cfg e rxs hne hsame => ?_⟩
  have hl := congrArg List.getLast? hsame
  rw [List.getLast?_map, List.getLast?_map, hlast] at hl
  obtain ⟨rx₀, hrx₀, hdata⟩ := Option.map_eq_some_iff.mp hl
  exact gone_of_last_logout cfg hne hrx₀ hdata

/-- The next statement of `syncStart`, and it succeeds. -/
def sampleNet : WorkerAction := .net ⟨true, 0, 0, 0, 0⟩

/-- `syncStart` up to its wait for the login. -/
def sampleLogin : List WorkerAction := List.replicate 4 sampleNet

/-- The login is confirmed, the stream starts and the heartbeat loop is reached. -/
def sampleCall : List WorkerAction :=
  sampleLogin ++ .receive .LoginResponse true 0 :: List.replicate 5 sampleNet

/-- A block of speech. -/
def sampleAudio : WorkerAction := .audio ⟨false, true, 0, 0, 0, some [0x78], [], 0⟩ true

/-- A call: a block is sent, and the stream is stopped after the `LogoutRequest`
but before another callback. -/
theorem stopped_client_logged_out_call : ∃ s o,
    Worker.exec sampleVersion false false
      (sampleCall ++ [.callback, sampleAudio, .stop, sampleNet, sampleNet, .stop, .stop, .stop, .stop]) =
        some (s, o) ∧
    s.stop = .returned ∧ ∃ p, (Worker.sentOf o).getLast? = some p ∧ p.payloadType = .LogoutRequest := by
  refine ⟨_, _, rfl, rfl, ?_⟩
  have hrun : Worker.exec sampleVersion false false
      (sampleCall ++ [.callback, sampleAudio, .stop, sampleNet, sampleNet, .stop, .stop, .stop, .stop]) =
        some (_, _) := rfl
  have htimely : Lts.Along (Worker.step sampleVersion) Worker.Timely (Worker.start false false)
      (sampleCall ++ [.callback, sampleAudio, .stop, sampleNet, sampleNet, .stop, .stop, .stop, .stop]) := by
    decide
  exact (stopped_client_logged_out.{0} hrun htimely rfl (by decide)).1

/-- Two ways to stay a member. The login is not confirmed in time: `syncStart`
returns and sends no `LogoutRequest`. Or the stream is stopped too late: a
callback that has begun sends its block after the `LogoutRequest`. -/
theorem stopped_client_ghost :
    (¬ ∀ (as : List WorkerAction) (s : Worker) (o : List WorkerObs) (ret : Bool),
      Worker.exec sampleVersion false false as = some (s, o) → s.net = .returned ret → s.stop = .returned →
      (∃ p ∈ Worker.sentOf o, p.payloadType = .LoginRequest) →
        ∃ p, (Worker.sentOf o).getLast? = some p ∧ p.payloadType = .LogoutRequest) ∧
    ∃ as s o, Worker.exec sampleVersion false false as = some (s, o) ∧ s.net = .returned true ∧
      s.stop = .returned ∧ ∃ p, (Worker.sentOf o).getLast? = some p ∧ p.payloadType = .AudioMessage := by
  refine ⟨fun h => ?_, ?_⟩
  · obtain ⟨p, hp, ht⟩ := h (sampleLogin ++ List.replicate 11 sampleNet ++ List.replicate 5 .stop) _ _ false rfl
      rfl rfl (by decide)
    cases hp
    exact absurd ht (by decide)
  · exact ⟨sampleCall ++ [.callback, .stop, sampleNet, sampleNet, sampleAudio, .stop, .stop, .stop, .stop], _, _,
      rfl, rfl, rfl, _, rfl, by decide⟩

end EasyVoiceCall
