/-
# `syncStop` returns

Five threads share a worker, and `syncStop` waits for three of them: for the
audio callback when it stops the stream, for `syncStart` and for the duration
timer in its two `join`s. Where it is called once the audio has been started
(`StopsLate`), it does return: the threads it waits for have at most ten
statements left (`Worker.remaining`), and whatever the others do there is a way on. A worker
that has been stopped runs no audio and sends nothing, but for the answers of the
network client's receiver, which nobody ends.

Key definitions: `Worker.Stopping`, `Worker.remaining`.
Key theorems: `Worker.stopping_step`, `Worker.Stopping.progress`, `stop_completes`.
-/
import EasyVoiceCall.Lifetime

namespace EasyVoiceCall

open Buffer NetPacket

namespace Worker

/-- A statement of `syncStart`, of `syncStop` or of the timer. -/
def isStatement : WorkerAction → Bool
  | .net _ => true
  | .stop => true
  | .timer => true
  | _ => false

/-- The statements left of `syncStart` once the flag is set; the timer's thread that it makes
on the way has its first test to take. -/
def netLeft : NetPc → ℕ
  | .startTimer => 4
  | .heartbeat => 3
  | .test => 2
  | .logout => 1
  | .returned _ => 0
  | _ => 4

def stopLeft : StopPc → ℕ
  | .idle => 5
  | .endpoint => 4
  | .clear => 3
  | .joinNet => 2
  | .joinTimer => 1
  | .returned => 0

def timerLeft : TimerPc → ℕ
  | .body => 2
  | .test => 1
  | .absent => 0
  | .returned => 0

/-- The statements left of the three. -/
def remaining (s : Worker) : ℕ := netLeft s.net + stopLeft s.stop + timerLeft s.timer

/-- What is known once `syncStop` has been called. -/
structure Stopping (s : Worker) : Prop where
  begun : s.stop ≠ .idle
  flag : s.gotoStop_ = true
  past : s.PastStart
  kept : s.EndpointKept
  silent : s.stop ≠ .endpoint → s.running = false ∧ s.callback = .idle
  netDone : s.stop = .joinTimer ∨ s.stop = .returned → ∃ ok, s.net = .returned ok
  timerDone : s.stop = .returned → s.timer = .absent ∨ s.timer = .returned

theorem Stopping.notEntry {s : Worker} (h : s.Stopping) : s.net ≠ .entry := by
  intro hn
  have hpast := h.past
  unfold PastStart at hpast
  rw [hn] at hpast
  exact hpast

/-- A statement of `syncStart`, past the start of the audio. -/
theorem net_statement {v : Version} {s s' : Worker} {env : NetEnv} {o : List WorkerObs} (hp : s.PastStart)
    (hg : s.gotoStop_ = true) (h : s.netStep v env = some (s', o)) :
    netLeft s'.net + timerLeft s'.timer + 1 ≤ netLeft s.net + timerLeft s.timer ∧ s'.running = s.running ∧
      s'.callback = s.callback ∧ s'.uplink = s.uplink := by
  have hbeat : (s.sendHeartbeat v env).1.timer = s.timer ∧ (s.sendHeartbeat v env).1.running = s.running ∧
      (s.sendHeartbeat v env).1.callback = s.callback ∧ (s.sendHeartbeat v env).1.uplink = s.uplink := by
    unfold sendHeartbeat
    dsimp only
    split <;> exact ⟨rfl, rfl, rfl, rfl⟩
  unfold PastStart at hp
  cases hn : s.net <;> simp only [netStep, hn] at h hp
  case startTimer =>
    split_ifs at h <;> cases h
    · exact ⟨by simp only [netLeft]; omega, rfl, rfl, rfl⟩
    · exact ⟨by simp only [netLeft, timerLeft]; omega, rfl, rfl, rfl⟩
    · exact ⟨by simp only [netLeft]; omega, rfl, rfl, rfl⟩
  case test =>
    rw [hg] at h
    cases h
    exact ⟨by simp only [netLeft, Bool.not_true, Bool.false_eq_true, ↓reduceIte]; omega, rfl, rfl, rfl⟩
  case heartbeat =>
    cases h
    refine ⟨?_, hbeat.2⟩
    simp only [netLeft, hbeat.1]
    omega
  case logout =>
    cases h
    exact ⟨by simp only [netLeft]; omega, rfl, rfl, rfl⟩
  case returned ok => cases h

/-- A statement of `syncStop`. -/
theorem stop_statement {s s' : Worker} {o : List WorkerObs} (hs : s.Stopping) (h : s.stopStep = some (s', o)) :
    stopLeft s'.stop + 1 ≤ stopLeft s.stop ∧ s'.timer = s.timer ∧ s'.callback = s.callback ∧
      s'.uplink = s.uplink ∧ (s'.stop ≠ .endpoint → s'.running = false ∧ s'.callback = .idle) ∧
      (s'.stop = .joinTimer ∨ s'.stop = .returned → ∃ ok, s.net = .returned ok) ∧
      (s'.stop = .returned → s.timer = .absent ∨ s.timer = .returned) := by
  cases hpc : s.stop <;> simp only [stopStep, hpc] at h
  case idle => exact absurd hpc hs.begun
  case endpoint =>
    have he : s.endpoint_ = true := hs.kept.mpr (Or.inr (Or.inl hpc))
    rw [he] at h
    simp only [Bool.not_true, Bool.false_eq_true, ↓reduceIte] at h
    split at h
    · rename_i hidle
      cases h
      exact ⟨by simp [stopLeft], rfl, rfl, rfl, fun _ => ⟨rfl, hidle⟩, by simp, by simp⟩
    · cases h
  case clear =>
    cases h
    have hsilent := hs.silent (by simp [hpc])
    exact ⟨by simp [stopLeft], rfl, rfl, rfl, fun _ => hsilent, by simp, by simp⟩
  case joinNet =>
    split at h
    · rename_i ok hn
      cases h
      have hsilent := hs.silent (by simp [hpc])
      exact ⟨by simp [stopLeft], rfl, rfl, rfl, fun _ => hsilent, fun _ => ⟨ok, hn⟩, by simp⟩
    · cases h
  case joinTimer =>
    split at h
    · rename_i ht
      cases h
      have hsilent := hs.silent (by simp [hpc])
      exact ⟨by simp [stopLeft], rfl, rfl, rfl, fun _ => hsilent, fun _ => hs.netDone (Or.inl hpc), fun _ => ht⟩
    · cases h
  case returned => cases h

/-- **One step** of any thread keeps it so, and a statement of the three leaves fewer. -/
theorem stopping_step {v : Version} {s s' : Worker} {a : WorkerAction} {o : List WorkerObs} (hs : s.Stopping)
    (h : s.step v a = some (s', o)) :
    s'.Stopping ∧ s'.remaining + (if isStatement a then 1 else 0) ≤ s.remaining := by
  have hkept := endpointKept_step hs.kept h
  have hpast := pastStart_step hs.past h
  by_cases hnet : ∃ env, a = .net env
  · obtain ⟨env, rfl⟩ := hnet
    have hstep : s.netStep v env = some (s', o) := h
    obtain ⟨hstop, -, hflag⟩ := netStep_frame hstep
    obtain ⟨hleft, hrunning, hcallback, -⟩ := net_statement hs.past hs.flag hstep
    have hnone : ¬ ∃ ok, s.net = .returned ok := by
      rintro ⟨ok, hn⟩
      rw [netStep, hn] at hstep
      cases hstep
    refine ⟨⟨hstop ▸ hs.begun, ?_, hpast, hkept, ?_, ?_, ?_⟩, ?_⟩
    · rw [hflag, if_neg hs.notEntry]
      exact hs.flag
    · rw [hstop, hrunning, hcallback]
      exact hs.silent
    · rw [hstop]
      exact fun hj => absurd (hs.netDone hj) hnone
    · rw [hstop]
      exact fun hj => absurd (hs.netDone (Or.inr hj)) hnone
    · simp only [remaining, hstop, isStatement, ↓reduceIte]
      omega
  by_cases hstop : a = .stop
  · subst hstop
    have hstep : s.stopStep = some (s', o) := h
    obtain ⟨hn, -, hflag⟩ := stopStep_frame hstep
    obtain ⟨hleft, htimer, -, -, hsilent, hnetDone, htimerDone⟩ := stop_statement hs hstep
    refine ⟨⟨?_, ?_, hpast, hkept, hsilent, ?_, ?_⟩, ?_⟩
    · intro hidle
      rw [hidle] at hleft
      cases hpc : s.stop <;> simp [hpc, stopLeft] at hleft
    · rw [hflag, if_neg hs.begun]
      exact hs.flag
    · rw [hn]
      exact hnetDone
    · rw [htimer]
      exact htimerDone
    · simp only [remaining, hn, htimer, isStatement, ↓reduceIte]
      omega
  obtain ⟨⟨hn, hstop', -, hflag⟩, -⟩ := step_other h (fun env he => hnet ⟨env, he⟩) hstop
  have hsame : s'.timer = s.timer → (s.stop ≠ .endpoint → s'.running = false ∧ s'.callback = .idle) →
      isStatement a = false →
      s'.Stopping ∧ s'.remaining + (if isStatement a then 1 else 0) ≤ s.remaining := by
    intro htimer hsilent hno
    refine ⟨⟨hstop' ▸ hs.begun, hflag ▸ hs.flag, hpast, hkept, ?_, ?_, ?_⟩, ?_⟩
    · rw [hstop']
      exact hsilent
    · rw [hstop', hn]
      exact hs.netDone
    · rw [hstop', htimer]
      exact hs.timerDone
    · simp [remaining, hn, hstop', htimer, hno]
  cases a with
  | net env => exact absurd rfl fun he => hnet ⟨env, he⟩
  | stop => exact absurd rfl hstop
  | timer =>
    simp only [step, timerStep] at h
    have hdone : s.timer = .test ∨ s.timer = .body → s.stop ≠ .returned := by
      rintro ht hret
      rcases hs.timerDone hret with hd | hd <;> rw [hd] at ht <;> simp at ht
    split at h
    · rename_i ht
      rw [hs.flag] at h
      cases h
      refine ⟨⟨hs.begun, rfl, hpast, hkept, hs.silent, hs.netDone, fun hret => ?_⟩, ?_⟩
      · exact absurd hret (hdone (Or.inl ht))
      · simp [remaining, isStatement, ht, timerLeft]
    · rename_i ht
      cases h
      refine ⟨⟨hs.begun, hs.flag, hpast, hkept, hs.silent, hs.netDone, fun hret => ?_⟩, ?_⟩
      · exact absurd hret (hdone (Or.inr ht))
      · simp [remaining, isStatement, ht, timerLeft]
    · cases h
    · cases h
  | callback =>
    simp only [step, callbackStep] at h
    split at h
    · rename_i hrun
      cases h
      refine hsame rfl (fun hne => ?_) rfl
      rw [(hs.silent hne).1] at hrun
      exact absurd hrun.1 Bool.false_ne_true
    · cases h
  | audio f ok =>
    simp only [step, audioStep] at h
    split at h
    · rename_i hun
      split at h
      · cases h
      · cases h
        refine hsame rfl (fun hne => ?_) rfl
        rw [(hs.silent hne).2] at hun
        cases hun
    · cases h
  | receive type ok up =>
    simp only [step, receiveStep] at h
    split_ifs at h <;> cases h <;> exact hsame rfl hs.silent rfl
  | setMute mute =>
    cases h
    exact hsame rfl hs.silent rfl

/-- The call of `syncStop`. -/
theorem stopping_of_idle {v : Version} {s s' : Worker} {a : WorkerAction} {o : List WorkerObs} (hk : s.EndpointKept)
    (hidle : s.stop = .idle) (hl : s.StopsLate a) (h : s.step v a = some (s', o)) :
    s'.stop = .idle ∨ s'.Stopping := by
  by_cases hstop : a = .stop
  · subst hstop
    have hpast := hl rfl hidle
    have hkept := endpointKept_step hk h
    simp only [step, stopStep, hidle] at h
    cases h
    exact Or.inr ⟨by simp, rfl, hpast, hkept, by simp, by simp, by simp⟩
  · exact Or.inl ((stop_frame h hstop).1.trans hidle)

theorem Stopping.remaining_le {s : Worker} (hs : s.Stopping) : s.remaining ≤ 10 := by
  have hnet : netLeft s.net ≤ 4 := by
    unfold netLeft
    split <;> omega
  have htimer : timerLeft s.timer ≤ 2 := by
    unfold timerLeft
    split <;> omega
  have hstop : stopLeft s.stop ≤ 4 := by
    have hbegun := hs.begun
    unfold stopLeft
    split
    · rename_i hidle
      exact absurd hidle hbegun
    all_goals omega
  unfold remaining
  omega

/-- A block that every encoder takes. -/
def quietFrame : Frame := ⟨false, true, 0, 0, 0, some [], [], 0⟩

theorem vadSend_quietFrame (v : Version) (u : Uplink) : ∃ r, u.vadSend v quietFrame = some r := by
  unfold Uplink.vadSend
  rw [if_neg fun h => Bool.false_ne_true h.2]
  dsimp only
  split
  · have hopus : quietFrame.opus = some [] := rfl
    obtain ⟨p, hp, -⟩ := withPayload_ok v quietFrame.upTime .AudioMessage
      (((u.onVoice quietFrame).onClock quietFrame).sn_sendingAudio_ + 1) [] (Nat.zero_le _)
    rw [hopus]
    simp only [Uplink.sendNext, hp]
    exact ⟨_, rfl⟩
  · exact ⟨_, if_neg (by decide)⟩

/-- **A way on.** Until `syncStop` has returned, one of the three can take a statement, or
the callback that `syncStop` waits for can end. -/
theorem Stopping.progress {v : Version} {s : Worker} (hs : s.Stopping) (hret : s.stop ≠ .returned) :
    ∃ a s' o, s.step v a = some (s', o) ∧ s'.Stopping ∧
      s'.remaining + (if s'.callback = .unmuted then 1 else 0) <
        s.remaining + (if s.callback = .unmuted then 1 else 0) := by
  have hcount : ∀ a s' o, isStatement a = true → s'.callback = s.callback → s.step v a = some (s', o) →
      ∃ a s' o, s.step v a = some (s', o) ∧ s'.Stopping ∧
        s'.remaining + (if s'.callback = .unmuted then 1 else 0) <
          s.remaining + (if s.callback = .unmuted then 1 else 0) := by
    intro a s' o ha hcallback h
    obtain ⟨hs', hless⟩ := stopping_step hs h
    rw [if_pos ha] at hless
    refine ⟨a, s', o, h, hs', ?_⟩
    rw [hcallback]
    omega
  have hstopStep : (∃ r, s.stopStep = some r) → ∃ a s' o, s.step v a = some (s', o) ∧ s'.Stopping ∧
      s'.remaining + (if s'.callback = .unmuted then 1 else 0) <
        s.remaining + (if s.callback = .unmuted then 1 else 0) := by
    rintro ⟨r, h⟩
    exact hcount .stop r.1 r.2 rfl (stop_statement hs h).2.2.1 h
  cases hpc : s.stop with
  | idle => exact absurd hpc hs.begun
  | returned => exact absurd hpc hret
  | clear => exact hstopStep (by simp [stopStep, hpc])
  | endpoint =>
    have he : s.endpoint_ = true := hs.kept.mpr (Or.inr (Or.inl hpc))
    by_cases hidle : s.callback = .idle
    · exact hstopStep (by simp [stopStep, hpc, he, hidle])
    · -- the callback sends its block
      have hcb : s.callback = .unmuted := by
        cases hc : s.callback with
        | idle => exact absurd hc hidle
        | unmuted => rfl
      obtain ⟨⟨u, packets⟩, hu⟩ := vadSend_quietFrame v s.uplink
      have hstep : s.step v (.audio quietFrame true) =
          some ({ s with uplink := u, callback := .idle }, packets.flatMap (send true)) := by
        simp only [step, audioStep, hcb, ↓reduceIte, hu]
      obtain ⟨hs', hless⟩ := stopping_step hs hstep
      refine ⟨_, _, _, hstep, hs', ?_⟩
      rw [if_pos hcb]
      simp only [isStatement, Bool.false_eq_true, ↓reduceIte, reduceCtorEq] at hless ⊢
      omega
  | joinNet =>
    have hp := hs.past
    unfold PastStart at hp
    -- `syncStart` has returned, or has a statement to take
    by_cases hn : ∃ ok, s.net = .returned ok
    · obtain ⟨ok, hn⟩ := hn
      exact hstopStep (by simp [stopStep, hpc, hn])
    · obtain ⟨r, hr⟩ : ∃ r, s.netStep v ⟨true, 0, 0, 0, 0⟩ = some r := by
        cases hn' : s.net <;> simp only [hn'] at hp <;> simp only [netStep, hn']
        case returned ok => exact absurd ⟨ok, hn'⟩ hn
        case startTimer => split <;> exact ⟨_, rfl⟩
        all_goals exact ⟨_, rfl⟩
      exact hcount (.net _) r.1 r.2 rfl (net_statement hs.past hs.flag hr).2.2.1 hr
  | joinTimer =>
    by_cases ht : s.timer = .absent ∨ s.timer = .returned
    · exact hstopStep (by simp [stopStep, hpc, ht])
    · obtain ⟨r, hr, hcallback⟩ : ∃ r, s.timerStep = some r ∧ r.1.callback = s.callback := by
        cases ht' : s.timer with
        | absent => exact absurd (Or.inl ht') ht
        | returned => exact absurd (Or.inr ht') ht
        | test => exact ⟨_, by rw [timerStep, ht'], rfl⟩
        | body => exact ⟨_, by rw [timerStep, ht'], rfl⟩
      exact hcount .timer r.1 r.2 rfl hcallback hr

/-- What is put out after `syncStop` has returned. -/
theorem Stopping.ended {v : Version} {s s' : Worker} {a : WorkerAction} {o : List WorkerObs} (hs : s.Stopping)
    (hret : s.stop = .returned) (h : s.step v a = some (s', o)) :
    s'.stop = .returned ∧ ∀ p ∈ sentOf o, p.payloadType = .HeartBeatResponse := by
  obtain ⟨hrunning, hcallback⟩ := hs.silent (by simp [hret])
  obtain ⟨ret, hn⟩ := hs.netDone (Or.inr hret)
  have hnet : ∀ env, a ≠ .net env := by
    rintro env rfl
    simp only [step, netStep, hn] at h
    cases h
  have hstop : a ≠ .stop := by
    rintro rfl
    simp only [step, stopStep, hret] at h
    cases h
  obtain ⟨⟨-, hsame, -, -⟩, rfl | ⟨f, ok, u, packets, rfl, -, -⟩ | ⟨ok, up, rfl, rfl⟩⟩ := step_other h hnet hstop
  · exact ⟨hsame.trans hret, fun p hp => absurd hp List.not_mem_nil⟩
  · simp only [step, audioStep, hcallback] at h
    cases h
  · refine ⟨hsame.trans hret, fun p hp => ?_⟩
    rw [mem_send (mem_sentOf.mp hp), payloadType_ofType]

end Worker

open Worker

/-- **`syncStop` returns.** In every run in which it is called once the audio has been started,
or `syncStart` has returned: from the call on, `syncStart`, `syncStop` and the timer take at most
ten statements, however the run goes on; until it has returned there is a way on to
where it has, of at most eleven steps; and then the stream, the callback, `syncStart` and the
timer are over, and nothing is sent any more but answers to heartbeats. -/
theorem stop_completes {v : Version} {needAec durationReporter : Bool} {as : List WorkerAction} {s : Worker}
    {o : List WorkerObs} (h : Worker.exec v needAec durationReporter as = some (s, o))
    (hlate : Lts.Along (Worker.step v) StopsLate (Worker.start needAec durationReporter) as) (hs : s.stop ≠ .idle) :
    (∀ bs s' o', Lts.exec (Worker.step v) s bs = some (s', o') → bs.countP isStatement ≤ 10) ∧
    (∃ bs s' o', Lts.exec (Worker.step v) s bs = some (s', o') ∧ s'.stop = .returned ∧ bs.length ≤ 11) ∧
    (s.stop = .returned →
      (s.running = false ∧ s.callback = .idle ∧ (∃ ok, s.net = .returned ok) ∧
        (s.timer = .absent ∨ s.timer = .returned)) ∧
      ∀ bs s' o', Lts.exec (Worker.step v) s bs = some (s', o') →
        ∀ p ∈ Worker.sentOf o', p.payloadType = .HeartBeatResponse) := by
  have hstopping : s.EndpointKept ∧ (s.stop = .idle ∨ s.Stopping) := by
    refine Lts.along_rule (Worker.step v) StopsLate
      (fun s _ => s.EndpointKept ∧ (s.stop = .idle ∨ s.Stopping)) ⟨iff_of_true rfl (Or.inl rfl), Or.inl rfl⟩ ?_ h hlate
    rintro s o a s' o' hl ⟨hk, hidle | hs⟩ hstep
    · exact ⟨endpointKept_step hk hstep, stopping_of_idle hk hidle hl hstep⟩
    · exact ⟨endpointKept_step hk hstep, Or.inr (stopping_step hs hstep).1⟩
  have hst : s.Stopping := hstopping.2.resolve_left hs
  have hbound : s.remaining ≤ 10 := hst.remaining_le
  refine ⟨fun bs s' o' hexec => ?_, ?_, fun hret => ⟨⟨?_, ?_, hst.netDone (Or.inr hret), hst.timerDone hret⟩, ?_⟩⟩
  · have hvariant := (Lts.variant_rule (Worker.step v) Worker.Stopping Worker.remaining isStatement
      (fun _ _ _ _ hP hstep => stopping_step hP hstep) hexec hst).2
    omega
  · obtain ⟨bs, s', o', hexec, -, hret, -, hlen⟩ := Lts.reach_rule (Worker.step v) Worker.Stopping (·.stop = .returned)
      (fun _ => True) (fun s => s.remaining + if s.callback = .unmuted then 1 else 0)
      (fun _ hP hg => (hP.progress hg).imp fun _ => Exists.imp fun _ => Exists.imp fun _ => And.intro trivial) hst
    refine ⟨bs, s', o', hexec, hret, ?_⟩
    split at hlen <;> omega
  · exact (hst.silent (by simp [hret])).1
  · exact (hst.silent (by simp [hret])).2
  · intro bs s' o' hexec
    have hended := Lts.history_rule (Worker.step v)
      (fun _ s' o' => s'.Stopping ∧ s'.stop = .returned ∧ ∀ p ∈ Worker.sentOf o', p.payloadType = .HeartBeatResponse)
      ⟨hst, hret, fun p hp => absurd hp List.not_mem_nil⟩ ?_ hexec
    · exact hended.2.2
    · rintro _ s₁ o₁ a s₂ o₂ ⟨hs₁, hret₁, hsent⟩ hstep
      obtain ⟨hret₂, hsent₂⟩ := hs₁.ended hret₁ hstep
      refine ⟨(stopping_step hs₁ hstep).1, hret₂, fun p hp => ?_⟩
      rw [sentOf_append] at hp
      exact (List.mem_append.mp hp).elim (hsent p) (hsent₂ p)

instance (s : Worker) : Decidable s.PastStart := by
  unfold PastStart
  split <;> infer_instance

instance (s : Worker) : ∀ a, Decidable (s.StopsLate a)
  | .stop => decidable_of_iff (s.stop = .idle → s.PastStart) ⟨fun h _ => h, fun h => h rfl⟩
  | .net _ => isTrue fun h => WorkerAction.noConfusion h
  | .timer => isTrue fun h => WorkerAction.noConfusion h
  | .callback => isTrue fun h => WorkerAction.noConfusion h
  | .audio _ _ => isTrue fun h => WorkerAction.noConfusion h
  | .receive _ _ _ => isTrue fun h => WorkerAction.noConfusion h
  | .setMute _ => isTrue fun h => WorkerAction.noConfusion h

/-- The call is hung up while the second half of a callback is to come. -/
theorem stop_completes_call : ∃ s o,
    Worker.exec sampleVersion false true (sampleCall ++ [.callback, .stop]) = some (s, o) ∧ s.stop = .endpoint ∧
    s.callback = .unmuted ∧
    ∃ bs s' o', Lts.exec (Worker.step sampleVersion) s bs = some (s', o') ∧ s'.stop = .returned ∧ bs.length ≤ 11 := by
  have hrun : Worker.exec sampleVersion false true (sampleCall ++ [.callback, .stop]) = some (_, _) := rfl
  exact ⟨_, _, hrun, rfl, rfl, (stop_completes hrun (by decide) (by decide)).2.1⟩

end EasyVoiceCall
