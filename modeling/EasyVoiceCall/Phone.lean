/-
# The Android client

`MainActivity.java` and `Worker.java` of `client_android`: the button of the activity, and the
threads that a worker starts, one that records and sends and one that receives. What they
do with the sound is in `Capture.lean` and `Jni.lean`; here a block is what the encoder has
made of it, and of the bytes that wait in the buffer only the number is kept.

A thread ends with an exception that `run` does not catch: where there is no recorder, and where
a datagram is made for a port that is none or there is no socket for it. Else a worker's threads
end when they find `keepWorking` false; a thread is taken to read the flag as it is. The activity
makes a new worker each time it is started, and drops the one before: if that was in a call,
nobody can end it any more (`phone_hang_up_iff`). The server is never told that a call is over:
whoever has been received once stays in its room, and is sent what the others say
(`phone_stays_member`).

Key definitions: `Phone.step`, `JavaWorker.Told`, `JavaWorker.Records`, `Phone.StartsIdle`.
Key theorems: `JavaWorker.continues_runStep`, `Phone.known_exec`, `phone_hang_up_iff`, `phone_stays_member`.
-/
import EasyVoiceCall.Capture
import EasyVoiceCall.Conversation

namespace EasyVoiceCall

open Buffer NetPacket

/-! ### The worker -/

/-- The next statement of `run`: `frames` is the loop over the blocks read. -/
inductive RunPc
  | socket
  | login
  | receiver
  | record
  | test
  | read
  | frames
  | stop
  | returned
  deriving DecidableEq

/-- The next statement of a `DownStreamThread`. -/
inductive DownStreamPc
  | track
  | test
  | receive
  | returned
  deriving DecidableEq

/-- A `Worker`, with the threads that run its code: sockets are told apart by number, and
`pcmBuffer_mic` is the number of bytes in it. -/
structure JavaWorker where
  target : AndroidWorker
  keepWorking : Bool
  udpSocket : Option ℕ
  pcmBuffer_mic : ℕ
  runs : List RunPc
  downStreams : List DownStreamPc

/-- What a statement meets: whether it succeeds, whether the server's name is resolved, what
`AudioRecord.read` returns, what the encoder makes of the next block, the uptime. -/
structure RunEnv where
  ok : Bool
  resolved : Bool
  pcmLengthInByte_mic : ℤ
  encodedOpusBuffer : Bytes
  upTime : UInt32

deriving instance DecidableEq for AndroidWorker

/-- What an observer sees: a thread reads the microphone, a datagram goes out of a socket. -/
inductive PhoneObs
  | read (k t : ℕ)
  | sent (socket : ℕ) (target : AndroidWorker) (packet : NetPacket)
  deriving DecidableEq

/-- What all workers share: `audioSN` is `static`, and a new socket is none of those before. -/
structure PhoneStatics where
  audioSN : UInt32
  sockets : ℕ

namespace JavaWorker

def create : JavaWorker := ⟨{}, true, none, 0, [], []⟩

/-- `asyncStart`. -/
def asyncStart (self : JavaWorker) : JavaWorker := { self with keepWorking := true, runs := self.runs ++ [.socket] }

/-- `asyncStop`. -/
def asyncStop (self : JavaWorker) : JavaWorker := { self with keepWorking := false }

/-- `udpSocket.send(new DatagramPacket(..))`. -/
def send (self : JavaWorker) (env : RunEnv) : Except SendException ℕ :=
  self.target.send self.udpSocket env.resolved env.ok

/-- A statement of `run`, at `pc`, in the thread `t` of the `k`-th worker: where the thread goes on. -/
def runStep (v : Version) (statics : PhoneStatics) (self : JavaWorker) (k t : ℕ) (pc : RunPc) (env : RunEnv) :
    Option (JavaWorker × PhoneStatics × RunPc × List PhoneObs) :=
  match pc with
  | .socket =>
    if env.ok then
      some ({ self with udpSocket := some statics.sockets },
        { statics with sockets := statics.sockets + 1 }, .login, [])
    else some (self, statics, .record, [])
  | .login =>
    match self.send env with
    | .ok socket => some (self, statics, .receiver, [.sent socket self.target (ofType v env.upTime .LoginRequest 0)])
    -- it is caught, but no thread is made that receives
    | .error .IOException => some (self, statics, .record, [])
    | .error _ => some (self, statics, .returned, [])
  | .receiver => some ({ self with downStreams := self.downStreams ++ [.track] }, statics, .record, [])
  | .record => some (self, statics, if env.ok then .test else .returned, [])
  | .test => some (self, statics, if self.keepWorking then .read else .stop, [])
  | .read =>
    if env.pcmLengthInByte_mic ≤ 0 then some (self, statics, .test, [.read k t])
    else
      some ({ self with pcmBuffer_mic := self.pcmBuffer_mic + env.pcmLengthInByte_mic.toNat }, statics, .frames,
        [.read k t])
  | .frames =>
    if self.pcmBuffer_mic < tenMsBufferLength then some (self, statics, .test, [])
    else
      match withPayload v env.upTime .AudioMessage statics.audioSN env.encodedOpusBuffer with
      | .error _ => none
      | .ok packet =>
        let statics := { statics with audioSN := statics.audioSN + 1 }
        let rest := { self with pcmBuffer_mic := self.pcmBuffer_mic - tenMsBufferLength }
        match self.send env with
        | .ok socket => some (rest, statics, .frames, [.sent socket self.target packet])
        | .error .IOException => some (rest, statics, .frames, [])
        -- the block has not been cut off
        | .error _ => some (self, statics, .returned, [])
  | .stop => some (self, statics, .returned, [])
  | .returned => none

/-- A statement of a `DownStreamThread`, which ends with any exception. -/
def downStreamStep (self : JavaWorker) (pc : DownStreamPc) (ok : Bool) : Option DownStreamPc :=
  match pc with
  | .track => some (if ok then .test else .returned)
  | .test => some (if self.keepWorking then .receive else .returned)
  | .receive => some (if ok ∧ self.target.PortOK ∧ self.udpSocket ≠ none then .test else .returned)
  | .returned => none

end JavaWorker

/-! ### The activity -/

/-- The widgets: what is visible, and what can be edited. -/
structure Screen where
  tv_place_phone_to_your_ear : Bool
  iv_callUp : Bool
  iv_hangUp : Bool
  et_host : Bool
  et_port : Bool
  deriving DecidableEq

/-- While there is no call. -/
def Screen.idle : Screen := ⟨false, true, false, true, true⟩

/-- In a call. -/
def Screen.calling : Screen := ⟨true, false, true, false, false⟩

/-- The activity, and all workers it has made; `worker` is one of them. -/
structure Phone where
  workers : List JavaWorker
  worker : Option ℕ
  button_connect : Bool
  screen : Screen
  statics : PhoneStatics

/-- The activity is started, the button is clicked with these texts (`port` as `Integer.valueOf`
reads it, if it does), or a thread of a worker takes a statement. -/
inductive PhoneAction
  | onStart
  | click (host : String) (port : Option Int32)
  | run (k t : ℕ) (env : RunEnv)
  | downStream (k t : ℕ) (ok : Bool)

namespace Phone

section

/-- The activity when it has been created. -/
def create : Phone := ⟨[], none, false, .idle, ⟨0, 0⟩⟩

def setWorker (self : Phone) (k : ℕ) (w : JavaWorker) : Phone := { self with workers := self.workers.set k w }

def onStart (self : Phone) : Phone :=
  { self with workers := self.workers ++ [.create], worker := some self.workers.length }

/-- `onCheckedChanged(false)`. -/
def onUnchecked (self : Phone) : Phone :=
  let self : Phone :=
    match self.worker with
    | none => self
    | some k =>
      match self.workers[k]? with
      | none => self
      | some w => self.setWorker k w.asyncStop
  { self with screen := .idle }

variable (v : Version) (d : Char → Bool)

/-- `onCheckedChanged(true)`, `d` being the class `\d` of `isIpv4`. A server that is not taken
unchecks the button: while a listener is being called, `setChecked` calls none. -/
def onChecked (self : Phone) (host : String) (port : Option Int32) : Option Phone :=
  match self.worker, port with
  | some k, some port =>
    match self.workers[k]? with
    | none => none
    | some w =>
      let (target, ok) := w.target.tryCheckServer d host port
      let w := { w with target }
      if ok then some { self.setWorker k w.asyncStart with screen := .calling }
      else some { self.setWorker k w with button_connect := false }
  | _, _ => none

/-- A click on the button. -/
def click (self : Phone) (host : String) (port : Option Int32) : Option Phone :=
  let self : Phone := { self with button_connect := !self.button_connect }
  if self.button_connect then self.onChecked d host port else some self.onUnchecked

/-- A statement of `run`. -/
def run (self : Phone) (k t : ℕ) (env : RunEnv) : Option (Phone × List PhoneObs) := do
  let w ← self.workers[k]?
  let pc ← w.runs[t]?
  let (w', statics, pc', o) ← w.runStep v self.statics k t pc env
  return ({ self.setWorker k { w' with runs := w'.runs.set t pc' } with statics }, o)

/-- A statement of a `DownStreamThread`. -/
def downStream (self : Phone) (k t : ℕ) (ok : Bool) : Option Phone := do
  let w ← self.workers[k]?
  let pc ← w.downStreams[t]?
  let pc' ← w.downStreamStep pc ok
  return self.setWorker k { w with downStreams := w.downStreams.set t pc' }

def step (self : Phone) : PhoneAction → Option (Phone × List PhoneObs)
  | .onStart => some (self.onStart, [])
  | .click host port => (self.click d host port).map fun self => (self, [])
  | .run k t env => self.run v k t env
  | .downStream k t ok => (self.downStream k t ok).map fun self => (self, [])

/-- A run of the program, once the activity has been created. -/
abbrev exec (as : List PhoneAction) : Option (Phone × List PhoneObs) :=
  Lts.exec (step v d) create as

end

end Phone

/-! ### What a thread does -/

/-- The thread is in the loop that records. -/
def RunPc.looping : RunPc → Bool
  | .test | .read | .frames => true
  | _ => false

/-- The thread has left its loop. -/
def RunPc.left : RunPc → Bool
  | .stop | .returned => true
  | _ => false

namespace JavaWorker

/-- The threads, if there are any, have been told to end. -/
def Told (self : JavaWorker) : Prop := self.runs ≠ [] → self.keepWorking = false

instance (self : JavaWorker) : Decidable self.Told := inferInstanceAs (Decidable (_ → _))

/-- `run` goes on after every datagram: the port can be sent to, and there is a socket. -/
structure Sends (w : JavaWorker) : Prop where
  port : w.target.PortOK
  socket : w.udpSocket ≠ none

/-- The thread `t` is in the loop that records, alone, and nothing is there that ends it. -/
structure Records (w : JavaWorker) (t : ℕ) : Prop where
  keepWorking : w.keepWorking = true
  sends : w.Sends
  loops : ∃ pc, w.runs[t]? = some pc ∧ pc.looping = true
  alone : ∀ t' pc, w.runs[t']? = some pc → t' ≠ t → pc.left = true

/-- What the other threads of a worker see of a statement. -/
structure Continues (w w' : JavaWorker) : Prop where
  keepWorking : w'.keepWorking = w.keepWorking
  length : w'.runs.length = w.runs.length
  records : ∀ t, w.Records t → w'.Records t

theorem not_told_iff {w : JavaWorker} : ¬ w.Told ↔ w.runs ≠ [] ∧ w.keepWorking = true := by
  rw [Told, Classical.not_imp, Bool.not_eq_false]

theorem Told.asyncStop (w : JavaWorker) : w.asyncStop.Told := fun _ => rfl

theorem not_told_asyncStart (w : JavaWorker) : ¬ w.asyncStart.Told :=
  not_told_iff.mpr ⟨List.append_ne_nil_of_right_ne_nil _ (List.cons_ne_nil _ _), rfl⟩

theorem Continues.trans {w w' w'' : JavaWorker} (h : w.Continues w') (h' : w'.Continues w'') : w.Continues w'' :=
  ⟨h'.keepWorking.trans h.keepWorking, h'.length.trans h.length, fun t hr => h'.records t (h.records t hr)⟩

theorem Continues.told_iff {w w' : JavaWorker} (h : w.Continues w') : w'.Told ↔ w.Told := by
  rw [Told, Told, h.keepWorking, ← List.length_pos_iff, ← List.length_pos_iff, h.length]

section

variable {v : Version} {statics statics' : PhoneStatics} {w w' : JavaWorker} {k t : ℕ} {pc pc' : RunPc} {env : RunEnv}
  {o : List PhoneObs}

/-- What a statement of `run` does: to what the other threads see, where the thread goes on,
and what it has read. -/
structure Ran (w w' : JavaWorker) (k t : ℕ) (pc pc' : RunPc) (o : List PhoneObs) : Prop where
  keepWorking : w'.keepWorking = w.keepWorking
  runs : w'.runs = w.runs
  sends : w.Sends → w'.Sends
  loops : w.keepWorking = true → w.Sends → pc.looping = true → pc'.looping = true
  left : pc.left = true → pc'.left = true
  ended : w.keepWorking = false → pc' ≠ .read
  count : ∀ k' t', o.count (.read k' t') = if pc = .read ∧ k' = k ∧ t' = t then 1 else 0

/-- A statement that neither reads nor leads to one that does. -/
theorem Ran.quiet (hkeep : w'.keepWorking = w.keepWorking) (hruns : w'.runs = w.runs) (hsends : w.Sends → w'.Sends)
    (hpc : pc ≠ .read) (hread : pc' ≠ .read) (hloops : w.Sends → pc.looping = true → pc'.looping = true)
    (hleft : pc.left = true → pc'.left = true) (ho : ∀ k t, .read k t ∉ o) : Ran w w' k t pc pc' o where
  keepWorking := hkeep
  runs := hruns
  sends := hsends
  loops _ := hloops
  left := hleft
  ended _ := hread
  count k' t' := by rw [List.count_eq_zero.mpr (ho k' t'), if_neg fun hc => hpc hc.1]

/-- A statement before the loop. -/
theorem Ran.before (hkeep : w'.keepWorking = w.keepWorking) (hruns : w'.runs = w.runs) (hsends : w.Sends → w'.Sends)
    (hloops : pc.looping = false) (hleft : pc.left = false) (hread : pc' ≠ .read) (ho : ∀ k t, .read k t ∉ o) :
    Ran w w' k t pc pc' o := by
  refine .quiet hkeep hruns hsends ?_ hread (fun _ hb => absurd hb ?_) (fun hb => absurd hb ?_) ho
  · rintro rfl
    cases hloops
  · simp [hloops]
  · simp [hleft]

/-- With a port and a socket, nothing comes of a datagram that is not caught. -/
theorem Sends.send_ne {e : SendException} (h : w.Sends) (hs : w.send env = .error e) : e = .IOException := by
  have hgo := AndroidWorker.goesOn_send h.port h.socket env.resolved env.ok
  rw [show w.target.send w.udpSocket env.resolved env.ok = .error e from hs] at hgo
  cases e with
  | IOException => rfl
  | IllegalArgumentException => cases hgo
  | NullPointerException => cases hgo

/-- **A statement of `run`.** -/
theorem runStep_ran (h : w.runStep v statics k t pc env = some (w', statics', pc', o)) : Ran w w' k t pc pc' o := by
  cases pc <;> simp only [runStep] at h
  case socket =>
    split at h <;> cases h
    · exact .before rfl rfl (fun hs => ⟨hs.port, Option.some_ne_none _⟩) rfl rfl (by decide) (by simp)
    · exact .before rfl rfl id rfl rfl (by decide) (by simp)
  case login =>
    split at h <;> cases h <;> exact .before rfl rfl id rfl rfl (by decide) (by simp)
  case receiver =>
    cases h
    exact .before rfl rfl (fun hs => ⟨hs.port, hs.socket⟩) rfl rfl (by decide) (by simp)
  case record =>
    cases h
    refine .before rfl rfl id rfl rfl ?_ (by simp)
    split <;> decide
  case test =>
    cases h
    exact ⟨rfl, rfl, id, fun hk _ _ => by rw [hk]; rfl, fun hb => (nomatch hb), fun hk => by rw [hk]; decide,
      fun _ _ => by simp⟩
  case read =>
    have hcount : ∀ k' t', [PhoneObs.read k t].count (.read k' t') =
        if RunPc.read = .read ∧ k' = k ∧ t' = t then 1 else 0 := by
      intro k' t'
      by_cases hkt : k' = k ∧ t' = t
      · obtain ⟨rfl, rfl⟩ := hkt
        simp
      · rw [if_neg fun hc => hkt hc.2, List.count_eq_zero, List.mem_singleton, PhoneObs.read.injEq]
        exact hkt
    split at h <;> cases h
    · exact ⟨rfl, rfl, id, fun _ _ _ => rfl, fun hb => (nomatch hb), fun _ => by decide, hcount⟩
    · exact ⟨rfl, rfl, fun hs => ⟨hs.port, hs.socket⟩, fun _ _ _ => rfl, fun hb => (nomatch hb), fun _ => by decide,
        hcount⟩
  case frames =>
    split at h
    · cases h
      exact .quiet rfl rfl id (by decide) (by decide) (fun _ _ => rfl) (fun hb => (nomatch hb)) (by simp)
    · split at h
      · cases h
      · split at h
        · cases h
          exact .quiet rfl rfl (fun hs => ⟨hs.port, hs.socket⟩) (by decide) (by decide) (fun _ _ => rfl)
            (fun hb => (nomatch hb)) (by simp)
        · cases h
          exact .quiet rfl rfl (fun hs => ⟨hs.port, hs.socket⟩) (by decide) (by decide) (fun _ _ => rfl)
            (fun hb => (nomatch hb)) (by simp)
        · rename_i hne hsend
          cases h
          exact .quiet rfl rfl id (by decide) (by decide) (fun hs _ => absurd (hs.send_ne hsend) hne)
            (fun hb => (nomatch hb)) (by simp)
  case stop =>
    cases h
    exact .quiet rfl rfl id (by decide) (by decide) (fun _ hb => (nomatch hb)) (fun _ => rfl) (by simp)
  case returned => cases h

/-- **The worker that a statement leaves**: a thread that records goes on, whoever takes the
statement. -/
theorem continues_runStep (h : w.runStep v statics k t pc env = some (w', statics', pc', o))
    (ht : w.runs[t]? = some pc) : w.Continues { w' with runs := w'.runs.set t pc' } := by
  have hran := runStep_ran h
  have htlt : t < w.runs.length := (List.getElem?_eq_some_iff.mp ht).1
  have hself : (w.runs.set t pc')[t]? = some pc' := List.getElem?_set_self htlt
  refine ⟨hran.keepWorking, by rw [List.length_set, hran.runs], fun u hu => ?_⟩
  obtain ⟨hkeep, hsends, ⟨pc₀, hpc₀, hloops⟩, halone⟩ := hu
  refine ⟨hran.keepWorking.trans hkeep, ⟨(hran.sends hsends).port, (hran.sends hsends).socket⟩, ?_, ?_⟩
  · rw [hran.runs]
    by_cases htu : t = u
    · subst htu
      cases ht.symm.trans hpc₀
      exact ⟨pc', hself, hran.loops hkeep hsends hloops⟩
    · exact ⟨pc₀, by rw [List.getElem?_set_ne htu, hpc₀], hloops⟩
  · intro u' pcu hu' hne
    rw [hran.runs] at hu'
    by_cases htu : t = u'
    · subst htu
      cases hself.symm.trans hu'
      exact hran.left (halone t pc ht hne)
    · rw [List.getElem?_set_ne htu] at hu'
      exact halone u' pcu hu' hne

end

end JavaWorker

/-! ### What becomes of the workers -/

namespace Phone

open JavaWorker

/-- The activity is started while the button is off. -/
def StartsIdle (self : Phone) : PhoneAction → Prop
  | .onStart => self.button_connect = false
  | _ => True

instance (self : Phone) : ∀ a, Decidable (self.StartsIdle a)
  | .onStart => inferInstanceAs (Decidable (_ = _))
  | .click _ _ => inferInstanceAs (Decidable True)
  | .run _ _ _ => inferInstanceAs (Decidable True)
  | .downStream _ _ _ => inferInstanceAs (Decidable True)

/-- What holds in every run. -/
structure Sound (phone : Phone) : Prop where
  current : ∀ k, phone.worker = some k → k < phone.workers.length
  checked : phone.button_connect = true → phone.worker ≠ none
  hungUp : phone.button_connect = false → ∀ k w, phone.worker = some k → phone.workers[k]? = some w → w.Told
  screen : phone.screen = if phone.button_connect then .calling else .idle

/-- Nobody records but the worker of the call that the button shows. -/
structure Clean (phone : Phone) : Prop where
  told : ∀ k w, phone.workers[k]? = some w → (phone.worker = some k → phone.button_connect = false) → w.Told
  calling : phone.button_connect = true →
    ∃ k w, phone.worker = some k ∧ phone.workers[k]? = some w ∧ ¬ w.Told

/-- A worker that has been dropped, and not told to end. -/
def Lost (self : Phone) (k : ℕ) : Prop :=
  self.worker ≠ some k ∧ ∃ w, self.workers[k]? = some w ∧ ¬ w.Told

/-- What a click or a statement of a thread makes of one worker. -/
inductive Changes (s s' : Phone) (k : ℕ) (w : JavaWorker) : JavaWorker → Prop
  | continues {w' : JavaWorker} : w.Continues w' → s'.button_connect = s.button_connect → s'.screen = s.screen →
      Changes s s' k w w'
  | ends : s.worker = some k → s.button_connect = true → s'.button_connect = false → s'.screen = .idle →
      Changes s s' k w w.asyncStop
  | begins (target : AndroidWorker) : s.worker = some k → s'.button_connect = true → s'.screen = .calling →
      Changes s s' k w { w with target }.asyncStart

/-- The thread is about to read the microphone. -/
def reading (self : Phone) (k t : ℕ) : ℕ :=
  if (self.workers[k]?.bind fun w => w.runs[t]?) = some .read then 1 else 0

section

variable {v : Version} {d : Char → Bool} {s s' : Phone} {a : PhoneAction} {o : List PhoneObs}

theorem getElem?_set_cases {ws : List JavaWorker} {k j : ℕ} {w' x : JavaWorker} (h : (ws.set k w')[j]? = some x) :
    (j = k ∧ x = w') ∨ (j ≠ k ∧ ws[j]? = some x) := by
  rw [List.getElem?_set] at h
  split at h
  · rename_i hkj
    split at h
    · cases h
      exact Or.inl ⟨hkj.symm, rfl⟩
    · cases h
  · rename_i hkj
    exact Or.inr ⟨Ne.symm hkj, h⟩

/-- A click, on a phone with a worker. -/
theorem click_changes {host : String} {port : Option Int32} (hs : s.Sound) (h : s.click d host port = some s') :
    ∃ k w w', s.workers[k]? = some w ∧ s'.workers = s.workers.set k w' ∧ s'.worker = s.worker ∧
      Changes s s' k w w' := by
  rw [click] at h
  rcases hb : s.button_connect with _ | _ <;> simp only [hb, Bool.not_true, Bool.not_false, ↓reduceIte,
    Bool.false_eq_true] at h
  · -- it is checked now
    cases hk : s.worker with
    | none =>
      simp only [onChecked, hk] at h
      cases h
    | some k =>
      obtain ⟨w, hw⟩ : ∃ w, s.workers[k]? = some w := ⟨_, List.getElem?_eq_getElem (hs.current k hk)⟩
      cases port with
      | none =>
        simp only [onChecked, hk] at h
        cases h
      | some port =>
        simp only [onChecked, hk, hw] at h
        rw [AndroidWorker.tryCheckServer] at h
        cases hip : AndroidWorker.isIpv4 d host with
        | true =>
          rw [hip] at h
          cases h
          exact ⟨k, w, _, hw, rfl, rfl, .begins _ hk rfl rfl⟩
        | false =>
          rw [hip] at h
          cases h
          exact ⟨k, w, _, hw, rfl, rfl, .continues ⟨rfl, rfl, fun _ => id⟩ hb.symm rfl⟩
  · -- it is not
    cases hk : s.worker with
    | none => exact absurd hk (hs.checked hb)
    | some k =>
      have hw := List.getElem?_eq_getElem (hs.current k hk)
      simp only [onUnchecked, hk, hw, Option.some.injEq] at h
      subst h
      exact ⟨k, _, _, hw, rfl, rfl, .ends hk hb rfl rfl⟩

theorem reading_eq {w : JavaWorker} {k : ℕ} (hw : s.workers[k]? = some w) (t : ℕ) :
    s.reading k t = if w.runs[t]? = some .read then 1 else 0 := by
  rw [reading, hw, Option.bind_some]

theorem reading_set_ne {w' : JavaWorker} {k k' : ℕ} (hset : s'.workers = s.workers.set k w') (hk : k' ≠ k) (t : ℕ) :
    s'.reading k' t = s.reading k' t := by
  rw [reading, reading, hset, List.getElem?_set_ne (Ne.symm hk)]

/-- A statement of a thread; where it has been told to end, it reads at most what it was about to. -/
theorem thread_changes (ha : a ≠ .onStart) (hc : ∀ host port, a ≠ .click host port) (h : s.step v d a = some (s', o)) :
    ∃ k w w', s.workers[k]? = some w ∧ s'.workers = s.workers.set k w' ∧ s'.worker = s.worker ∧ w.Continues w' ∧
      s'.button_connect = s.button_connect ∧ s'.screen = s.screen ∧
      (w.Told → ∀ k' t', o.count (.read k' t') + s'.reading k' t' ≤ s.reading k' t') := by
  cases a with
  | onStart => exact absurd rfl ha
  | click host port => exact absurd rfl (hc host port)
  | run k t env =>
    simp only [step, run, Option.bind_eq_bind, Option.bind_eq_some_iff] at h
    obtain ⟨w, hw, pc, hpc, ⟨w', statics, pc', o'⟩, hstep, hs⟩ := h
    cases hs
    refine ⟨k, w, _, hw, rfl, rfl, continues_runStep hstep hpc, rfl, rfl, fun htold k' t' => ?_⟩
    have hran := runStep_ran hstep
    have htlt : t < w.runs.length := (List.getElem?_eq_some_iff.mp hpc).1
    have hkeep : w.keepWorking = false := htold (List.ne_nil_of_length_pos (by omega))
    rw [hran.count]
    by_cases hk : k' = k
    · subst hk
      rw [reading_eq hw, reading_eq (List.getElem?_set_self (List.getElem?_eq_some_iff.mp hw).1), hran.runs]
      by_cases htt : t' = t
      · subst htt
        rw [List.getElem?_set_self htlt, hpc, if_neg fun he => hran.ended hkeep (Option.some.inj he)]
        simp
      · rw [List.getElem?_set_ne (Ne.symm htt), if_neg fun hall => htt hall.2.2, Nat.zero_add]
    · rw [if_neg fun hall => hk hall.2.1, Nat.zero_add]
      exact (reading_set_ne rfl hk t').le
  | downStream k t ok =>
    simp only [step, downStream, Option.bind_eq_bind, Option.map_eq_some_iff, Option.bind_eq_some_iff] at h
    obtain ⟨s₁, ⟨w, hw, pc, hpc, pc', hstep, hs⟩, he⟩ := h
    cases hs
    cases he
    refine ⟨k, w, _, hw, rfl, rfl, ⟨rfl, rfl, fun _ ⟨hk, hs, hl, ha⟩ => ⟨hk, ⟨hs.port, hs.socket⟩, hl, ha⟩⟩, rfl, rfl,
      fun _ k' t' => ?_⟩
    rw [List.count_nil, Nat.zero_add]
    by_cases hk : k' = k
    · subst hk
      rw [reading_eq hw, reading_eq (List.getElem?_set_self (List.getElem?_eq_some_iff.mp hw).1)]
    · exact (reading_set_ne rfl hk t').le

/-- **One step**: the activity is started, or one worker changes. -/
theorem step_changes (hs : s.Sound) (h : s.step v d a = some (s', o)) : (a = .onStart ∧ s' = s.onStart) ∨
    (s.StartsIdle a ∧ ∃ k w w', s.workers[k]? = some w ∧ s'.workers = s.workers.set k w' ∧ s'.worker = s.worker ∧
      Changes s s' k w w') := by
  by_cases ha : a = .onStart
  · subst ha
    cases h
    exact Or.inl ⟨rfl, rfl⟩
  have hidle : s.StartsIdle a := by
    cases a with
    | onStart => exact absurd rfl ha
    | _ => exact trivial
  refine Or.inr ⟨hidle, ?_⟩
  by_cases hc : ∃ host port, a = .click host port
  · obtain ⟨host, port, rfl⟩ := hc
    obtain ⟨s₁, hclick, he⟩ := Option.map_eq_some_iff.mp h
    cases he
    exact click_changes hs hclick
  · obtain ⟨k, w, w', hw, hset, hsame, hcont, hbutton, hscreen, -⟩ :=
      thread_changes ha (fun host port he => hc ⟨host, port, he⟩) h
    exact ⟨k, w, w', hw, hset, hsame, .continues hcont hbutton hscreen⟩

theorem sound_step (hs : s.Sound) (h : s.step v d a = some (s', o)) : s'.Sound := by
  obtain ⟨-, rfl⟩ | ⟨-, k, w, w', hw, hset, hsame, hchange⟩ := step_changes hs h
  · refine ⟨fun k hk => ?_, fun _ => Option.some_ne_none _, fun _ k w hk hw => ?_, hs.screen⟩
    · cases hk
      rw [onStart, List.length_append, List.length_singleton]
      exact Nat.lt_succ_self _
    · cases hk
      rw [onStart, List.getElem?_concat_length] at hw
      cases hw
      exact fun hne => absurd rfl hne
  · have hlt : k < s.workers.length := (List.getElem?_eq_some_iff.mp hw).1
    refine ⟨fun j hj => ?_, fun hb => ?_, fun hoff j x hj hx => ?_, ?_⟩
    · rw [hset, List.length_set]
      exact hs.current j (hsame ▸ hj)
    · rw [hsame]
      cases hchange with
      | continues _ hbutton _ => exact hs.checked (hbutton ▸ hb)
      | ends hk _ _ _ => exact hk ▸ Option.some_ne_none k
      | begins _ hk _ _ => exact hk ▸ Option.some_ne_none k
    · rw [hsame] at hj
      rw [hset] at hx
      cases hchange with
      | continues hcont hbutton _ =>
        obtain ⟨rfl, rfl⟩ | ⟨-, hx⟩ := getElem?_set_cases hx
        · exact hcont.told_iff.mpr (hs.hungUp (hbutton ▸ hoff) j w hj hw)
        · exact hs.hungUp (hbutton ▸ hoff) j x hj hx
      | ends hk _ _ _ =>
        cases hk.symm.trans hj
        rw [List.getElem?_set_self hlt] at hx
        cases hx
        exact Told.asyncStop w
      | begins _ _ hon _ => exact absurd (hoff.symm.trans hon) Bool.false_ne_true
    · cases hchange with
      | continues _ hbutton hscreen => rw [hscreen, hbutton, hs.screen]
      | ends _ _ hbutton hscreen => rw [hscreen, hbutton, if_neg Bool.false_ne_true]
      | begins _ _ hbutton hscreen => rw [hscreen, hbutton, if_pos rfl]

/-- **A worker that is lost** goes on by its own threads alone. -/
theorem lost_continues {k : ℕ} {w : JavaWorker} (hs : s.Sound) (hne : s.worker ≠ some k) (hw : s.workers[k]? = some w)
    (h : s.step v d a = some (s', o)) : s'.worker ≠ some k ∧ ∃ w', s'.workers[k]? = some w' ∧ w.Continues w' := by
  have hlt : k < s.workers.length := (List.getElem?_eq_some_iff.mp hw).1
  have hstays : w.Continues w := ⟨rfl, rfl, fun _ => id⟩
  obtain ⟨-, rfl⟩ | ⟨-, j, x, x', hx, hset, hsame, hchange⟩ := step_changes hs h
  · refine ⟨fun hk => absurd (Option.some.inj hk) (Nat.ne_of_gt hlt), w, ?_, hstays⟩
    rw [onStart, List.getElem?_append_left hlt]
    exact hw
  · refine ⟨hsame ▸ hne, ?_⟩
    by_cases hjk : j = k
    · subst hjk
      cases hw.symm.trans hx
      refine ⟨x', by rw [hset, List.getElem?_set_self hlt], ?_⟩
      cases hchange with
      | continues hcont _ _ => exact hcont
      | ends hk _ _ _ => exact absurd hk hne
      | begins _ hk _ _ => exact absurd hk hne
    · refine ⟨w, ?_, hstays⟩
      rw [hset, List.getElem?_set_ne hjk]
      exact hw

/-- A worker that is lost stays lost. -/
theorem lost_step {k : ℕ} (hs : s.Sound) (hl : s.Lost k) (h : s.step v d a = some (s', o)) : s'.Lost k := by
  obtain ⟨hne, w, hw, hno⟩ := hl
  obtain ⟨hne', w', hw', hcont⟩ := lost_continues hs hne hw h
  exact ⟨hne', w', hw', fun ht => hno (hcont.told_iff.mp ht)⟩

/-- **One step from where nobody is lost**: nobody is, unless the activity is started in a call. -/
theorem clean_step (hs : s.Sound) (hc : s.Clean) (h : s.step v d a = some (s', o)) :
    (s.StartsIdle a → s'.Clean) ∧ (¬ s.StartsIdle a → ∃ k, s'.Lost k) := by
  obtain ⟨rfl, rfl⟩ | ⟨hidle, k, w, w', hw, hset, hsame, hchange⟩ := step_changes hs h
  · refine ⟨fun hoff => ⟨fun j x hx _ => ?_, fun hon => ?_⟩, fun hon => ?_⟩
    · rcases List.mem_append.mp (List.mem_iff_getElem?.mpr ⟨j, hx⟩) with hx | hx
      · obtain ⟨i, hi⟩ := List.mem_iff_getElem?.mp hx
        exact hc.told i x hi fun _ => hoff
      · rw [List.mem_singleton.mp hx]
        exact fun hne => absurd rfl hne
    · exact absurd (show s.button_connect = true from hon) (by rw [show s.button_connect = false from hoff]; decide)
    · obtain ⟨j, x, hj, hx, hno⟩ := hc.calling (by simpa [StartsIdle] using hon)
      have hlt := hs.current j hj
      refine ⟨j, fun hj' => absurd (Option.some.inj hj') (Nat.ne_of_gt hlt), x, ?_, hno⟩
      rw [onStart, List.getElem?_append_left hlt]
      exact hx
  · refine ⟨fun _ => ?_, fun hno => absurd hidle hno⟩
    have hlt : k < s.workers.length := (List.getElem?_eq_some_iff.mp hw).1
    have hself : s'.workers[k]? = some w' := by rw [hset, List.getElem?_set_self hlt]
    have hothers : ∀ j x, s'.workers[j]? = some x → j ≠ k → s.workers[j]? = some x := by
      intro j x hx hjk
      rw [hset] at hx
      exact (getElem?_set_cases hx).elim (fun heq => absurd heq.1 hjk) (·.2)
    cases hchange with
    | continues hcont hbutton _ =>
      refine ⟨fun j x hx hj => ?_, fun hon => ?_⟩
      · rw [hsame, hbutton] at hj
        by_cases hjk : j = k
        · subst hjk
          cases hself.symm.trans hx
          exact hcont.told_iff.mpr (hc.told j w hw hj)
        · exact hc.told j x (hothers j x hx hjk) hj
      · obtain ⟨j, x, hj, hx, hno⟩ := hc.calling (hbutton ▸ hon)
        by_cases hjk : j = k
        · subst hjk
          cases hw.symm.trans hx
          exact ⟨j, w', hsame ▸ hj, hself, fun ht => hno (hcont.told_iff.mp ht)⟩
        · refine ⟨j, x, hsame ▸ hj, ?_, hno⟩
          rw [hset, List.getElem?_set_ne (Ne.symm hjk)]
          exact hx
    | ends hk _ hoff _ =>
      refine ⟨fun j x hx _ => ?_, fun hon => absurd (hoff.symm.trans hon) Bool.false_ne_true⟩
      by_cases hjk : j = k
      · subst hjk
        cases hself.symm.trans hx
        exact Told.asyncStop w
      · exact hc.told j x (hothers j x hx hjk) fun hj => absurd (Option.some.inj (hj.symm.trans hk)) hjk
    | begins target hk hon _ =>
      refine ⟨fun j x hx hj => ?_, fun _ => ⟨k, _, hsame ▸ hk, hself, not_told_asyncStart _⟩⟩
      by_cases hjk : j = k
      · subst hjk
        exact absurd ((hj (hsame ▸ hk)).symm.trans hon) Bool.false_ne_true
      · exact hc.told j x (hothers j x hx hjk) fun hj' => absurd (Option.some.inj (hj'.symm.trans hk)) hjk

/-- **Every run**: nobody records but the worker of the call, as long as the activity is started
while the button is off; or somebody is lost. -/
theorem known_exec {as : List PhoneAction} (h : exec v d as = some (s, o)) : s.Sound ∧
    (Lts.Along (step v d) StartsIdle create as → s.Clean) ∧
    (¬ Lts.Along (step v d) StartsIdle create as → ∃ k, s.Lost k) := by
  refine Lts.split_rule (step v d) StartsIdle Sound Clean (fun s => ∃ k, s.Lost k) ?_ ?_ ?_ ?_ ?_ h
  · exact fun _ _ _ _ hs hstep => sound_step hs hstep
  · exact fun _ _ _ _ hs hc hstep => clean_step hs hc hstep
  · rintro s a s' o hs ⟨k, hk⟩ hstep
    exact ⟨k, lost_step hs hk hstep⟩
  · exact ⟨fun k hk => (nomatch hk), fun hb => (nomatch hb), fun _ k w hk => (nomatch hk), rfl⟩
  · exact ⟨fun k w hw => (nomatch hw), fun hb => (nomatch hb)⟩

/-! ### After the button has been clicked off -/

theorem reading_le (self : Phone) (k t : ℕ) : self.reading k t ≤ 1 := by
  unfold reading
  split <;> omega

/-- **A step that is no click**, where all have been told to end: a thread reads at most what it
was about to. -/
theorem told_step (ht : ∀ w ∈ s.workers, w.Told) (hc : ∀ host port, a ≠ .click host port)
    (h : s.step v d a = some (s', o)) :
    (∀ w ∈ s'.workers, w.Told) ∧ ∀ k t, o.count (.read k t) + s'.reading k t ≤ s.reading k t := by
  by_cases ha : a = .onStart
  · subst ha
    cases h
    refine ⟨fun w hw => ?_, fun k t => ?_⟩
    · rcases List.mem_append.mp hw with hw | hw
      · exact ht w hw
      · rw [List.mem_singleton.mp hw]
        exact fun hne => absurd rfl hne
    · rw [List.count_nil, Nat.zero_add, reading, reading, onStart]
      rcases Nat.lt_trichotomy k s.workers.length with hlt | rfl | hgt
      · rw [List.getElem?_append_left hlt]
      · simp [JavaWorker.create]
      · rw [List.getElem?_eq_none (by rw [List.length_append, List.length_singleton]; omega)]
        exact Nat.zero_le _
  obtain ⟨k, w, w', hw, hset, -, hcont, -, -, hreads⟩ := thread_changes ha hc h
  have htold := ht w (List.mem_iff_getElem?.mpr ⟨k, hw⟩)
  refine ⟨fun x hx => ?_, hreads htold⟩
  rw [hset] at hx
  rcases List.mem_or_eq_of_mem_set hx with hx | rfl
  · exact ht x hx
  · exact hcont.told_iff.mpr htold

/-- How far a thread in the loop is from reading, where so many bytes wait. -/
def toRead (pcmBuffer_mic : ℕ) : RunPc → ℕ
  | .frames => pcmBuffer_mic + 2
  | .test => 1
  | _ => 0

/-- All goes well, and nothing is read. -/
def calm : RunEnv := ⟨true, true, 0, [], 0⟩

/-- A thread that records comes nearer to reading. -/
theorem runStep_calm (v : Version) (statics : PhoneStatics) {w : JavaWorker} (k t : ℕ) {pc : RunPc}
    (hkeep : w.keepWorking = true) (hsends : w.Sends) (hloops : pc.looping = true) (hpc : pc ≠ .read) :
    ∃ w' statics' pc' o, w.runStep v statics k t pc calm = some (w', statics', pc', o) ∧
      toRead w'.pcmBuffer_mic pc' < toRead w.pcmBuffer_mic pc := by
  cases pc with
  | test => exact ⟨w, statics, .read, [], by rw [runStep, hkeep]; rfl, Nat.zero_lt_one⟩
  | read => exact absurd rfl hpc
  | frames =>
    by_cases hshort : w.pcmBuffer_mic < tenMsBufferLength
    · refine ⟨w, statics, .test, [], by rw [runStep, if_pos hshort], ?_⟩
      simp only [toRead]
      omega
    · obtain ⟨socket, hsocket⟩ := Option.ne_none_iff_exists'.mp hsends.socket
      obtain ⟨p, hp, -⟩ := withPayload_ok v calm.upTime .AudioMessage statics.audioSN calm.encodedOpusBuffer (by decide)
      have hsend : w.send calm = .ok socket := by
        rw [JavaWorker.send, hsocket]
        exact AndroidWorker.send_ok hsends.port socket
      have hpos := tenMsBufferLength_pos
      have hless : w.pcmBuffer_mic - tenMsBufferLength + 2 < w.pcmBuffer_mic + 2 := by omega
      refine ⟨{ w with pcmBuffer_mic := w.pcmBuffer_mic - tenMsBufferLength },
        { statics with audioSN := statics.audioSN + 1 },
        .frames, [.sent socket w.target p], ?_, hless⟩
      simp only [runStep, if_neg hshort, hp, hsend]
  | _ => cases hloops

/-- **Whoever records reads** the microphone again, with nobody else taking a step. -/
theorem records_reads {k t : ℕ} {w : JavaWorker} (hw : s.workers[k]? = some w) (hr : w.Records t) :
    ∃ cs s' o, Lts.exec (step v d) s cs = some (s', o) ∧
      (∀ c ∈ cs, ∃ env, env.ok = true ∧ env.resolved = true ∧ c = .run k t env) ∧ .read k t ∈ o := by
  have hreach := Lts.reach_rule (step v d) (fun s => ∃ w, s.workers[k]? = some w ∧ w.Records t)
    (fun s => ∃ w, s.workers[k]? = some w ∧ w.runs[t]? = some .read) (fun a => a = .run k t calm)
    (fun s => (s.workers[k]?.bind fun w => (w.runs[t]?).map (toRead w.pcmBuffer_mic)).getD 0) ?_ ⟨w, hw, hr⟩
  · obtain ⟨cs, s₁, o₁, hexec, -, ⟨w₁, hw₁, ht₁⟩, hcs, -⟩ := hreach
    have hstep : s₁.step v d (.run k t calm) =
        some ({ s₁.setWorker k { w₁ with runs := w₁.runs.set t .test } with statics := s₁.statics }, [.read k t]) := by
      simp [step, run, hw₁, ht₁, runStep, calm]
    refine ⟨cs ++ [.run k t calm], _, _, (Lts.exec_concat _).mpr ⟨_, _, _, hexec, hstep, rfl⟩, fun c hc => ?_,
      List.mem_append_right _ (List.mem_singleton.mpr rfl)⟩
    refine ⟨calm, rfl, rfl, ?_⟩
    rcases List.mem_append.mp hc with hc | hc
    · exact hcs c hc
    · exact List.mem_singleton.mp hc
  · rintro s ⟨w, hw, hr⟩ hno
    obtain ⟨pc, ht, hloops⟩ := hr.loops
    have hpc : pc ≠ .read := by
      rintro rfl
      exact hno ⟨w, hw, ht⟩
    obtain ⟨w', statics, pc', o, hstep, hless⟩ := runStep_calm v s.statics k t hr.keepWorking hr.sends hloops hpc
    have htlt : t < w.runs.length := (List.getElem?_eq_some_iff.mp ht).1
    have hself : (s.workers.set k { w' with runs := w'.runs.set t pc' })[k]? =
        some { w' with runs := w'.runs.set t pc' } := List.getElem?_set_self (List.getElem?_eq_some_iff.mp hw).1
    have hgo : (w'.runs.set t pc')[t]? = some pc' := List.getElem?_set_self ((runStep_ran hstep).runs.symm ▸ htlt)
    refine ⟨.run k t calm, { s.setWorker k { w' with runs := w'.runs.set t pc' } with statics }, o, rfl, ?_,
      ⟨_, hself, (continues_runStep hstep ht).records t hr⟩, ?_⟩
    · simp [step, run, hw, ht, hstep]
    · rw [setWorker, hself, hw, Option.bind_some, Option.bind_some, hgo, ht]
      exact hless

/-- **Every run on** from where a worker is lost. -/
theorem lost_exec {k : ℕ} {w : JavaWorker} (hs : s.Sound) (hne : s.worker ≠ some k) (hw : s.workers[k]? = some w)
    {as : List PhoneAction} (h : Lts.exec (step v d) s as = some (s', o)) :
    s'.Sound ∧ s'.worker ≠ some k ∧ ∃ w', s'.workers[k]? = some w' ∧ w.Continues w' := by
  refine Lts.invariant_rule (step v d)
    (fun s' => s'.Sound ∧ s'.worker ≠ some k ∧ ∃ w', s'.workers[k]? = some w' ∧ w.Continues w')
    ⟨hs, hne, w, hw, rfl, rfl, fun _ => id⟩ ?_ h
  rintro s₁ a s₂ o₁ ⟨hs₁, hne₁, w₁, hw₁, hcont₁⟩ hstep
  obtain ⟨hne₂, w₂, hw₂, hcont₂⟩ := lost_continues hs₁ hne₁ hw₁ hstep
  exact ⟨sound_step hs₁ hstep, hne₂, w₂, hw₂, hcont₁.trans hcont₂⟩

end

end Phone

open Phone

/-- **When a phone can be hung up.** In every run that leaves the button off: all threads of all
workers have been told to end exactly when the activity was only ever started with the button
off. Then no thread reads the microphone more than once again before the button is clicked. Any
other worker is never told, whatever happens; and once a thread of it is in the loop that records,
alone, with a port and a socket to send to, it can from every state on read the microphone again,
without anybody doing anything. -/
theorem phone_hang_up_iff {v : Version} {d : Char → Bool} {as : List PhoneAction} {s : Phone} {o : List PhoneObs}
    (h : Phone.exec v d as = some (s, o)) (hoff : s.button_connect = false) :
    ((∀ w ∈ s.workers, w.Told) ↔ Lts.Along (Phone.step v d) Phone.StartsIdle Phone.create as) ∧
    ((∀ w ∈ s.workers, w.Told) → ∀ bs s' o', Lts.exec (Phone.step v d) s bs = some (s', o') →
      (∀ b ∈ bs, ∀ host port, b ≠ .click host port) → ∀ k t, o'.count (.read k t) ≤ 1) ∧
    ∀ (k : ℕ) w, s.workers[k]? = some w → ¬ w.Told → ∀ bs s' o', Lts.exec (Phone.step v d) s bs = some (s', o') →
      ∃ w', s'.workers[k]? = some w' ∧ ¬ w'.Told ∧ ∀ t, w'.Records t →
        ∀ cs s₁ o₁, Lts.exec (Phone.step v d) s' cs = some (s₁, o₁) →
          ∃ ds s₂ o₂, Lts.exec (Phone.step v d) s₁ ds = some (s₂, o₂) ∧
            (∀ b ∈ ds, ∃ env, env.ok = true ∧ env.resolved = true ∧ b = .run k t env) ∧ .read k t ∈ o₂ := by
  obtain ⟨hs, hclean, hlost⟩ := known_exec h
  have htold : Lts.Along (Phone.step v d) Phone.StartsIdle Phone.create as → ∀ w ∈ s.workers, w.Told := by
    intro hC w hw
    obtain ⟨k, hk⟩ := List.mem_iff_getElem?.mp hw
    exact (hclean hC).told k w hk fun _ => hoff
  refine ⟨⟨fun hall => ?_, htold⟩, fun hall bs s' o' hexec hbs k t => ?_, fun k w hw hno bs s' o' hexec => ?_⟩
  · by_contra hC
    obtain ⟨k, -, w, hw, hno⟩ := hlost hC
    exact hno (hall w (List.mem_iff_getElem?.mpr ⟨k, hw⟩))
  · have hrun := Lts.history_rule (Phone.step v d) (fun bs s' o' => (∀ b ∈ bs, ∀ host port, b ≠ .click host port) →
      (∀ w ∈ s'.workers, w.Told) ∧ o'.count (.read k t) + s'.reading k t ≤ s.reading k t)
      (fun _ => ⟨hall, (Nat.zero_add _).le⟩) ?_ hexec hbs
    · have hle := s.reading_le k t
      omega
    · intro bs s₁ o₁ b s₂ o₂ ih hstep hbs
      obtain ⟨hall₁, hcount₁⟩ := ih fun b hb => hbs b (List.mem_append_left _ hb)
      obtain ⟨hall₂, hcount₂⟩ := told_step hall₁ (hbs b (by simp)) hstep
      refine ⟨hall₂, ?_⟩
      have hstep := hcount₂ k t
      rw [List.count_append]
      omega
  · have hne : s.worker ≠ some k := fun hk => hno (hs.hungUp hoff k w hk hw)
    obtain ⟨hs', hne', w', hw', hcont⟩ := lost_exec hs hne hw hexec
    refine ⟨w', hw', fun ht => hno (hcont.told_iff.mp ht), fun t hr cs s₁ o₁ hexec₁ => ?_⟩
    obtain ⟨-, -, w₁, hw₁, hcont₁⟩ := lost_exec hs' hne' hw' hexec₁
    exact records_reads hw₁ (hcont₁.records t hr)

/-- A click on the button, with a server that is taken. -/
def sampleClick : PhoneAction := .click "1.1.1.1" (some 1222)

/-- The activity is started again in a call: the click that ends the call ends nothing. -/
theorem phone_hang_up_iff_dropped : ∃ s o,
    Phone.exec sampleVersion AndroidWorker.digit ([.onStart, sampleClick] ++ List.replicate 4 (.run 0 0 calm) ++
      [.onStart, sampleClick]) = some (s, o) ∧
    s.button_connect = false ∧ ∀ bs s' o', Lts.exec (Phone.step sampleVersion AndroidWorker.digit) s bs = some (s', o') →
      ∃ ds s₂ o₂, Lts.exec (Phone.step sampleVersion AndroidWorker.digit) s' ds = some (s₂, o₂) ∧
        (∀ b ∈ ds, ∃ env, env.ok = true ∧ env.resolved = true ∧ b = .run 0 0 env) ∧ .read 0 0 ∈ o₂ := by
  have hrun : Phone.exec sampleVersion AndroidWorker.digit ([.onStart, sampleClick] ++
    List.replicate 4 (.run 0 0 calm) ++ [.onStart, sampleClick]) = some (_, _) := rfl
  refine ⟨_, _, hrun, rfl, ?_⟩
  obtain ⟨w, hw, -, hgoes⟩ := (phone_hang_up_iff hrun rfl).2.2 0 _ rfl (by decide) [] _ _ rfl
  cases hw
  refine hgoes 0 ⟨rfl, ⟨by decide, by decide⟩, ⟨.test, rfl, rfl⟩, fun t pc ht hne => ?_⟩
  have hlt : t < 1 := (List.getElem?_eq_some_iff.mp ht).1
  omega

/-! ### The server's room -/

namespace Phone

/-- **What a phone sends**: logins and audio, as long as their headers say. -/
theorem sent_step {v : Version} {d : Char → Bool} {s s' : Phone} {a : PhoneAction} {o : List PhoneObs}
    (h : s.step v d a = some (s', o)) {socket : ℕ} {target : AndroidWorker} {p : NetPacket}
    (hp : .sent socket target p ∈ o) :
    LengthOK p.wholePacket ∧ (p.payloadType = .LoginRequest ∨ p.payloadType = .AudioMessage) := by
  cases a with
  | onStart =>
    cases h
    cases hp
  | click host port =>
    obtain ⟨s₁, -, he⟩ := Option.map_eq_some_iff.mp h
    cases he
    cases hp
  | downStream k t ok =>
    obtain ⟨s₁, -, he⟩ := Option.map_eq_some_iff.mp h
    cases he
    cases hp
  | run k t env =>
    simp only [step, run, Option.bind_eq_bind, Option.bind_eq_some_iff] at h
    obtain ⟨w, hw, pc, hpc, ⟨w', statics, pc', o'⟩, hstep, hs⟩ := h
    cases hs
    cases pc <;> simp only [JavaWorker.runStep] at hstep
    case login =>
      split at hstep <;> cases hstep
      · cases List.mem_singleton.mp hp
        exact ⟨(format_ofType ..).2, Or.inl (payloadType_ofType ..)⟩
      all_goals cases hp
    case frames =>
      split at hstep
      · cases hstep
        cases hp
      · split at hstep
        · cases hstep
        · rename_i hpacket
          split at hstep <;> cases hstep
          · cases List.mem_singleton.mp hp
            obtain ⟨-, hl, hbytes⟩ := makePacket_of_built hpacket [] v env.upTime
            refine ⟨lengthOK_of_bytes hbytes ?_, Or.inr (payloadType_of_bytes hbytes)⟩
            rw [UInt16.toNat_ofNat']
            omega
          all_goals cases hp
    case socket =>
      split at hstep <;> cases hstep <;> cases hp
    case read =>
      split at hstep <;> cases hstep <;> cases List.mem_singleton.mp hp
    case returned => cases hstep
    all_goals
      cases hstep
      cases hp

theorem sent_exec {v : Version} {d : Char → Bool} {as : List PhoneAction} {s : Phone} {o : List PhoneObs}
    (h : exec v d as = some (s, o)) {socket : ℕ} {target : AndroidWorker} {p : NetPacket}
    (hp : .sent socket target p ∈ o) :
    LengthOK p.wholePacket ∧ (p.payloadType = .LoginRequest ∨ p.payloadType = .AudioMessage) := by
  refine Lts.history_rule (step v d) (fun _ _ o => .sent socket target p ∈ o → _)
    (fun hnil => absurd hnil List.not_mem_nil) ?_ h hp
  intro as s o a s' o' ih hstep hmem
  exact (List.mem_append.mp hmem).elim ih (sent_step hstep)

end Phone

/-- An empty datagram changes nothing. -/
theorem RawUdpServer.roomOf_filter {E : Type*} [DecidableEq E] (cfg : ServerConfig) (rxs : List (Received E)) :
    RawUdpServer.roomOf cfg (rxs.filter fun rx => !rx.data.isEmpty) = RawUdpServer.roomOf cfg rxs := by
  induction rxs using List.reverseRecOn with
  | nil => rfl
  | append_singleton rxs rx ih =>
    have hall : RawUdpServer.roomOf cfg (rxs ++ [rx]) =
        (RawUdpServer.doReceive cfg (RawUdpServer.roomOf cfg rxs) rx).1 := Mealy.state_concat ..
    rw [hall, List.filter_append]
    cases hempty : rx.data.isEmpty with
    | true =>
      have hnil : rx.data.take RawUdpServer.max_length = [] := by
        rw [List.isEmpty_iff.mp hempty, List.take_nil]
      have hsame : RawUdpServer.doReceive cfg (RawUdpServer.roomOf cfg rxs) rx = (RawUdpServer.roomOf cfg rxs, []) :=
        Network.onReceive_nil cfg _ hnil
      rw [List.filter_cons_of_neg (by simp [hempty]), List.filter_nil, List.append_nil, ih, hsame]
    | false =>
      rw [List.filter_cons_of_pos (by simp [hempty]), List.filter_nil, ← ih]
      exact Mealy.state_concat ..

/-- Whoever has been received, and has never logged out, has a connection. -/
theorem RawUdpServer.mem_roomOf {E : Type*} [DecidableEq E] {cfg : ServerConfig} {e : E} {rxs : List (Received E)}
    (hone : ∃ rx ∈ rxs, rx.endpoint = e ∧ rx.data ≠ [])
    (hno : ∀ rx ∈ rxs, rx.endpoint = e →
      Received.isLogout cfg { rx with data := rx.data.take RawUdpServer.max_length } = false) :
    e ∈ (RawUdpServer.roomOf cfg rxs).endpoints := by
  set cut : Received E → Received E := fun rx => { rx with data := rx.data.take RawUdpServer.max_length } with hcut
  have hsome : ∀ {rx}, rx ∈ rxs.filter (fun rx => !rx.data.isEmpty) ↔ rx ∈ rxs ∧ rx.data ≠ [] := by
    intro rx
    rw [List.mem_filter]
    simp
  have hne : ∀ rx ∈ (rxs.filter fun rx => !rx.data.isEmpty).map cut, rx.data ≠ [] := by
    intro rx hrx
    obtain ⟨rx', hrx', rfl⟩ := List.mem_map.mp hrx
    exact fun hnil => (hsome.mp hrx').2 (by simpa [hcut, RawUdpServer.max_length] using hnil)
  rw [← RawUdpServer.roomOf_filter, RawUdpServer.roomOf_eq, (RawUdpSpec.roomAfter_spec cfg _ hne).2 e]
  obtain ⟨rx, hrx, he, hdata⟩ := hone
  cases hl : RawUdpSpec.lastFrom e ((rxs.filter fun rx => !rx.data.isEmpty).map cut) with
  | none =>
    have hnil := List.filter_eq_nil_iff.mp (List.getLast?_eq_none_iff.mp hl) (cut rx)
      (List.mem_map_of_mem (hsome.mpr ⟨hrx, hdata⟩))
    exact absurd (decide_eq_true he) hnil
  | some last =>
    obtain ⟨hmem, hlast⟩ := History.last_mem _ hl
    obtain ⟨rx', hrx', rfl⟩ := List.mem_map.mp hmem
    exact ⟨cut rx', hl, hno rx' (hsome.mp hrx').1 (by simpa using hlast)⟩

/-- What a phone has sent is no logout, cut off or not. -/
theorem Phone.not_logout {v : Version} {d : Char → Bool} {as : List PhoneAction} {s : Phone} {o : List PhoneObs}
    (h : exec v d as = some (s, o)) {socket : ℕ} {target : AndroidWorker} {p : NetPacket}
    (hp : .sent socket target p ∈ o) {E : Type*} (cfg : ServerConfig) {rx : Received E} (hdata : rx.data = p.header) :
    Received.isLogout cfg { rx with data := rx.data.take RawUdpServer.max_length } = false := by
  obtain ⟨hok, htype⟩ := sent_exec h hp
  -- what is cut is not accepted, and what is accepted is the packet sent
  have hpacket : Received.packet cfg { rx with data := rx.data.take RawUdpServer.max_length } =
      if p.header.length ≤ RawUdpServer.max_length then some p else none := by
    rw [Received.packet, hdata]
    exact makePacket_take_of_lengthOK hok (by decide) cfg.version rx.uptime
  rw [Received.isLogout, hpacket]
  by_cases hfit : p.header.length ≤ RawUdpServer.max_length
  · rw [if_pos hfit]
    apply decide_eq_false
    rcases htype with ht | ht <;> rw [ht] <;> decide
  · rw [if_neg hfit]

/-- In broadcast mode the audio of another endpoint is sent to a member once. -/
theorem RawUdpServer.filter_doReceive {E : Type*} [DecidableEq E] {cfg : ServerConfig} (hb : cfg.isEchoMode = false)
    {e : E} {rxs : List (Received E)} (he : e ∈ (RawUdpServer.roomOf cfg rxs).endpoints) {rx : Received E}
    {p : NetPacket} (hrx : rx.endpoint ≠ e) (hp : audioOf rx.data = some p) :
    (RawUdpServer.doReceive cfg (RawUdpServer.roomOf cfg rxs) rx).2.filter (·.1 = e) = [(e, p.header)] := by
  obtain ⟨hmake, haudio⟩ := audioOf_some_iff.mp hp
  set cut : Received E := { rx with data := rx.data.take RawUdpServer.max_length }
  have hpacket : cut.packet cfg = some p := by
    rw [← hmake]
    exact RawUdpConnection.makePacket_congr ..
  have hlen : p.wholePacket.length ≤ cut.data.length := (lengthOK_of_makePacket hpacket).2
  have hne : cut.data ≠ [] := by
    apply List.ne_nil_of_length_pos
    calc 0 < FixHeaderLength := by decide
      _ ≤ p.wholePacket.length := p.header_le
      _ ≤ cut.data.length := hlen
  exact RawUdpServer.filter_onReceive hb (RawUdpServer.distinct_roomOf cfg rxs) hne hpacket
    ((request_eq_media_iff p).mp (request_of_isAudio haudio)) he (Ne.symm hrx)

/-- **A phone stays in the room.** Whatever the phone does, and whatever becomes of the datagrams
it sends from a socket: once the server has received one, it has a connection for the endpoint,
and in broadcast mode it sends it every piece of audio of every other endpoint, once. -/
theorem phone_stays_member {v : Version} {d : Char → Bool} {as : List PhoneAction} {s : Phone} {o : List PhoneObs}
    (h : Phone.exec v d as = some (s, o)) (socket : ℕ) {E : Type*} [DecidableEq E] (cfg : ServerConfig) (e : E)
    {rxs : List (Received E)}
    (hfrom : ∀ rx ∈ rxs, rx.endpoint = e → ∃ target p, .sent socket target p ∈ o ∧ rx.data = p.header)
    (hone : ∃ rx ∈ rxs, rx.endpoint = e) :
    e ∈ (RawUdpServer.roomOf cfg rxs).endpoints ∧
    (cfg.isEchoMode = false → ∀ (rx : Received E) (p : NetPacket), rx.endpoint ≠ e → audioOf rx.data = some p →
      (RawUdpServer.doReceive cfg (RawUdpServer.roomOf cfg rxs) rx).2.filter (·.1 = e) = [(e, p.header)]) := by
  have hmember : e ∈ (RawUdpServer.roomOf cfg rxs).endpoints := by
    obtain ⟨rx₀, hrx₀, he₀⟩ := hone
    obtain ⟨_, p₀, -, hdata₀⟩ := hfrom rx₀ hrx₀ he₀
    have hne : rx₀.data ≠ [] := by
      rw [hdata₀]
      exact List.ne_nil_of_length_pos (Nat.lt_of_lt_of_le (by decide) p₀.header_le)
    refine RawUdpServer.mem_roomOf ⟨rx₀, hrx₀, he₀, hne⟩ fun rx hrx he => ?_
    obtain ⟨target, p, hp, hdata⟩ := hfrom rx hrx he
    exact Phone.not_logout h hp cfg hdata
  exact ⟨hmember, fun hb rx p hrx hp => RawUdpServer.filter_doReceive hb hmember hrx hp⟩

/-- The call is over, its login has come twice, and an empty datagram of another endpoint: what that
says is sent to the phone. -/
theorem phone_stays_member_hung_up : ∃ s o p q,
    Phone.exec sampleVersion AndroidWorker.digit [.onStart, sampleClick, .run 0 0 calm, .run 0 0 calm, sampleClick] =
      some (s, o) ∧
    (∀ w ∈ s.workers, w.Told) ∧ (∃ target, .sent 0 target p ∈ o) ∧
    withPayload sampleVersion 5 .AudioMessage 7 [0x68] = .ok q ∧
    (RawUdpServer.doReceive RawUdpSpec.sampleConfig (RawUdpServer.roomOf RawUdpSpec.sampleConfig
      [RawUdpSpec.sampleReceived 2 p.header, RawUdpSpec.sampleReceived 1 [], RawUdpSpec.sampleReceived 2 p.header])
      (RawUdpSpec.sampleReceived 1 q.header)).2.filter (·.1 = 2) = [(2, q.header)] := by
  have hrun : Phone.exec sampleVersion AndroidWorker.digit
    [.onStart, sampleClick, .run 0 0 calm, .run 0 0 calm, sampleClick] = some (_, _) := rfl
  obtain ⟨q, hq, hbytes⟩ := withPayload_ok sampleVersion 5 .AudioMessage 7 [0x68] (by decide)
  set p := ofType sampleVersion 0 .LoginRequest 0 with hp
  have hsent : PhoneObs.sent 0 ⟨some "1.1.1.1", 1222⟩ p ∈ [PhoneObs.sent 0 ⟨some "1.1.1.1", 1222⟩ p] :=
    List.mem_singleton_self _
  have haudio : q.isAudio = true := by
    rw [isAudio, payloadType_of_bytes hbytes]
    decide
  refine ⟨_, _, p, q, hrun, by decide, ⟨_, hsent⟩, hq, ?_⟩
  refine (phone_stays_member hrun 0 RawUdpSpec.sampleConfig 2 (fun rx hrx he => ⟨_, p, hsent, ?_⟩)
    ⟨_, List.mem_cons_self, rfl⟩).2 rfl (RawUdpSpec.sampleReceived 1 q.header) q (show 1 ≠ 2 by decide) ?_
  · simp only [List.mem_cons, List.not_mem_nil, or_false] at hrx
    obtain rfl | rfl | rfl := hrx
    · rfl
    · exact absurd he (show 1 ≠ 2 by decide)
    · rfl
  · have hok : LengthOK q.wholePacket := lengthOK_of_bytes hbytes rfl
    have hlen : q.wholePacket.length = FixHeaderLength + 1 := length_of_built hq
    have hfit : q.header.length ≤ RawUdpServer.max_length := hlen.trans_le (by decide)
    exact (audioOf_header hok).trans (if_pos ⟨hfit, haudio⟩)

end EasyVoiceCall
