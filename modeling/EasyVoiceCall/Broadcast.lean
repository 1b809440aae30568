/-
# A conversation over a network that keeps the order

The datagrams between an endpoint and the server, one way, are a link. Where each
link delivers in order and nothing twice, though it may lose what it likes, a
conversation is the hub of `Lib/Hub.lean`, for the audio packets in it
(`Conversation.Sim`): all endpoints hear the others, or in echo mode themselves, in one
order, the server's, and each speaker in the order it spoke (`ordered_broadcast`). Where
besides nothing is lost on the way to `r` or at its full jitter buffer, `r` hears all of it,
once, and plays it (`delivered_once`). And then, where one endpoint speaks to `r`, what it spoke
is played in order (`played_in_order`), which the program itself does not see to.

Key definitions: `Conversation.InOrder`, `Conversation.Keeps`, `Conversation.Sim`.
Key theorems: `Conversation.sim_step`, `ordered_broadcast`, `delivered_once`, `played_in_order`.
-/
import EasyVoiceCall.Conversation
import EasyVoiceCall.Lib.Hub

namespace EasyVoiceCall

open Buffer NetPacket

/-! ### Links -/

namespace Datagram

variable {E : Type*}

/-- The way the datagram goes. -/
def link : Datagram E → Bool × E
  | .toServer e _ => (true, e)
  | .toClient r _ => (false, r)

variable [DecidableEq E]

/-- The audio in a datagram from `e`. -/
def audioFrom (e : E) : Datagram E → Option NetPacket
  | .toServer e' data => if e' = e then audioOf data else none
  | .toClient _ _ => none

/-- The audio in a datagram for `r`. -/
def audioFor (r : E) : Datagram E → Option NetPacket
  | .toServer _ _ => none
  | .toClient r' data => if r' = r then audioOf data else none

theorem audioFrom_of_link {e : E} {m : Datagram E} (h : m.link ≠ (true, e)) : m.audioFrom e = none := by
  cases m with
  | toServer e' data => exact if_neg fun he => h (congrArg (Prod.mk true) he)
  | toClient r data => rfl

theorem audioFor_of_link {r : E} {m : Datagram E} (h : m.link ≠ (false, r)) : m.audioFor r = none := by
  cases m with
  | toServer e data => rfl
  | toClient r' data => exact if_neg fun he => h (congrArg (Prod.mk false) he)

end Datagram

/-! ### What the server sends on -/

namespace RawUdpServer

variable {E : Type*} [DecidableEq E]

/-- The server sends `r` the media of `e`: in echo mode back, whoever sent it, otherwise to
the others of the room. -/
def SendsTo (cfg : ServerConfig) (room : RawUdpRoom E) (e r : E) : Prop :=
  Hears cfg e r ∧ (cfg.isEchoMode = true ∨ r ∈ room.endpoints)

instance (cfg : ServerConfig) (room : RawUdpRoom E) (e : E) : DecidablePred (SendsTo cfg room e) := fun _ =>
  inferInstanceAs (Decidable (_ ∧ _))

/-- A datagram of media is sent once to each it is sent to. -/
theorem filter_onReceive_media {cfg : ServerConfig} {room : RawUdpRoom E} (hd : room.Distinct) {rx : Received E}
    {p : NetPacket} (hne : rx.data ≠ []) (hp : rx.packet cfg = some p) (hm : p.isMediaType = true) {r : E}
    (hr : SendsTo cfg room rx.endpoint r) : (onReceive cfg room rx).2.filter (·.1 = r) = [(r, p.header)] := by
  obtain ⟨hears, hin⟩ := hr
  unfold Hears at hears
  split at hears
  · rename_i hecho
    subst hears
    obtain ⟨hep, -⟩ := RawUdpRoom.connect_spec room rx
    have hreq : p.request = .media := (request_eq_media_iff p).mpr hm
    rw [onReceive_sends cfg room hne, hp]
    simp [replies, hreq, hecho, RawUdpConnection.send, hep]
  · rename_i hecho
    exact filter_onReceive (Bool.eq_false_iff.mpr hecho) hd hne hp hm (hin.resolve_left hecho) hears

end RawUdpServer

/-- The packets of a block whose encodings have at most `n` bytes. -/
theorem Uplink.length_vadSend {v : Version} {self self' : Uplink} {f : Frame} {sent : List NetPacket} {n : ℕ}
    (h : self.vadSend v f = some (self', sent)) (hopus : ∀ b ∈ f.opus, b.length ≤ n) (hcng : f.cng.length ≤ n) :
    ∀ p ∈ sent, p.header.length ≤ FixHeaderLength + n := by
  have hnext : ∀ {u : Uplink} {t payload}, payload.length ≤ n → u.sendNext v f.upTime t payload = some (self', sent) →
      ∀ p ∈ sent, p.header.length ≤ FixHeaderLength + n := by
    intro u t payload hlen hs p hp
    unfold Uplink.sendNext at hs
    dsimp only at hs
    split at hs
    · rename_i packet hok
      cases hs
      have hbuilt : packet.header.length = FixHeaderLength + payload.length := length_of_built hok
      rw [List.mem_singleton.mp hp, hbuilt]
      omega
    · cases hs
  unfold Uplink.vadSend at h
  split at h
  · cases h
  · dsimp only at h
    split at h
    · split at h
      · cases h
      · rename_i outData hout
        exact hnext (hopus outData hout) h
    · split at h
      · exact hnext hcng h
      · cases h
        exact fun p hp => absurd hp List.not_mem_nil

open Datagram

namespace Conversation

variable {E : Type*} [DecidableEq E] {D N : Type} {K : Type} [Field K] [LinearOrder K] [FloorRing K]

/-- Deliveries are of the first datagram of a link, and of no other again. -/
def InOrder (s : Conversation E D N) : ConversationAction E → Prop
  | .deliver i _ _ again =>
    again = false ∧ ∀ d ∈ s.inFlight[i]?, ∀ m ∈ s.inFlight.take i, m.link ≠ d.link
  | .worker _ _ => True
  | .fetch _ => True
  | .lose _ => True

instance (s : Conversation E D N) : ∀ a, Decidable (s.InOrder a)
  | .deliver _ _ _ _ => inferInstanceAs (Decidable (_ ∧ _))
  | .worker _ _ => inferInstanceAs (Decidable True)
  | .fetch _ => inferInstanceAs (Decidable True)
  | .lose _ => inferInstanceAs (Decidable True)

/-- The datagram is not lost to `r` where it arrives: in broadcast mode `r` is in the room when
the server gets audio of another, its client is up when it gets something, and its jitter buffer
is not full when it gets audio. -/
def Reaches (cfg : ServerConfig) (r : E) (s : Conversation E D N) : Datagram E → Prop
  | .toServer e data => (audioOf data).isSome = true → RawUdpServer.Hears cfg e r →
      RawUdpServer.SendsTo cfg s.room e r
  | .toClient r' data => r' = r → (s.parties r).worker.clientUp = true ∧
      ((audioOf data).isSome = true → (s.parties r).down.jitterBuffer_.length < JitterBuffer.capacity)

instance (cfg : ServerConfig) (r : E) (s : Conversation E D N) : ∀ d, Decidable (Reaches cfg r s d)
  | .toServer _ _ => inferInstanceAs (Decidable (_ → _ → _))
  | .toClient _ _ => inferInstanceAs (Decidable (_ → _))

/-- Nothing for `r` is lost: the encoders' blocks fit a datagram, and a datagram that is
delivered reaches it. -/
def Keeps (cfg : ServerConfig) (r : E) (s : Conversation E D N) : ConversationAction E → Prop
  | .worker _ (.audio f _) => (∀ b ∈ f.opus, b.length ≤ 1004) ∧ f.cng.length ≤ 1004
  | .worker _ _ => True
  | .fetch _ => True
  | .deliver i _ _ _ => ∀ d ∈ s.inFlight[i]?, Reaches cfg r s d
  | .lose _ => False

instance (cfg : ServerConfig) (r : E) (s : Conversation E D N) : ∀ a, Decidable (Keeps cfg r s a)
  | .worker _ (.audio _ _) => inferInstanceAs (Decidable (_ ∧ _))
  | .worker _ (.net _) => inferInstanceAs (Decidable True)
  | .worker _ .stop => inferInstanceAs (Decidable True)
  | .worker _ .timer => inferInstanceAs (Decidable True)
  | .worker _ .callback => inferInstanceAs (Decidable True)
  | .worker _ (.receive _ _ _) => inferInstanceAs (Decidable True)
  | .worker _ (.setMute _) => inferInstanceAs (Decidable True)
  | .fetch _ => inferInstanceAs (Decidable True)
  | .deliver _ _ _ _ => inferInstanceAs (Decidable (∀ _ ∈ _, _))
  | .lose _ => inferInstanceAs (Decidable False)

/-- The hub of a conversation's audio. -/
abbrev AudioHub (cfg : ServerConfig) (E : Type*) [DecidableEq E] := Hub E NetPacket (RawUdpServer.Hears cfg)

/-- A conversation and the hub of its audio. -/
structure Sim {cfg : ServerConfig} (s : Conversation E D N) (o : List (ConversationObs E)) (h : AudioHub cfg E) :
    Prop where
  distinct : s.room.Distinct
  spoken : ∀ e, h.spoken e = spokenBy e o
  up : ∀ e, s.inFlight.filterMap (audioFrom e) = h.up e
  down : ∀ r, s.inFlight.filterMap (audioFor r) = (h.down r).map (·.2)
  heard : ∀ r, heardBy r o = (h.heard r).map (·.2)

/-! ### Reading a history -/

theorem spokenBy_append (e : E) (a b : List (ConversationObs E)) :
    spokenBy e (a ++ b) = spokenBy e a ++ spokenBy e b := by
  simp [spokenBy, workerOf, Worker.sentOf]

theorem heardBy_append (r : E) (a b : List (ConversationObs E)) :
    heardBy r (a ++ b) = heardBy r a ++ heardBy r b := by
  simp [heardBy, downOf, Playout.appends]

theorem spokenBy_worker (e e' : E) (x : WorkerObs) :
    spokenBy e [.worker e' x] = if e' = e then (Worker.sentOf [x]).filter isAudio else [] := by
  unfold spokenBy workerOf
  split
  · rename_i he
    simp [he]
  · rename_i he
    simp [he, Worker.sentOf]

@[simp] theorem spokenBy_down (e r : E) (x : DownObs) : spokenBy e [.down r x] = [] := rfl

@[simp] theorem heardBy_worker (r e : E) (x : WorkerObs) : heardBy r [.worker e x] = [] := rfl

theorem heardBy_appended (r r' : E) (a : Appended) :
    heardBy r [.down r' (.appended a)] = if r' = r then [a.packet] else [] := by
  unfold heardBy downOf
  split
  · rename_i hr
    rw [hr]
    simp [Playout.appends]
  · rename_i hr
    simp [hr, Playout.appends]

@[simp] theorem heardBy_fetched (r r' : E) (f : Fetched) : heardBy r [.down r' (.fetched f)] = [] := by
  unfold heardBy downOf
  by_cases hr : r' = r <;> simp [hr, Playout.appends]

/-! ### Steps of the hub -/

namespace Sim

variable {cfg : ServerConfig} {s : Conversation E D N} {o : List (ConversationObs E)} {h : AudioHub cfg E}

/-- Programs as they may be. -/
theorem setParties (hs : Sim s o h) (parties : E → Party D N) : Sim ⟨s.room, parties, s.inFlight⟩ o h :=
  ⟨hs.distinct, hs.spoken, hs.up, hs.down, hs.heard⟩

/-- What is seen is neither speaking nor hearing. -/
theorem quiet (hs : Sim s o h) {o' : List (ConversationObs E)} (hsp : ∀ e, spokenBy e o' = [])
    (hh : ∀ r, heardBy r o' = []) : Sim s (o ++ o') h := by
  refine ⟨hs.distinct, fun e => ?_, hs.up, hs.down, fun r => ?_⟩
  · rw [spokenBy_append, hsp, List.append_nil]
    exact hs.spoken e
  · rw [heardBy_append, hh, List.append_nil]
    exact hs.heard r

/-- A datagram without audio comes or goes. -/
theorem flight (hs : Sim s o h) {inFlight : List (Datagram E)}
    (hup : ∀ e, inFlight.filterMap (audioFrom e) = s.inFlight.filterMap (audioFrom e))
    (hdown : ∀ r, inFlight.filterMap (audioFor r) = s.inFlight.filterMap (audioFor r)) :
    Sim ⟨s.room, s.parties, inFlight⟩ o h :=
  ⟨hs.distinct, hs.spoken, fun e => (hup e).trans (hs.up e), fun r => (hdown r).trans (hs.down r), hs.heard⟩

/-- An endpoint sends a packet: it speaks, and where the packet is too long, in vain. -/
theorem sendsPacket (hs : Sim s o h) (e : E) {p : NetPacket} (hp : LengthOK p.wholePacket) :
    ∃ h' : AudioHub cfg E,
      Sim ⟨s.room, s.parties, s.inFlight ++ [toServer e p.header]⟩ (o ++ [.worker e (.sent p)]) h' ∧
      ∀ e' r, (p.isAudio = true → p.header.length ≤ RawUdpServer.max_length) → h.Complete e' r →
        h'.Complete e' r := by
  have hspoken : ∀ e', spokenBy e' [.worker e (.sent p)] = if e = e' then [p].filter isAudio else [] :=
    fun e' => spokenBy_worker e' e (.sent p)
  have hdown : ∀ r, (s.inFlight ++ [toServer e p.header]).filterMap (audioFor r) =
      s.inFlight.filterMap (audioFor r) := by
    intro r
    rw [List.filterMap_append]
    exact List.append_nil _
  have hup : ∀ e', (s.inFlight ++ [toServer e p.header]).filterMap (audioFrom e') =
      h.up e' ++ (if e = e' then (audioOf p.header).toList else []) := by
    intro e'
    rw [List.filterMap_append, hs.up e']
    congr 1
    by_cases he : e = e'
    · rw [if_pos he]
      cases hd : audioOf p.header <;> simp [audioFrom, he, hd]
    · simp [audioFrom, he]
  rw [audioOf_header hp] at hup
  cases ha : p.isAudio
  · -- not audio
    refine ⟨h, ⟨hs.distinct, fun e' => ?_, fun e' => ?_, fun r => (hdown r).trans (hs.down r), fun r => ?_⟩,
      fun _ _ _ hc => hc⟩
    · rw [spokenBy_append, hspoken, hs.spoken e']
      simp [ha]
    · rw [hup e']
      simp [ha]
    · rw [heardBy_append, heardBy_worker, List.append_nil]
      exact hs.heard r
  have hspeak : ∀ e', (h.speak e p).spoken e' = spokenBy e' (o ++ [.worker e (.sent p)]) := by
    intro e'
    rw [spokenBy_append, hspoken, ← hs.spoken e']
    by_cases he : e = e'
    · subst he
      simp [Hub.speak, ha]
    · simp [Hub.speak, he, Ne.symm he]
  have hheard : ∀ r, heardBy r (o ++ [.worker e (.sent p)]) = (h.heard r).map (·.2) := by
    intro r
    rw [heardBy_append, heardBy_worker, List.append_nil]
    exact hs.heard r
  by_cases hfit : p.header.length ≤ RawUdpServer.max_length
  · refine ⟨h.speak e p, ⟨hs.distinct, hspeak, fun e' => ?_, fun r => (hdown r).trans (hs.down r), hheard⟩,
      fun e' r _ hc => hc.speak e p⟩
    rw [hup e']
    by_cases he : e = e'
    · subst he
      simp [Hub.speak, ha, hfit]
    · simp [Hub.speak, he, Ne.symm he]
  · have hsub : (h.up e).Sublist ((h.speak e p).up e) := by
      simp [Hub.speak]
    refine ⟨(h.speak e p).dropUp e (h.up e) hsub,
      ⟨hs.distinct, hspeak, fun e' => ?_, fun r => (hdown r).trans (hs.down r), hheard⟩,
      fun e' r hfit' => absurd (hfit' rfl) hfit⟩
    rw [hup e']
    by_cases he : e = e'
    · subst he
      simp [Hub.dropUp, hfit]
    · simp [Hub.dropUp, Hub.speak, he]

/-- A program sends what it sends. -/
theorem sends (hs : Sim s o h) (e : E) {o' : List WorkerObs} (hok : ∀ p ∈ Worker.sentOf o', LengthOK p.wholePacket) :
    ∃ h' : AudioHub cfg E,
      Sim ⟨s.room, s.parties, s.inFlight ++ datagrams e o'⟩ (o ++ o'.map (.worker e)) h' ∧
      ∀ e' r, (∀ p ∈ Worker.sentOf o', p.isAudio = true → p.header.length ≤ RawUdpServer.max_length) →
        h.Complete e' r → h'.Complete e' r := by
  induction o' generalizing s o h with
  | nil =>
    have hnone : datagrams e ([] : List WorkerObs) = [] := rfl
    rw [hnone, List.append_nil, List.map_nil, List.append_nil]
    exact ⟨h, hs, fun _ _ _ hc => hc⟩
  | cons x o' ih =>
    have hsplit : o ++ (x :: o').map (ConversationObs.worker e) =
        (o ++ [.worker e x]) ++ o'.map (.worker e) := by simp
    cases x with
    | toggled n =>
      have hnone : Worker.sentOf (.toggled n :: o') = Worker.sentOf o' := rfl
      have hquiet : Sim s (o ++ [.worker e (.toggled n)]) h := by
        refine hs.quiet (fun e' => ?_) fun r => heardBy_worker ..
        rw [spokenBy_worker]
        split <;> rfl
      obtain ⟨h', hs', hc'⟩ := ih hquiet fun p hp => hok p (hnone ▸ hp)
      rw [hsplit]
      exact ⟨h', hs', hc'⟩
    | sent p =>
      have hcons : Worker.sentOf (.sent p :: o') = p :: Worker.sentOf o' := rfl
      rw [hcons] at hok
      obtain ⟨h₁, hs₁, hc₁⟩ := hs.sendsPacket e (hok p List.mem_cons_self)
      obtain ⟨h₂, hs₂, hc₂⟩ := ih hs₁ fun q hq => hok q (List.mem_cons_of_mem _ hq)
      refine ⟨h₂, ?_, fun e' r hfit hc => ?_⟩
      · rw [hsplit]
        simpa [datagrams, hcons, RawUdpClientImpl.send] using hs₂
      · rw [hcons] at hfit
        exact hc₂ e' r (fun q hq => hfit q (List.mem_cons_of_mem _ hq)) (hc₁ e' r (hfit p List.mem_cons_self) hc)

/-- The audio the server sends `r` on a datagram. -/
theorem audioFor_doReceive (cfg : ServerConfig) {room : RawUdpRoom E} (hd : room.Distinct) (rx : Received E) (r : E) :
    ((RawUdpServer.doReceive cfg room rx).2.map fun x => toClient x.1 x.2).filterMap (audioFor r) =
      if RawUdpServer.SendsTo cfg room rx.endpoint r then (audioOf rx.data).toList else [] := by
  have hnil : (∀ x ∈ (RawUdpServer.doReceive cfg room rx).2, x.1 = r → audioOf x.2 = none) →
      ((RawUdpServer.doReceive cfg room rx).2.map fun x => toClient x.1 x.2).filterMap (audioFor r) = [] := by
    intro h
    rw [List.filterMap_map, List.filterMap_eq_nil_iff]
    intro x hx
    show audioFor r (toClient x.1 x.2) = none
    rw [audioFor]
    split
    · rename_i hr
      exact h x hx hr
    · rfl
  rcases hdata : audioOf rx.data with _ | p
  · rw [hnil]
    · simp
    · intro x hx hr
      cases hp : audioOf x.2 with
      | none => rfl
      | some q =>
        have hsome := (RawUdpServer.audio_doReceive hd hx hp).1
        rw [hdata] at hsome
        cases hsome
  by_cases hr : RawUdpServer.SendsTo cfg room rx.endpoint r
  · obtain ⟨hmake, ha⟩ := audioOf_some_iff.mp hdata
    set cut : Received E := { rx with data := rx.data.take RawUdpServer.max_length } with hcut
    have hpacket : cut.packet cfg = some p := by
      rw [← hmake]
      exact RawUdpConnection.makePacket_congr ..
    obtain ⟨hok, hlen⟩ := lengthOK_of_makePacket hmake
    have hne : cut.data ≠ [] := by
      intro hnil
      have hlen' : p.wholePacket.length ≤ cut.data.length := hlen
      rw [hnil] at hlen'
      have := p.header_le
      rw [FixHeaderLength_eq] at this
      simp only [List.length_nil] at hlen'
      omega
    have hmedia : p.isMediaType = true := (request_eq_media_iff p).mp (request_of_isAudio ha)
    have hone := RawUdpServer.filter_onReceive_media hd hne hpacket hmedia hr
    have hfit : p.header.length ≤ RawUdpServer.max_length := by
      refine le_trans hlen ?_
      rw [List.length_take]
      exact min_le_left _ _
    have hsplit : ∀ l : List (E × Bytes), (l.map fun x => toClient x.1 x.2).filterMap (audioFor r) =
        (l.filter (·.1 = r)).filterMap fun x => audioOf x.2 := by
      intro l
      rw [List.filterMap_map, List.filterMap_filter]
      refine List.filterMap_congr fun x _ => ?_
      simp [audioFor]
    have hsends : (RawUdpServer.doReceive cfg room rx).2 = (RawUdpServer.onReceive cfg room cut).2 := rfl
    rw [if_pos hr, hsplit, hsends, hone, List.filterMap_cons, audioOf_header hok, if_pos ⟨hfit, ha⟩]
    rfl
  · rw [if_neg hr, hnil]
    rintro x hx rfl
    cases hp : audioOf x.2 with
    | none => rfl
    | some q =>
      obtain ⟨-, hears⟩ := RawUdpServer.audio_doReceive hd hx hp
      by_cases hecho : cfg.isEchoMode = true
      · exact absurd ⟨hears, Or.inl hecho⟩ hr
      · have hother : x.1 ≠ rx.endpoint := by rwa [RawUdpServer.Hears, if_neg hecho] at hears
        have hin := ((RawUdpServer.doReceive_endpoints hd).2 x hx).resolve_left hother
        exact absurd ⟨hears, Or.inr hin⟩ hr

/-- **The server** relays the first audio of a link. -/
theorem serves (hs : Sim s o h) {i : ℕ} {e : E} {data : Bytes}
    (hi : s.inFlight[i]? = some (.toServer e data)) (hfirst : ∀ m ∈ s.inFlight.take i, m.link ≠ (true, e))
    (env : Delivery) :
    ∃ h' : AudioHub cfg E,
      Sim (({ s with inFlight := s.inFlight.eraseIdx i } : Conversation E D N).onServer cfg e data env) o h' ∧
      ∀ e' r, ((audioOf data).isSome = true → RawUdpServer.Hears cfg e r → RawUdpServer.SendsTo cfg s.room e r) →
        RawUdpServer.Hears cfg e' r → h.Complete e' r → h'.Complete e' r := by
  set rx : Received E := ⟨e, data, env.uptime, env.alloc⟩
  have hdistinct : (RawUdpServer.doReceive cfg s.room rx).1.Distinct :=
    RawUdpServer.distinct_onReceive cfg _ hs.distinct
  have hnone : ∀ e', ((RawUdpServer.doReceive cfg s.room rx).2.map fun x => toClient x.1 x.2).filterMap
      (audioFrom e') = [] := by
    intro e'
    rw [List.filterMap_map, List.filterMap_eq_nil_iff]
    exact fun _ _ => rfl
  have hup : ∀ e', (s.inFlight.eraseIdx i ++
      (RawUdpServer.doReceive cfg s.room rx).2.map fun x => toClient x.1 x.2).filterMap (audioFrom e') =
        (s.inFlight.eraseIdx i).filterMap (audioFrom e') := by
    intro e'
    rw [List.filterMap_append, hnone, List.append_nil]
  have hdown : ∀ r, (s.inFlight.eraseIdx i ++
      (RawUdpServer.doReceive cfg s.room rx).2.map fun x => toClient x.1 x.2).filterMap (audioFor r) =
        (h.down r).map (·.2) ++ if RawUdpServer.SendsTo cfg s.room e r then (audioOf data).toList else [] := by
    intro r
    rw [List.filterMap_append, filterMap_eraseIdx_of_none _ hi rfl, hs.down r, audioFor_doReceive cfg hs.distinct]
  rcases hdata : audioOf data with _ | p
  · refine ⟨h, ⟨hdistinct, hs.spoken, fun e' => ?_, fun r => ?_, hs.heard⟩, fun _ _ _ _ hc => hc⟩
    · refine (hup e').trans ?_
      rw [filterMap_eraseIdx_of_none _ hi, hs.up e']
      simp [audioFrom, hdata]
    · refine (hdown r).trans ?_
      simp [hdata]
  have hhead : h.up e = p :: (s.inFlight.eraseIdx i).filterMap (audioFrom e) := by
    rw [← hs.up e]
    refine filterMap_eraseIdx_of_first _ hi (by simp [audioFrom, hdata]) fun j hj m hm => ?_
    exact audioFrom_of_link (hfirst m (List.mem_of_getElem? ((List.getElem?_take_of_lt hj).trans hm)))
  refine ⟨h.relay e p _ hhead (RawUdpServer.SendsTo cfg s.room e) fun r hr => hr.1,
    ⟨hdistinct, hs.spoken, fun e' => ?_, fun r => ?_, hs.heard⟩, fun e' r hin hears hc => ?_⟩
  · refine (hup e').trans ?_
    by_cases he : e' = e
    · subst he
      simp [Hub.relay]
    · rw [filterMap_eraseIdx_of_none _ hi (by simp [audioFrom, Ne.symm he]), hs.up e']
      simp [Hub.relay, he]
  · refine (hdown r).trans ?_
    show _ = (if RawUdpServer.SendsTo cfg s.room e r then h.down r ++ [(e, p)] else h.down r).map (·.2)
    split <;> simp [hdata]
  · refine hc.relay hhead fun he => ?_
    subst he
    exact hin rfl hears

/-- The first audio of a link, at a client: it is heard, or where the client is not up,
lost. -/
theorem firstDown (hs : Sim s o h) {i : ℕ} {r : E} {data : Bytes} {p : NetPacket}
    (hi : s.inFlight[i]? = some (.toClient r data)) (hfirst : ∀ m ∈ s.inFlight.take i, m.link ≠ (false, r))
    (hp : audioOf data = some p) :
    ∃ x rest, h.down r = x :: rest ∧ x.2 = p ∧ (s.inFlight.eraseIdx i).filterMap (audioFor r) = rest.map (·.2) := by
  have hhead : (h.down r).map (·.2) = p :: (s.inFlight.eraseIdx i).filterMap (audioFor r) := by
    rw [← hs.down r]
    refine filterMap_eraseIdx_of_first _ hi (by simp [audioFor, hp]) fun j hj m hm => ?_
    exact audioFor_of_link (hfirst m (List.mem_of_getElem? ((List.getElem?_take_of_lt hj).trans hm)))
  obtain ⟨x, rest, hdown, hx, hrest⟩ := List.map_eq_cons_iff.mp hhead
  exact ⟨x, rest, hdown, hx, hrest.symm⟩

/-- **The client**, on the first datagram of its link. -/
theorem client (hs : Sim s o h) {dec : Decoders D N} {v : E → Version} {i : ℕ} {r : E} {data : Bytes}
    (hi : s.inFlight[i]? = some (.toClient r data)) (hfirst : ∀ m ∈ s.inFlight.take i, m.link ≠ (false, r))
    (env : Delivery) (beyond : PcmSegment) {s' : Conversation E D N} {o' : List (ConversationObs E)}
    (hstep : ({ s with inFlight := s.inFlight.eraseIdx i } : Conversation E D N).onClient dec v r data env beyond =
      (s', o')) :
    ∃ h' : AudioHub cfg E, Sim s' (o ++ o') h' ∧
      ∀ e r', (r = r' → (s.parties r).worker.clientUp = true) → h.Complete e r' → h'.Complete e r' := by
  have hup : ∀ e, (s.inFlight.eraseIdx i).filterMap (audioFrom e) = s.inFlight.filterMap (audioFrom e) :=
    fun e => filterMap_eraseIdx_of_none _ hi rfl
  have hother : ∀ r', r' ≠ r →
      (s.inFlight.eraseIdx i).filterMap (audioFor r') = s.inFlight.filterMap (audioFor r') :=
    fun r' hr => filterMap_eraseIdx_of_none _ hi (by simp [audioFor, Ne.symm hr])
  have hcases := onClient_cases dec v { s with inFlight := s.inFlight.eraseIdx i } r data env beyond
  rw [hstep] at hcases
  cases hcases with
  | ignored hno =>
    rw [List.append_nil]
    rcases hdata : audioOf data with _ | p
    · refine ⟨h, hs.flight hup fun r' => ?_, fun _ _ _ hc => hc⟩
      exact filterMap_eraseIdx_of_none _ hi (by simp [audioFor, hdata])
    · obtain ⟨x, rest, hdown, -, hrest⟩ := hs.firstDown hi hfirst hdata
      have hsub : rest.Sublist (h.down r) := by
        rw [hdown]
        exact List.sublist_cons_self x rest
      refine ⟨h.dropDown r rest hsub, ⟨hs.distinct, hs.spoken, fun e => (hup e).trans (hs.up e), fun r' => ?_,
        hs.heard⟩, fun e r' hclient hc => ?_⟩
      · by_cases hr : r' = r
        · subst hr
          simpa [Hub.dropDown] using hrest
        · refine (hother r' hr).trans ((hs.down r').trans ?_)
          simp [Hub.dropDown, hr]
      · by_cases hr : r' = r
        · have hnotUp : (s.parties r).worker.clientUp = false := hno p hdata
          rw [hclient hr.symm] at hnotUp
          cases hnotUp
        · unfold Hub.Complete Hub.reaching Hub.dropDown at *
          simpa [hr] using hc
  | answered worker o' hno hframe ho =>
    have hflight : Sim ({ s with inFlight := s.inFlight.eraseIdx i } : Conversation E D N) o h :=
      hs.flight hup fun r' => filterMap_eraseIdx_of_none _ hi (by simp [audioFor, hno])
    have hquiet : ∀ p ∈ Worker.sentOf o', LengthOK p.wholePacket ∧ p.isAudio = false := by
      intro p hp
      rcases ho with ho | ho <;> rw [ho] at hp
      · cases hp
      · rw [List.mem_singleton.mp hp]
        refine ⟨(format_ofType ..).2, ?_⟩
        rw [← Bool.not_eq_true, isAudio_ofType]
        decide
    obtain ⟨h', hs', hc'⟩ := hflight.sends r fun p hp => (hquiet p hp).1
    refine ⟨h', hs'.setParties _, fun e r' _ hc => hc' e r' (fun p hp ha => ?_) hc⟩
    rw [(hquiet p hp).2] at ha
    cases ha
  | heard p hp hclient =>
    obtain ⟨x, rest, hdown, hx, hrest⟩ := hs.firstDown hi hfirst hp
    refine ⟨h.hear r x rest hdown, ⟨hs.distinct, fun e => ?_, fun e => (hup e).trans (hs.up e), fun r' => ?_,
      fun r' => ?_⟩, fun e r' _ hc => hc.hear hdown⟩
    · rw [spokenBy_append, spokenBy_down, List.append_nil]
      exact hs.spoken e
    · by_cases hr : r' = r
      · subst hr
        refine hrest.trans ?_
        simp [Hub.hear]
      · refine (hother r' hr).trans ((hs.down r').trans ?_)
        simp [Hub.hear, hr]
    · rw [heardBy_append, heardBy_appended, hs.heard r']
      have hpacket : ((s.parties r).down.append dec p beyond).2.packet = p := rfl
      by_cases hr : r' = r
      · subst hr
        simp only [↓reduceIte, Hub.hear, Function.update_self, List.map_append, List.map_cons, List.map_nil]
        rw [hx, ← hpacket]
        rfl
      · simp [Hub.hear, hr, Ne.symm hr]

/-- **The network** loses a datagram. -/
theorem loses (hs : Sim s o h) (i : ℕ) :
    ∃ h' : AudioHub cfg E, Sim ⟨s.room, s.parties, s.inFlight.eraseIdx i⟩ o h' := by
  rcases hi : s.inFlight[i]? with _ | d
  · rw [List.eraseIdx_of_length_le (List.getElem?_eq_none_iff.mp hi)]
    exact ⟨h, hs.setParties _⟩
  cases d with
  | toServer e data =>
    have hsub : ((s.inFlight.eraseIdx i).filterMap (audioFrom e)).Sublist (h.up e) := by
      rw [← hs.up e]
      exact filterMap_eraseIdx_sublist _ _ _
    refine ⟨h.dropUp e _ hsub, hs.distinct, hs.spoken, fun e' => ?_, fun r => ?_, hs.heard⟩
    · by_cases he : e' = e
      · subst he
        simp [Hub.dropUp]
      · refine (filterMap_eraseIdx_of_none _ hi (by simp [audioFrom, Ne.symm he])).trans ((hs.up e').trans ?_)
        simp [Hub.dropUp, he]
    · exact (filterMap_eraseIdx_of_none _ hi rfl).trans (hs.down r)
  | toClient r data =>
    have hsub : ((s.inFlight.eraseIdx i).filterMap (audioFor r)).Sublist ((h.down r).map (·.2)) := by
      rw [← hs.down r]
      exact filterMap_eraseIdx_sublist _ _ _
    obtain ⟨rest, hrest, hmap⟩ := List.sublist_map_iff.mp hsub
    refine ⟨h.dropDown r rest hrest, hs.distinct, hs.spoken, fun e => ?_, fun r' => ?_, hs.heard⟩
    · exact (filterMap_eraseIdx_of_none _ hi rfl).trans (hs.up e)
    · by_cases hr : r' = r
      · subst hr
        simpa [Hub.dropDown] using hmap
      · refine (filterMap_eraseIdx_of_none _ hi (by simp [audioFor, Ne.symm hr])).trans ((hs.down r').trans ?_)
        simp [Hub.dropDown, hr]

end Sim

/-! ### Runs -/

section

variable {cfg : ServerConfig} {dec : Decoders D N} {c : FadeCurve K} {v : E → Version}

/-- **One step**, in order. -/
theorem sim_step {s s' : Conversation E D N} {o o' : List (ConversationObs E)}
    {h : AudioHub cfg E} (hs : Sim s o h) {a : ConversationAction E} (hin : s.InOrder a)
    (hstep : s.step cfg dec c v a = some (s', o')) :
    ∃ h' : AudioHub cfg E, Sim s' (o ++ o') h' ∧
      ∀ e r, Keeps cfg r s a → RawUdpServer.Hears cfg e r → h.Complete e r → h'.Complete e r := by
  cases a with
  | worker e a =>
    simp only [step] at hstep
    split at hstep
    · cases hstep
    · split at hstep
      · cases hstep
      · rename_i worker ow hw
        cases hstep
        have hsent := Worker.sent_step hw
        obtain ⟨h', hs', hc'⟩ := hs.sends e fun p hp => (hsent p hp).1
        refine ⟨h', hs'.setParties _, fun e' r hk _ hc => hc' e' r (fun p hp ha => ?_) hc⟩
        obtain ⟨f, ok, u, packets, rfl, hu, hmem⟩ := (hsent p hp).2 ha
        have hlen := Uplink.length_vadSend hu hk.1 hk.2 p hmem
        exact hlen
  | fetch e =>
    simp only [step] at hstep
    split at hstep
    · cases hstep
    · cases hstep
      refine ⟨h, Sim.setParties (hs.quiet (fun e' => ?_) fun r => ?_) _, fun _ _ _ _ hc => hc⟩
      · exact spokenBy_down ..
      · exact heardBy_fetched ..
  | deliver i env beyond again =>
    obtain ⟨rfl, hfirst⟩ := hin
    simp only [step, Bool.false_eq_true, ↓reduceIte] at hstep
    split at hstep
    · cases hstep
    · rename_i e data hi
      cases hstep
      obtain ⟨h', hs', hc'⟩ := hs.serves hi (hfirst _ hi) env
      rw [List.append_nil]
      exact ⟨h', hs', fun e' r hk hears hc => hc' e' r (hk _ hi) hears hc⟩
    · rename_i r data hi
      obtain ⟨h', hs', hc'⟩ := hs.client hi (hfirst _ hi) env beyond (Option.some.inj hstep)
      exact ⟨h', hs', fun e' r' hk _ hc => hc' e' r' (fun hr => by subst hr; exact (hk _ hi rfl).1) hc⟩
  | lose i =>
    simp only [step] at hstep
    split at hstep
    · cases hstep
      obtain ⟨h', hs'⟩ := hs.loses i
      rw [List.append_nil]
      exact ⟨h', hs', fun _ _ hk => absurd hk id⟩
    · cases hstep

theorem sim_start (needAec durationReporter : E → Bool) (d : D) (n : N) :
    Sim (start needAec durationReporter d n) [] (Hub.empty : AudioHub cfg E) :=
  ⟨fun x hx => absurd hx (PtrSet.not_mem_empty x), fun _ => rfl, fun _ => rfl, fun _ => rfl, fun _ => rfl⟩

end

/-! ### The serial numbers -/

/-- The other threads than the audio callback's leave its sending alone. -/
theorem uplink_of_step {v : Version} {w w' : Worker} {a : WorkerAction} {o : List WorkerObs}
    (h : w.step v a = some (w', o)) (ha : ∀ f ok, a ≠ .audio f ok) :
    w'.uplink.sn_sendingAudio_ = w.uplink.sn_sendingAudio_ := by
  cases a with
  | net env =>
    simp only [Worker.step] at h
    cases hn : w.net <;> simp only [Worker.netStep, hn] at h
    case heartbeat =>
      cases h
      unfold Worker.sendHeartbeat
      dsimp only
      split <;> rfl
    all_goals try split_ifs at h
    all_goals cases h <;> rfl
  | stop =>
    simp only [Worker.step] at h
    cases hs : w.stop <;> simp only [Worker.stopStep, hs] at h
    case joinNet =>
      split at h <;> cases h
      rfl
    all_goals try split_ifs at h
    all_goals cases h <;> rfl
  | timer =>
    simp only [Worker.step, Worker.timerStep] at h
    split at h <;> cases h <;> rfl
  | callback =>
    simp only [Worker.step, Worker.callbackStep] at h
    split at h <;> cases h
    rfl
  | audio f ok => exact absurd rfl (ha f ok)
  | receive type ok up =>
    simp only [Worker.step, Worker.receiveStep] at h
    split_ifs at h <;> cases h <;> rfl
  | setMute mute =>
    cases h
    rfl

/-- A worker's step sends one audio packet, with the next serial number, or none. -/
theorem audio_of_step {v : Version} {w w' : Worker} {a : WorkerAction} {o : List WorkerObs}
    (h : w.step v a = some (w', o)) :
    ((Worker.sentOf o).filter isAudio = [] ∧
      (w'.uplink.sn_sendingAudio_ = w.uplink.sn_sendingAudio_ ∨
        w'.uplink.sn_sendingAudio_ = w.uplink.sn_sendingAudio_ + 1)) ∨
    ∃ p, (Worker.sentOf o).filter isAudio = [p] ∧ p.serialNumber = w.uplink.sn_sendingAudio_ + 1 ∧
      w'.uplink.sn_sendingAudio_ = w.uplink.sn_sendingAudio_ + 1 := by
  by_cases ha : ∃ f ok, a = .audio f ok
  · obtain ⟨f, ok, rfl⟩ := ha
    simp only [Worker.step, Worker.audioStep] at h
    split at h
    · split at h
      · cases h
      · rename_i u packets hu
        cases h
        rcases Uplink.vadSend_sends hu with ⟨rfl, hsn⟩ | ⟨p, rfl, hsn, hp, -⟩
        · exact Or.inl ⟨rfl, Or.inl hsn⟩
        · by_cases haud : ok = true ∧ p.isAudio = true
          · refine Or.inr ⟨p, ?_, hp, hsn⟩
            simp [Worker.send, Worker.sentOf, haud.1, haud.2]
          · refine Or.inl ⟨?_, Or.inr hsn⟩
            cases ok
            · rfl
            · have hno : p.isAudio = false := by simpa using haud
              simp [Worker.send, Worker.sentOf, hno]
    · cases h
  · refine Or.inl ⟨List.filter_eq_nil_iff.mpr fun p hp hno => ?_, Or.inl (uplink_of_step h ?_)⟩
    · obtain ⟨f, ok, u, packets, he, -⟩ := (Worker.sent_step h p hp).2 hno
      exact ha ⟨f, ok, he⟩
    · exact fun f ok he => ha ⟨f, ok, he⟩

/-- What `e` spoke has rising serial numbers, up to the worker's, which is not above the
number of steps. -/
structure Numbered (s : Conversation E D N) (o : List (ConversationObs E)) (k : ℕ) (e : E) : Prop where
  rising : ((spokenBy e o).map (·.serialNumber)).Pairwise (· < ·)
  bounded : ∀ p ∈ spokenBy e o, p.serialNumber ≤ (s.parties e).worker.uplink.sn_sendingAudio_
  steps : (s.parties e).worker.uplink.sn_sendingAudio_.toNat ≤ k

/-- **A step** in which `e` speaks one packet, with the next serial number, or none. -/
theorem Numbered.moves {s s' : Conversation E D N} {o o' : List (ConversationObs E)} {k : ℕ} {e : E}
    (hn : Numbered s o k e) (hk : k + 1 < 2 ^ 32) {sn sn' : UInt32}
    (hsn : (s.parties e).worker.uplink.sn_sendingAudio_ = sn)
    (hsn' : (s'.parties e).worker.uplink.sn_sendingAudio_ = sn')
    (hsp : (spokenBy e o' = [] ∧ (sn' = sn ∨ sn' = sn + 1)) ∨
      ∃ p, spokenBy e o' = [p] ∧ p.serialNumber = sn + 1 ∧ sn' = sn + 1) : Numbered s' (o ++ o') (k + 1) e := by
  obtain ⟨hrising, hbounded, hsteps⟩ := hn
  rw [hsn] at hsteps hbounded
  have hnext : (sn + 1).toNat = sn.toNat + 1 := by
    rw [UInt32.toNat_add, UInt32.toNat_one]
    omega
  have hle : sn ≤ sn' := by
    rw [UInt32.le_iff_toNat_le]
    rcases hsp with ⟨-, rfl | rfl⟩ | ⟨p, -, -, rfl⟩
    · exact Nat.le_refl _
    · omega
    · omega
  have hold : ∀ p ∈ spokenBy e o, p.serialNumber ≤ sn' := fun p hp => UInt32.le_trans (hbounded p hp) hle
  have hsteps' : sn'.toNat ≤ k + 1 := by
    rcases hsp with ⟨-, rfl | rfl⟩ | ⟨p, -, -, rfl⟩ <;> omega
  rcases hsp with ⟨hnone, -⟩ | ⟨p, hone, hp, rfl⟩
  · refine ⟨?_, fun q hq => ?_, hsn'.symm ▸ hsteps'⟩
    · rw [spokenBy_append, hnone, List.append_nil]
      exact hrising
    · rw [spokenBy_append, hnone, List.append_nil] at hq
      rw [hsn']
      exact hold q hq
  · refine ⟨?_, fun q hq => ?_, hsn'.symm ▸ hsteps'⟩
    · rw [spokenBy_append, hone, List.map_append, List.pairwise_append]
      refine ⟨hrising, List.pairwise_singleton _ _, fun x hx y hy => ?_⟩
      obtain ⟨q, hq, rfl⟩ := List.mem_map.mp hx
      have hy' : y = sn + 1 := (List.mem_singleton.mp hy).trans hp
      have hq' := UInt32.le_iff_toNat_le.mp (hbounded q hq)
      rw [hy', UInt32.lt_iff_toNat_lt, hnext]
      omega
    · rw [spokenBy_append, hone] at hq
      rw [hsn']
      rcases List.mem_append.mp hq with hq | hq
      · exact hold q hq
      · rw [List.mem_singleton.mp hq, hp]
        exact UInt32.le_refl _

theorem spokenBy_map_worker (e e' : E) (o : List WorkerObs) :
    spokenBy e (o.map (.worker e')) = if e' = e then (Worker.sentOf o).filter isAudio else [] := by
  induction o with
  | nil => split <;> rfl
  | cons x o ih =>
    have hcons : (x :: o).map (ConversationObs.worker e') = [.worker e' x] ++ o.map (.worker e') := rfl
    have hsent : Worker.sentOf (x :: o) = Worker.sentOf [x] ++ Worker.sentOf o := Worker.sentOf_append [x] o
    rw [hcons, spokenBy_append, spokenBy_worker, ih]
    split
    · rw [hsent, List.filter_append]
    · rfl

section

variable {cfg : ServerConfig} {dec : Decoders D N} {c : FadeCurve K} {v : E → Version}

theorem numbered_step {s s' : Conversation E D N} {o o' : List (ConversationObs E)} {k : ℕ} {e : E}
    {a : ConversationAction E} (hk : k + 1 < 2 ^ 32) (hn : Numbered s o k e)
    (hstep : s.step cfg dec c v a = some (s', o')) : Numbered s' (o ++ o') (k + 1) e := by
  cases a with
  | worker e' a =>
    simp only [step] at hstep
    split at hstep
    · cases hstep
    split at hstep
    · cases hstep
    rename_i worker ow hw
    cases hstep
    by_cases he : e' = e
    · subst he
      refine hn.moves hk rfl rfl ?_
      rw [spokenBy_map_worker, if_pos rfl]
      simpa [setParty] using audio_of_step hw
    · refine hn.moves hk rfl rfl (Or.inl ⟨?_, Or.inl ?_⟩)
      · rw [spokenBy_map_worker, if_neg he]
      · simp [setParty, Ne.symm he]
  | fetch r =>
    simp only [step] at hstep
    split at hstep
    · cases hstep
    · cases hstep
      refine hn.moves hk rfl rfl (Or.inl ⟨spokenBy_down .., Or.inl ?_⟩)
      by_cases he : e = r
      · subst he
        simp [setParty]
      · simp [setParty, he]
  | deliver i env beyond again =>
    simp only [step] at hstep
    split at hstep
    · cases hstep
    · cases hstep
      exact hn.moves hk rfl rfl (Or.inl ⟨rfl, Or.inl rfl⟩)
    · rename_i r data hi
      have hcases := onClient_cases dec v
        { s with inFlight := if again then s.inFlight else s.inFlight.eraseIdx i } r data env beyond
      rw [Option.some.inj hstep] at hcases
      cases hcases with
      | ignored hno => exact hn.moves hk rfl rfl (Or.inl ⟨rfl, Or.inl rfl⟩)
      | answered worker ow hno hframe ho =>
        refine hn.moves hk rfl rfl (Or.inl ⟨?_, Or.inl ?_⟩)
        · rw [spokenBy_map_worker]
          split
          · rcases ho with ho | ho <;> rw [ho]
            · rfl
            · refine List.filter_eq_nil_iff.mpr fun p hp => ?_
              rw [List.mem_singleton.mp hp, isAudio_ofType]
              decide
          · rfl
        · by_cases he : e = r
          · subst he
            simp [setParty, hframe]
          · simp [setParty, he]
      | heard p hp hup =>
        refine hn.moves hk rfl rfl (Or.inl ⟨spokenBy_down .., Or.inl ?_⟩)
        by_cases he : e = r
        · subst he
          simp [setParty]
        · simp [setParty, he]
  | lose i =>
    simp only [step] at hstep
    split at hstep
    · cases hstep
      exact hn.moves hk rfl rfl (Or.inl ⟨rfl, Or.inl rfl⟩)
    · cases hstep

end

/-! ### The loudspeakers -/

theorem downOf_append (r : E) (a b : List (ConversationObs E)) : downOf r (a ++ b) = downOf r a ++ downOf r b :=
  List.filterMap_append

theorem downOf_map_worker (r e : E) (o : List WorkerObs) : downOf r (o.map (.worker e)) = [] := by
  unfold downOf
  rw [List.filterMap_map, List.filterMap_eq_nil_iff]
  exact fun _ _ => rfl

/-- What a step does to the processor of `r`, and what is seen of that. -/
inductive DownStep (dec : Decoders D N) (c : FadeCurve K) (s s' : Conversation E D N) (r : E) :
    ConversationAction E → List DownObs → Prop
  | same {a : ConversationAction E} (hdown : (s'.parties r).down = (s.parties r).down) : DownStep dec c s s' r a []
  | fetch {f : DownstreamProcessor D N × Fetched} (hf : (s.parties r).down.fetch dec c = .ok f)
      (hdown : (s'.parties r).down = f.1) : DownStep dec c s s' r (.fetch r) [.fetched f.2]
  | append {i : ℕ} {env : Delivery} {beyond : PcmSegment} {again : Bool} {data : Bytes} {p : NetPacket}
      (hi : s.inFlight[i]? = some (.toClient r data)) (hp : audioOf data = some p)
      (hdown : (s'.parties r).down = ((s.parties r).down.append dec p beyond).1) :
      DownStep dec c s s' r (.deliver i env beyond again) [.appended ((s.parties r).down.append dec p beyond).2]

section

variable {cfg : ServerConfig} {dec : Decoders D N} {c : FadeCurve K} {v : E → Version}
variable {s s' : Conversation E D N} {o o' : List (ConversationObs E)} {a : ConversationAction E}

theorem downStep_of_step (r : E) (hstep : s.step cfg dec c v a = some (s', o')) :
    DownStep dec c s s' r a (downOf r o') := by
  have hsame : ∀ {party : Party D N} {e : E}, party.down = (s.parties e).down →
      (Function.update s.parties e party r).down = (s.parties r).down := by
    intro party e hdown
    by_cases hr : r = e
    · subst hr
      rw [Function.update_self, hdown]
    · rw [Function.update_of_ne hr]
  cases a with
  | worker e a =>
    simp only [step] at hstep
    split at hstep
    · cases hstep
    · split at hstep
      · cases hstep
      · cases hstep
        rw [downOf_map_worker]
        exact .same (hsame rfl)
  | fetch e =>
    simp only [step] at hstep
    split at hstep
    · cases hstep
    · rename_i f hf
      cases hstep
      by_cases hr : e = r
      · subst hr
        have hdown : downOf e [ConversationObs.down e (.fetched f.2)] = [.fetched f.2] := by simp [downOf]
        rw [hdown]
        exact .fetch hf (by simp [setParty])
      · have hdown : downOf r [ConversationObs.down e (.fetched f.2)] = [] := by simp [downOf, hr]
        rw [hdown]
        exact .same (by simp [setParty, Ne.symm hr])
  | deliver i env beyond again =>
    simp only [step] at hstep
    split at hstep
    · cases hstep
    · cases hstep
      exact .same rfl
    · rename_i e data hi
      have hcases := onClient_cases dec v
        { s with inFlight := if again then s.inFlight else s.inFlight.eraseIdx i } e data env beyond
      rw [Option.some.inj hstep] at hcases
      cases hcases with
      | ignored hno => exact .same rfl
      | answered worker ow hno hframe ho =>
        rw [downOf_map_worker]
        exact .same (hsame rfl)
      | heard p hp hup =>
        by_cases hr : e = r
        · subst hr
          have hdown : downOf e [ConversationObs.down e (.appended ((s.parties e).down.append dec p beyond).2)] =
            [.appended ((s.parties e).down.append dec p beyond).2] := by simp [downOf]
          rw [hdown]
          exact .append hi hp (by simp [setParty])
        · have hdown : downOf r [ConversationObs.down e (.appended ((s.parties e).down.append dec p beyond).2)] =
            [] := by simp [downOf, hr]
          rw [hdown]
          exact .same (by simp [setParty, Ne.symm hr])
  | lose i =>
    simp only [step] at hstep
    split at hstep
    · cases hstep
      exact .same rfl
    · cases hstep

/-- Each processor is what its own calls make it. -/
theorem inv_step [IsStrictOrderedRing K] (r : E) (hi : Playout.Inv c (downOf r o) (s.parties r).down)
    (hstep : s.step cfg dec c v a = some (s', o')) :
    Playout.Inv c (downOf r (o ++ o')) (s'.parties r).down := by
  have hdown := downStep_of_step r hstep
  rw [downOf_append]
  generalize downOf r o' = seen at hdown
  cases hdown with
  | same hsame =>
    rw [List.append_nil, hsame]
    exact hi
  | fetch hf hnew =>
    obtain ⟨f', hf', hinv⟩ := hi.fetched dec
    cases hf.symm.trans hf'
    rw [hnew]
    exact hinv
  | append hdata hp hnew =>
    rw [hnew]
    exact hi.appended dec _ _

/-- Where nothing for `r` is lost, what it hears is kept. -/
theorem kept_step {r : E} (hk : Keeps cfg r s a) (hstep : s.step cfg dec c v a = some (s', o')) :
    Playout.keptOf (downOf r o') = Playout.appends (downOf r o') := by
  have hdown := downStep_of_step r hstep
  generalize downOf r o' = seen at hdown
  cases hdown with
  | same hsame => rfl
  | fetch hf hnew => rfl
  | append hdata hp hnew =>
    rename_i beyond again data p
    have hroom := (hk _ hdata rfl).2 (by rw [hp]; rfl)
    obtain ⟨-, -, -, -, hkept, -, -⟩ := (s.parties r).down.append_spec dec p beyond
    have htrue := hkept.trans (Fifo.push_snd.mpr hroom)
    simp [Playout.keptOf, Playout.appends, htrue]

end

end Conversation

open Conversation

section

variable {E : Type*} [DecidableEq E] {D N K : Type} [Field K] [LinearOrder K] [FloorRing K]
variable (cfg : ServerConfig) (dec : Decoders D N) (c : FadeCurve K) (v : E → Version)
variable (needAec durationReporter : E → Bool) (d : D) (n : N) (as : List (ConversationAction E))
variable (s : Conversation E D N) (o : List (ConversationObs E))

/-- A run in order, as the hub. -/
theorem Conversation.sim_exec
    (h : Conversation.exec cfg dec c v needAec durationReporter d n as = some (s, o))
    (hin : Lts.Along (Conversation.step cfg dec c v) Conversation.InOrder (start needAec durationReporter d n) as) :
    ∃ hub : AudioHub cfg E, Sim s o hub := by
  refine Lts.along_rule (Conversation.step cfg dec c v) Conversation.InOrder
    (fun s o => ∃ hub : AudioHub cfg E, Sim s o hub)
    ⟨_, sim_start needAec durationReporter d n⟩ ?_ h hin
  rintro s o a s' o' hin ⟨hub, hs⟩ hstep
  obtain ⟨hub', hs', -⟩ := sim_step hs hin hstep
  exact ⟨hub', hs'⟩

/-- **An ordered broadcast.** In both modes, in every run whose deliveries are in order, none
twice, with any losses: there is one list of packets with their speakers such that each
endpoint's part of it was spoken by the endpoint in that order, and every endpoint has heard
some of the parts of those it hears (the others, in echo mode itself), in the order of the list. -/
theorem ordered_broadcast
    (h : Conversation.exec cfg dec c v needAec durationReporter d n as = some (s, o))
    (hin : Lts.Along (Conversation.step cfg dec c v) Conversation.InOrder (start needAec durationReporter d n) as) :
    ∃ log : List (E × NetPacket),
      (∀ e, ((log.filter (·.1 = e)).map (·.2)).Sublist (spokenBy e o)) ∧
      ∀ r, ∃ heard : List (E × NetPacket), heard.map (·.2) = heardBy r o ∧
        heard.Sublist (log.filter fun x => RawUdpServer.Hears cfg x.1 r) := by
  obtain ⟨hub, hs⟩ := sim_exec cfg dec c v needAec durationReporter d n as s o h hin
  refine ⟨hub.log, fun e => ?_, fun r => ⟨hub.heard r, (hs.heard r).symm, ?_⟩⟩
  · rw [← hs.spoken e]
    exact (List.sublist_append_left _ _).trans (hub.up_sub e)
  · exact (List.sublist_append_left _ _).trans (hub.down_sub r)

/-- The processor of `r` after a run. -/
theorem Conversation.inv_exec [IsStrictOrderedRing K] (r : E)
    (h : Conversation.exec cfg dec c v needAec durationReporter d n as = some (s, o)) :
    Playout.Inv c (downOf r o) (s.parties r).down := by
  refine Lts.history_rule (Conversation.step cfg dec c v)
    (fun _ s o => Playout.Inv c (downOf r o) (s.parties r).down) ?_ ?_ h
  · exact Playout.inv_create c d n
  · exact fun _ s o a s' o' hi hstep => inv_step r hi hstep

/-- **A network that keeps the order is all it takes.** Where the deliveries are in order and
none but `e` speaks to `r` (in echo mode none but `r` does): of what `e` spoke, `r` plays the
packets with rising serial numbers, in every run of fewer than 2³² steps. -/
theorem played_in_order [IsStrictOrderedRing K] {e r : E} (hlen : as.length < 2 ^ 32)
    (h : Conversation.exec cfg dec c v needAec durationReporter d n as = some (s, o))
    (hin : Lts.Along (Conversation.step cfg dec c v) Conversation.InOrder (start needAec durationReporter d n) as)
    (hothers : ∀ e', e' ≠ e → RawUdpServer.Hears cfg e' r → spokenBy e' o = []) :
    (Playout.playedSerials (downOf r o)).Pairwise (· < ·) := by
  -- what is heard is of `e`, in its order
  have hheard : (heardBy r o).Sublist (spokenBy e o) := by
    obtain ⟨hub, hs⟩ := sim_exec cfg dec c v needAec durationReporter d n as s o h hin
    have hsub : ∀ e', (((hub.heard r).filter (·.1 = e')).map (·.2)).Sublist (spokenBy e' o) := by
      intro e'
      rw [← hs.spoken e']
      refine List.Sublist.trans ?_ (hub.heard_of_speaker e' r)
      rw [Hub.reaching, List.filter_append, List.map_append, List.append_assoc]
      exact List.sublist_append_left _ _
    have honly : (hub.heard r).filter (·.1 = e) = hub.heard r := by
      refine List.filter_eq_self.mpr fun x hx => ?_
      by_contra hne
      have hmem := (hsub x.1).subset (List.mem_map_of_mem (List.mem_filter.mpr ⟨hx, decide_eq_true rfl⟩))
      rw [hothers x.1 (by simpa using hne) (hub.hears_of_heard hx)] at hmem
      cases hmem
    have he := hsub e
    rwa [honly, ← hs.heard r] at he
  have hnumbered : as.length < 2 ^ 32 → Numbered s o as.length e := by
    refine Lts.history_rule (Conversation.step cfg dec c v)
      (fun as s o => as.length < 2 ^ 32 → Numbered s o as.length e) (fun _ => ?_) ?_ h
    · exact ⟨List.Pairwise.nil, fun p hp => absurd hp List.not_mem_nil, Nat.le_refl _⟩
    · intro as s o a s' o' hP hstep hlt
      rw [List.length_append, List.length_singleton] at hlt ⊢
      exact numbered_step hlt (hP (by omega)) hstep
  have hinv := inv_exec cfg dec c v needAec durationReporter d n as s o r h
  rw [hinv.playedSerials_eq]
  refine (hnumbered hlen).rising.sublist ?_
  have hkept : ((Playout.keptOf (downOf r o)).map (·.packet)).Sublist (heardBy r o) := List.filter_sublist.map _
  have hserials := (hkept.trans hheard).map (·.serialNumber)
  rw [List.map_map] at hserials
  exact ((List.take_sublist _ _).map _).trans hserials

end

/-- A block with voice goes out from `e`. -/
def sampleSpoken (e : Fin 3) : List (ConversationAction (Fin 3)) := [.worker e .callback, .worker e sampleAudio]

/-- Three programs join; the second and the first speak in turn, the second twice more, and the
third and the first play what they hear. -/
def sampleHearing : List (ConversationAction (Fin 3)) :=
  sampleJoin 2 ++ sampleJoin 1 ++ sampleJoin 0 ++
    (sampleSpoken 1 ++ sampleSpoken 0 ++ sampleSpoken 1 ++ sampleSpoken 1) ++
    List.replicate 12 (sampleDeliver false) ++ List.replicate 4 (.fetch 2) ++ List.replicate 3 (.fetch 0)

/-- The run of it. -/
abbrev sampleHearingExec : Option (Conversation (Fin 3) Unit Unit × List (ConversationObs (Fin 3))) :=
  Conversation.exec RawUdpSpec.sampleConfig sampleDecoders sampleCurve (fun _ => sampleVersion) (fun _ => false)
    (fun _ => false) () () sampleHearing

/-- What there is to see of it: the third hears all four packets and has played three of them, the
first hears the three of the second and has played two. -/
theorem sampleHearing_exec : ∃ s o, sampleHearingExec = some (s, o) ∧ s.inFlight = [] ∧
    [0, 1, 2].map (fun e => (spokenBy e o).length) = [1, 3, 0] ∧
    [0, 1, 2].map (fun r => (heardBy r o).length) = [3, 1, 4] ∧
    Playout.playedSerials (downOf 0 o) = [1, 2] ∧ (Playout.playedPackets (downOf 2 o)).length = 3 := by
  have hseen : sampleHearingExec.map (fun r => (r.1.inFlight.isEmpty,
      [0, 1, 2].map (fun e => (spokenBy e r.2).length), [0, 1, 2].map (fun e => (heardBy e r.2).length),
      Playout.playedSerials (downOf 0 r.2), (Playout.playedPackets (downOf 2 r.2)).length)) =
        some (true, [1, 3, 0], [3, 1, 4], [1, 2], 3) := by decide +kernel
  obtain ⟨⟨s, o⟩, hrun, heq⟩ := Option.map_eq_some_iff.mp hseen
  simp only [Prod.mk.injEq] at heq
  obtain ⟨hempty, hspoken, hheard, hserials, hplayed⟩ := heq
  exact ⟨s, o, hrun, List.isEmpty_iff.mp hempty, hspoken, hheard, hserials, hplayed⟩

theorem ordered_broadcast_hearing : ∃ s o, sampleHearingExec = some (s, o) ∧
    [0, 1, 2].map (fun r => (heardBy r o).length) = [3, 1, 4] ∧ ∃ log : List (Fin 3 × NetPacket),
      (∀ e, ((log.filter (·.1 = e)).map (·.2)).Sublist (spokenBy e o)) ∧
      ∀ r, ∃ heard : List (Fin 3 × NetPacket), heard.map (·.2) = heardBy r o ∧
        heard.Sublist (log.filter fun x => RawUdpServer.Hears RawUdpSpec.sampleConfig x.1 r) := by
  obtain ⟨s, o, hrun, -, -, hheard, -⟩ := sampleHearing_exec
  exact ⟨s, o, hrun, hheard, ordered_broadcast RawUdpSpec.sampleConfig sampleDecoders sampleCurve _ _ _ () () _ _ _
    hrun (by decide +kernel)⟩

theorem played_in_order_hearing : ∃ s o, sampleHearingExec = some (s, o) ∧
    Playout.playedSerials (downOf 0 o) = [1, 2] ∧ (Playout.playedSerials (downOf 0 o)).Pairwise (· < ·) := by
  obtain ⟨s, o, hrun, -, hspoken, -, hserials, -⟩ := sampleHearing_exec
  refine ⟨s, o, hrun, hserials, ?_⟩
  refine played_in_order (e := 1) (r := 0) RawUdpSpec.sampleConfig sampleDecoders sampleCurve _ _ _ () () _ _ _
    (by decide) hrun (by decide +kernel) fun e hne hears => ?_
  -- the first does not hear itself, and the third has not spoken
  simp only [List.map_cons, List.map_nil, List.cons.injEq, List.length_eq_zero_iff, and_true] at hspoken
  have hother : ∀ e : Fin 3, e ≠ 1 → RawUdpServer.Hears RawUdpSpec.sampleConfig e 0 → e = 2 := by decide
  rw [hother e hne hears, hspoken.2.2]

end EasyVoiceCall
