/-
# A conversation over UDP

The whole of a call: the programs at the endpoints, each a `Worker` and its
`DownstreamProcessor`, the server's room, and the datagrams between them. A step
is a statement of one of the worker's threads, a fetch for the loudspeaker, or
the network's: it delivers any datagram in flight, once or once more, or loses it.

Whatever the network does, a packet that reaches a loudspeaker is one that
somebody else spoke, or in echo mode the same program, as it was spoken (`heard_was_spoken`).

Key definitions: `Conversation.step`, `Conversation.Honest`.
Key theorems: `Conversation.honest_step`, `heard_was_spoken`.
-/
import EasyVoiceCall.Order
import EasyVoiceCall.Storm

namespace EasyVoiceCall

open Buffer NetPacket

/-! ### Audio packets on the way -/

/-- The types that `onDataReceived_` hands on to the loudspeaker. -/
def NetPacket.isAudio (p : NetPacket) : Bool :=
  p.payloadType = .AudioMessage_CN ∨ p.payloadType = .AudioMessage

/-- The audio packet that either end makes of a datagram; the version and the clock
reading do not matter. -/
def audioOf (data : Bytes) : Option NetPacket :=
  (RawUdpConnection.makePacket sampleVersion 0 (data.take RawUdpServer.max_length)).filter isAudio

theorem audioOf_some_iff {data : Bytes} {p : NetPacket} : audioOf data = some p ↔
    RawUdpConnection.makePacket sampleVersion 0 (data.take RawUdpServer.max_length) = some p ∧ p.isAudio = true := by
  rw [audioOf, Option.filter_eq_some_iff]

/-- An accepted packet is as long as its header says, and fits the buffer. -/
theorem lengthOK_of_makePacket {v : Version} {now : UInt32} {d : Bytes} {p : NetPacket}
    (h : RawUdpConnection.makePacket v now d = some p) :
    LengthOK p.wholePacket ∧ p.wholePacket.length ≤ d.length := by
  obtain ⟨hframed, hbytes⟩ := (RawUdpConnection.makePacket_some_iff ..).mp h
  refine ⟨hbytes ▸ lengthOK_frame hframed, ?_⟩
  rw [hbytes, length_frame hframed]
  exact hframed.2

/-- A packet as long as its header says, received into a buffer. -/
theorem makePacket_take_of_lengthOK {p : NetPacket} (h : LengthOK p.wholePacket) {n : ℕ} (hn : FixHeaderLength ≤ n)
    (v : Version) (now : UInt32) : RawUdpConnection.makePacket v now (p.header.take n) =
      if p.header.length ≤ n then some p else none := by
  have hlen : p.header.length = FixHeaderLength + (lengthField p.header).toNat := h
  split
  · rename_i hfit
    rw [List.take_of_length_le hfit, RawUdpConnection.makePacket_some_iff]
    refine ⟨⟨p.header_le, hlen.ge⟩, ?_⟩
    rw [frame, ← hlen, List.take_length]
    rfl
  · rename_i hfit
    rw [RawUdpConnection.makePacket_none_iff]
    -- the length field survives the cut
    have hfield : lengthField (p.header.take n) = lengthField p.header := by
      rw [← lengthField_take, List.take_take, Nat.min_eq_left hn, lengthField_take]
    rintro ⟨-, h2⟩
    rw [hfield, List.length_take, ← hlen] at h2
    omega

/-- An audio packet that fits comes through, and nothing else is made of a packet. -/
theorem audioOf_header {p : NetPacket} (h : LengthOK p.wholePacket) :
    audioOf p.header = if p.header.length ≤ RawUdpServer.max_length ∧ p.isAudio = true then some p else none := by
  rw [audioOf, makePacket_take_of_lengthOK h (by decide)]
  by_cases hfit : p.header.length ≤ RawUdpServer.max_length
  · rw [if_pos hfit]
    cases ha : p.isAudio
    · simp [Option.filter, ha]
    · simp [Option.filter, ha, hfit]
  · rw [if_neg hfit, if_neg fun h => hfit h.1]
    rfl

/-- The server's answers are not audio. -/
theorem isAudio_ofType (v : Version) (up : UInt32) (t : PayloadType) (sn : UInt32) :
    (ofType v up t sn).isAudio = true ↔ t = .AudioMessage_CN ∨ t = .AudioMessage := by
  simp [isAudio]

theorem request_of_isAudio {p : NetPacket} (h : p.isAudio = true) : p.request = .media := by
  rw [request_eq_media_iff, isMediaType]
  rw [isAudio, decide_eq_true_eq] at h
  rcases h with h | h <;> simp [h]

/-! ### What a worker sends -/

theorem Uplink.lengthOK_vadSend {v : Version} {self self' : Uplink} {f : Frame} {sent : List NetPacket}
    (h : self.vadSend v f = some (self', sent)) : ∀ p ∈ sent, LengthOK p.wholePacket := by
  have hnext : ∀ {u : Uplink} {t payload}, u.sendNext v f.upTime t payload = some (self', sent) →
      ∀ p ∈ sent, LengthOK p.wholePacket := by
    intro u t payload hs p hp
    unfold Uplink.sendNext at hs
    dsimp only at hs
    split at hs
    · rename_i packet hok
      cases hs
      obtain ⟨-, hfit, hbytes⟩ := makePacket_of_built hok [] v 0
      rw [List.mem_singleton.mp hp]
      refine lengthOK_of_bytes hbytes ?_
      rw [UInt16.toNat_ofNat']
      omega
    · cases hs
  unfold Uplink.vadSend at h
  split at h
  · cases h
  · dsimp only at h
    split at h
    · split at h
      · cases h
      · exact hnext h
    · split at h
      · exact hnext h
      · cases h
        exact fun p hp => absurd hp List.not_mem_nil

namespace Worker

theorem mem_sentOf_packets {ok : Bool} {packets : List NetPacket} {p : NetPacket}
    (h : p ∈ sentOf (packets.flatMap (send ok))) : p ∈ packets := by
  obtain ⟨q, hq, hp⟩ := List.mem_flatMap.mp (mem_sentOf.mp h)
  exact mem_send hp ▸ hq

/-- `syncStart` sends requests. -/
theorem sent_netStep {v : Version} {s s' : Worker} {env : NetEnv} {o : List WorkerObs}
    (h : s.netStep v env = some (s', o)) :
    ∀ p ∈ sentOf o, ∃ t sn, p = ofType v env.upTime t sn ∧
      (t = .HeartBeatRequest ∨ t = .LoginRequest ∨ t = .LogoutRequest) := by
  have hsend : ∀ t sn, t = .HeartBeatRequest ∨ t = .LoginRequest ∨ t = .LogoutRequest →
      ∀ p ∈ sentOf (send env.ok (ofType v env.upTime t sn)), ∃ t sn, p = ofType v env.upTime t sn ∧
        (t = .HeartBeatRequest ∨ t = .LoginRequest ∨ t = .LogoutRequest) :=
    fun t sn ht p hp => ⟨t, sn, mem_send (mem_sentOf.mp hp), ht⟩
  have hnone : ∀ x : List WorkerObs, sentOf x = [] → ∀ p ∈ sentOf x, ∃ t sn, p = ofType v env.upTime t sn ∧
        (t = .HeartBeatRequest ∨ t = .LoginRequest ∨ t = .LogoutRequest) :=
    fun x hx p hp => absurd hp (hx ▸ List.not_mem_nil)
  cases hn : s.net <;> simp only [netStep, hn] at h
  case heartbeat =>
    unfold sendHeartbeat at h
    dsimp only at h
    split at h <;> cases h
    · exact hsend _ _ (Or.inl rfl)
    · exact hnone _ rfl
  case login =>
    cases h
    exact hsend _ _ (Or.inr (Or.inl rfl))
  case logout =>
    cases h
    exact hsend _ _ (Or.inr (Or.inr rfl))
  all_goals try split_ifs at h
  all_goals cases h <;> exact hnone _ rfl

/-- What a worker sends is well formed, and audio only where the callback sends it. -/
theorem sent_step {v : Version} {s s' : Worker} {a : WorkerAction} {o : List WorkerObs}
    (h : s.step v a = some (s', o)) : ∀ p ∈ sentOf o, LengthOK p.wholePacket ∧
      (p.isAudio = true → ∃ f ok u packets, a = .audio f ok ∧ s.uplink.vadSend v f = some (u, packets) ∧
        p ∈ packets) := by
  intro p hp
  have hanswer : ∀ t up sn, p = ofType v up t sn → (t ≠ .AudioMessage_CN ∧ t ≠ .AudioMessage) →
      LengthOK p.wholePacket ∧ (p.isAudio = true → ∃ f ok u packets, a = .audio f ok ∧
        s.uplink.vadSend v f = some (u, packets) ∧ p ∈ packets) := by
    rintro t up sn rfl ⟨hcn, hopus⟩
    refine ⟨(format_ofType ..).2, fun ha => ?_⟩
    rcases (isAudio_ofType ..).mp ha with ht | ht
    · exact absurd ht hcn
    · exact absurd ht hopus
  by_cases hnet : ∃ env, a = .net env
  · obtain ⟨env, rfl⟩ := hnet
    obtain ⟨t, sn, hpt, ht⟩ := sent_netStep h p hp
    refine hanswer t _ sn hpt ?_
    rcases ht with rfl | rfl | rfl <;> decide
  by_cases hstop : a = .stop
  · subst hstop
    rw [(stopStep_frame h).2.1] at hp
    cases hp
  obtain ⟨-, rfl | ⟨f, ok, u, packets, rfl, hu, rfl⟩ | ⟨ok, up, rfl, rfl⟩⟩ :=
    step_other h (fun env he => hnet ⟨env, he⟩) hstop
  · cases hp
  · have hmem := mem_sentOf_packets hp
    exact ⟨Uplink.lengthOK_vadSend hu p hmem, fun _ => ⟨f, ok, u, packets, rfl, hu, hmem⟩⟩
  · refine hanswer _ up 0 (mem_send (mem_sentOf.mp hp)) ?_
    decide

end Worker

/-! ### What the server sends -/

/-- In echo mode the replies that are media are the received packet itself, to its sender. -/
theorem mem_replies_media_echo {P : Type*} [DecidableEq P] {cfg : ServerConfig} (he : cfg.isEchoMode = true)
    {up : UInt32} {msg : NetPacket} {sender : P} {ps : List P} {d : P × NetPacket}
    (hd : d ∈ replies cfg up msg sender ps) (hm : d.2.isMediaType = true) : d.2 = msg ∧ d.1 = sender := by
  unfold replies at hd
  split at hd
  · rw [List.mem_singleton.mp hd, isMediaType_ofType] at hm
    rcases hm with hm | hm | hm <;> cases hm
  · rw [if_pos he] at hd
    rw [List.mem_singleton.mp hd]
    exact ⟨rfl, rfl⟩
  · rw [List.mem_singleton.mp hd, isMediaType_ofType] at hm
    rcases hm with hm | hm | hm <;> cases hm
  · cases hd
  · cases hd

namespace RawUdpServer

variable {E : Type*} [DecidableEq E] {cfg : ServerConfig} {room : RawUdpRoom E} {rx : Received E}

/-- The room and the sender: those a datagram may be sent to, and may be in the room
after it. -/
theorem doReceive_endpoints (hd : room.Distinct) :
    (∀ e ∈ (doReceive cfg room rx).1.endpoints, e = rx.endpoint ∨ e ∈ room.endpoints) ∧
    ∀ s ∈ (doReceive cfg room rx).2, s.1 = rx.endpoint ∨ s.1 ∈ room.endpoints := by
  set cut : Received E := { rx with data := rx.data.take max_length }
  have hw : Network.Within (rx.endpoint :: room.endpoints) (⟨room, fun _ => none⟩ : Network E) :=
    ⟨hd, fun e he => List.mem_cons_of_mem _ he⟩
  have hrx : cut.endpoint ∈ rx.endpoint :: room.endpoints := List.mem_cons_self
  refine ⟨fun e he => ?_, fun s hs => ?_⟩
  · have hin : Network.Within (rx.endpoint :: room.endpoints) ⟨(onReceive cfg room cut).1, fun _ => none⟩ :=
      Network.within_onReceive hw hrx
    exact List.mem_cons.mp (hin.known e he)
  · have hs' : s ∈ (onReceive cfg room cut).2 := hs
    exact List.mem_cons.mp (Network.sends_within hw hrx s hs')

/-- Who hears the audio of `e`: the others, or in echo mode itself. -/
def Hears (cfg : ServerConfig) (e r : E) : Prop := if cfg.isEchoMode = true then r = e else r ≠ e

instance (cfg : ServerConfig) : DecidableRel (Hears cfg : E → E → Prop) := fun e r =>
  inferInstanceAs (Decidable (if cfg.isEchoMode = true then r = e else r ≠ e))

/-- Audio that is sent is the audio received, to those that hear its sender. -/
theorem audio_doReceive (hd : room.Distinct) {s : E × Bytes} {p : NetPacket}
    (hs : s ∈ (doReceive cfg room rx).2) (hp : audioOf s.2 = some p) :
    audioOf rx.data = some p ∧ Hears cfg rx.endpoint s.1 := by
  set cut : Received E := { rx with data := rx.data.take max_length } with hcut
  obtain ⟨hep, hself, -, hdistinct⟩ := RawUdpRoom.connect_spec room cut
  have hs' : s ∈ (onReceive cfg room cut).2 := hs
  have hne : cut.data ≠ [] := by
    intro hnil
    rw [Network.onReceive_nil cfg room hnil] at hs'
    cases hs'
  rw [onReceive_sends cfg room hne] at hs'
  rcases hpacket : cut.packet cfg with _ | q
  · rw [hpacket] at hs'
    cases hs'
  rw [hpacket] at hs'
  obtain ⟨⟨conn, q'⟩, hreply, rfl⟩ := List.mem_map.mp hs'
  have hq : RawUdpConnection.makePacket sampleVersion 0 (rx.data.take max_length) = some q := by
    rw [← hpacket]
    exact RawUdpConnection.makePacket_congr ..
  have hlq := lengthOK_replies cfg cut.uptime _ _ (lengthOK_of_makePacket hq).1 _ hreply
  -- the datagram sent carries the reply, which is audio
  have hout : audioOf q'.header = some p := hp
  rw [audioOf_header hlq] at hout
  split at hout
  · rename_i hfit
    cases hout
    have hmedia : q'.isMediaType = true := (request_eq_media_iff q').mp (request_of_isAudio hfit.2)
    have hdata : q' = q → audioOf rx.data = some q' := by
      rintro rfl
      exact audioOf_some_iff.mpr ⟨hq, hfit.2⟩
    unfold Hears
    split
    · rename_i hecho
      obtain ⟨hsame, hsender⟩ := mem_replies_media_echo hecho hreply hmedia
      dsimp only at hsame hsender
      subst hsender
      exact ⟨hdata hsame, hep⟩
    · rename_i hecho
      obtain ⟨-, hsame, hmem, hother⟩ := mem_replies_media (Bool.eq_false_iff.mpr hecho) hreply hmedia
      refine ⟨hdata hsame, fun he => hother ?_⟩
      exact hdistinct hd _ hmem _ hself (he.trans hep.symm)
  · cases hout

end RawUdpServer

/-! ### The parties -/

/-- A program: the worker, and what it hands audio packets to. -/
structure Party (D N : Type) where
  worker : Worker
  down : DownstreamProcessor D N

/-- The callback given to `pClient->init`, on a packet. -/
def Party.onDataReceived {D N : Type} (dec : Decoders D N) (v : Version) (self : Party D N) (netPacket : NetPacket)
    (beyond : PcmSegment) (ok : Bool) (upTime : UInt32) :
    Option (Party D N × List WorkerObs × List DownObs) :=
  match self.worker.receiveStep v netPacket.payloadType ok upTime with
  | none => none
  | some (worker, o) =>
    if netPacket.isAudio then
      let r := self.down.append dec netPacket beyond
      some (⟨worker, r.1⟩, o, [.appended r.2])
    else some (⟨worker, self.down⟩, o, [])

/-- The programs at the endpoints, the server's room, and the datagrams in flight. -/
structure Conversation (E : Type*) (D N : Type) where
  room : RawUdpRoom E
  parties : E → Party D N
  inFlight : List (Datagram E)

/-- A step of a thread other than the receiver's, a fetch of the audio callback, or the
network's: a delivery, of which a copy may stay in flight, or a loss. -/
inductive ConversationAction (E : Type*)
  | worker (e : E) (a : WorkerAction)
  | fetch (e : E)
  | deliver (i : ℕ) (env : Delivery) (beyond : PcmSegment) (again : Bool)
  | lose (i : ℕ)

inductive ConversationObs (E : Type*)
  | worker (e : E) (x : WorkerObs)
  | down (e : E) (x : DownObs)

/-- Packets come with a datagram. -/
def WorkerAction.isReceive : WorkerAction → Bool
  | .receive _ _ _ => true
  | _ => false

namespace Conversation

variable {E : Type*} [DecidableEq E] {D N : Type} {K : Type} [Field K] [LinearOrder K] [FloorRing K]

/-- An empty room, and every program just started. -/
def start (needAec durationReporter : E → Bool) (d : D) (n : N) : Conversation E D N :=
  ⟨PtrSet.empty, fun e => ⟨Worker.start (needAec e) (durationReporter e), DownstreamProcessor.create d n⟩, []⟩

def setParty (self : Conversation E D N) (e : E) (party : Party D N) : Conversation E D N :=
  { self with parties := Function.update self.parties e party }

/-- The datagrams of what `e` sends. -/
def datagrams (e : E) (o : List WorkerObs) : List (Datagram E) :=
  (Worker.sentOf o).map fun p => .toServer e (RawUdpClientImpl.send p)

/-- The client at the endpoint, on a datagram. One that comes to nothing there leaves it
as it was. -/
def onClient (dec : Decoders D N) (v : E → Version) (self : Conversation E D N) (r : E) (data : Bytes)
    (env : Delivery) (beyond : PcmSegment) : Conversation E D N × List (ConversationObs E) :=
  match RawUdpClientImpl.receive (v r) env.now data with
  | none => (self, [])
  | some netPacket =>
    match (self.parties r).onDataReceived dec (v r) netPacket beyond env.ok env.uptime with
    | none => (self, [])
    | some (party, o, o') =>
      ({ self.setParty r party with inFlight := self.inFlight ++ datagrams r o },
        o.map (.worker r) ++ o'.map (.down r))

/-- The server, on a datagram. -/
def onServer (cfg : ServerConfig) (self : Conversation E D N) (e : E) (data : Bytes) (env : Delivery) :
    Conversation E D N :=
  let r := RawUdpServer.doReceive cfg self.room ⟨e, data, env.uptime, env.alloc⟩
  { self with room := r.1, inFlight := self.inFlight ++ r.2.map fun s => .toClient s.1 s.2 }

def step (cfg : ServerConfig) (dec : Decoders D N) (c : FadeCurve K) (v : E → Version)
    (self : Conversation E D N) : ConversationAction E → Option (Conversation E D N × List (ConversationObs E))
  | .worker e a =>
    if a.isReceive then none
    else
      match (self.parties e).worker.step (v e) a with
      | none => none
      | some (worker, o) =>
        some ({ self.setParty e { self.parties e with worker } with inFlight := self.inFlight ++ datagrams e o },
          o.map (.worker e))
  | .fetch e =>
    match (self.parties e).down.fetch dec c with
    | .error _ => none
    | .ok r => some (self.setParty e { self.parties e with down := r.1 }, [.down e (.fetched r.2)])
  | .deliver i env beyond again =>
    let rest := { self with inFlight := if again then self.inFlight else self.inFlight.eraseIdx i }
    match self.inFlight[i]? with
    | none => none
    | some (.toServer e data) => some (rest.onServer cfg e data env, [])
    | some (.toClient r data) => some (rest.onClient dec v r data env beyond)
  | .lose i =>
    if i < self.inFlight.length then some ({ self with inFlight := self.inFlight.eraseIdx i }, []) else none

/-- A run from an empty room. -/
abbrev exec (cfg : ServerConfig) (dec : Decoders D N) (c : FadeCurve K) (v : E → Version)
    (needAec durationReporter : E → Bool) (d : D) (n : N) (as : List (ConversationAction E)) :
    Option (Conversation E D N × List (ConversationObs E)) :=
  Lts.exec (step cfg dec c v) (start needAec durationReporter d n) as

/-- What the threads of `e` put out. -/
def workerOf (e : E) (o : List (ConversationObs E)) : List WorkerObs :=
  o.filterMap fun
    | .worker e' x => if e' = e then some x else none
    | .down _ _ => none

/-- What the processor at `r` was asked, and gave. -/
def downOf (r : E) (o : List (ConversationObs E)) : List DownObs :=
  o.filterMap fun
    | .worker _ _ => none
    | .down r' x => if r' = r then some x else none

/-- The audio packets that `e` sent. -/
def spokenBy (e : E) (o : List (ConversationObs E)) : List NetPacket :=
  (Worker.sentOf (workerOf e o)).filter isAudio

/-- The packets given to the loudspeaker at `r`. -/
def heardBy (r : E) (o : List (ConversationObs E)) : List NetPacket :=
  (Playout.appends (downOf r o)).map (·.packet)

theorem mem_heardBy {r : E} {o : List (ConversationObs E)} {p : NetPacket} :
    p ∈ heardBy r o ↔ ∃ a, .down r (.appended a) ∈ o ∧ a.packet = p := by
  unfold heardBy Playout.appends downOf
  simp only [List.mem_map, List.mem_filterMap]
  constructor
  · rintro ⟨a, ⟨x, ⟨y, hy, hyx⟩, hxa⟩, rfl⟩
    cases y with
    | worker e z => cases hyx
    | down e z =>
      dsimp only at hyx
      split at hyx
      · rename_i he
        cases hyx
        cases x with
        | appended b =>
          cases hxa
          exact ⟨a, he ▸ hy, rfl⟩
        | fetched f => cases hxa
      · cases hyx
  · rintro ⟨a, ha, rfl⟩
    exact ⟨a, ⟨_, ⟨_, ha, if_pos rfl⟩, rfl⟩, rfl⟩

/-! ### What a step does -/

/-- What a client makes of a datagram: nothing, an answer, or a packet for the
loudspeaker. -/
inductive OnClient (dec : Decoders D N) (v : E → Version) (self : Conversation E D N) (r : E) (data : Bytes)
    (env : Delivery) (beyond : PcmSegment) : Conversation E D N × List (ConversationObs E) → Prop
  | ignored (hno : ∀ p, audioOf data = some p → (self.parties r).worker.clientUp = false) :
      OnClient dec v self r data env beyond (self, [])
  | answered (worker : Worker) (o : List WorkerObs) (hno : audioOf data = none)
      (hframe : worker.uplink = (self.parties r).worker.uplink)
      (ho : Worker.sentOf o = [] ∨ Worker.sentOf o = [ofType (v r) env.uptime .HeartBeatResponse 0]) :
      OnClient dec v self r data env beyond
        ({ self.setParty r { self.parties r with worker } with inFlight := self.inFlight ++ datagrams r o },
          o.map (.worker r))
  | heard (p : NetPacket) (hp : audioOf data = some p) (hup : (self.parties r).worker.clientUp = true) :
      OnClient dec v self r data env beyond
        (self.setParty r { self.parties r with down := ((self.parties r).down.append dec p beyond).1 },
          [.down r (.appended ((self.parties r).down.append dec p beyond).2)])

theorem onClient_cases (dec : Decoders D N) (v : E → Version) (self : Conversation E D N) (r : E) (data : Bytes)
    (env : Delivery) (beyond : PcmSegment) :
    OnClient dec v self r data env beyond (self.onClient dec v r data env beyond) := by
  have hsame : RawUdpClientImpl.receive (v r) env.now data =
      RawUdpConnection.makePacket sampleVersion 0 (data.take RawUdpServer.max_length) :=
    RawUdpConnection.makePacket_congr ..
  unfold onClient
  rw [hsame]
  rcases hp : RawUdpConnection.makePacket sampleVersion 0 (data.take RawUdpServer.max_length) with _ | p
  · refine OnClient.ignored fun q hq => ?_
    rw [audioOf_some_iff, hp] at hq
    cases hq.1
  dsimp only
  have haudio : ∀ q, audioOf data = some q → q = p ∧ p.isAudio = true := by
    intro q hq
    rw [audioOf_some_iff, hp] at hq
    cases hq.1
    exact ⟨rfl, hq.2⟩
  unfold Party.onDataReceived
  rcases hstep : (self.parties r).worker.receiveStep (v r) p.payloadType env.ok env.uptime with _ | ⟨worker, o⟩
  · refine OnClient.ignored fun q _ => ?_
    unfold Worker.receiveStep at hstep
    split at hstep
    · split_ifs at hstep
    · rename_i hup
      exact Bool.not_eq_true _ ▸ hup
  dsimp only
  cases ha : p.isAudio
  · rw [if_neg Bool.false_ne_true]
    simp only [List.map_nil, List.append_nil]
    refine OnClient.answered worker o ?_ ?_ (Network.receiveStep_sent hstep)
    · cases hd : audioOf data with
      | none => rfl
      | some q => rw [(haudio q hd).2] at ha; cases ha
    · unfold Worker.receiveStep at hstep
      split_ifs at hstep <;> cases hstep <;> rfl
  · -- an audio packet: the worker is as before, and answers nothing
    have htype : p.payloadType ≠ .HeartBeatRequest ∧ p.payloadType ≠ .LoginResponse := by
      rw [isAudio, decide_eq_true_eq] at ha
      rcases ha with ha | ha <;> rw [ha] <;> decide
    unfold Worker.receiveStep at hstep
    rw [if_neg htype.1, if_neg htype.2] at hstep
    split at hstep
    · rename_i hup
      cases hstep
      have hd : audioOf data = some p := audioOf_some_iff.mpr ⟨hp, ha⟩
      have hnone : datagrams r ([] : List WorkerObs) = [] := rfl
      rw [if_pos rfl]
      simp only [hnone, List.map_nil, List.nil_append, List.append_nil]
      exact OnClient.heard p hd hup
    · cases hstep

/-! ### Nothing is made up -/

/-- `e` has sent the packet. -/
def Sent (o : List (ConversationObs E)) (e : E) (p : NetPacket) : Prop := .worker e (.sent p) ∈ o

/-- One that `r` hears has sent the audio packet. -/
def SpokenTo (cfg : ServerConfig) (o : List (ConversationObs E)) (r : E) (p : NetPacket) : Prop :=
  ∃ e, RawUdpServer.Hears cfg e r ∧ Sent o e p ∧ p.isAudio = true

/-- What is known of every run: what is sent is well formed; the members have sent
something; a datagram in flight is a packet of its sender, or for one that has sent
something, and then audio in it was spoken by one that it hears. -/
structure Honest (cfg : ServerConfig) (s : Conversation E D N) (o : List (ConversationObs E)) : Prop where
  wellFormed : ∀ e p, Sent o e p → LengthOK p.wholePacket
  distinct : s.room.Distinct
  members : ∀ e ∈ s.room.endpoints, ∃ p, Sent o e p
  up : ∀ e data, .toServer e data ∈ s.inFlight → ∃ p, Sent o e p ∧ data = p.header
  down : ∀ r data, .toClient r data ∈ s.inFlight → (∃ p, Sent o r p) ∧
    ∀ p, audioOf data = some p → SpokenTo cfg o r p

omit [DecidableEq E] in
theorem Sent.mono {o o' : List (ConversationObs E)} {e : E} {p : NetPacket} (h : Sent o e p) : Sent (o ++ o') e p :=
  List.mem_append_left _ h

omit [DecidableEq E] in
theorem SpokenTo.mono {cfg : ServerConfig} {o o' : List (ConversationObs E)} {r : E} {p : NetPacket}
    (h : SpokenTo cfg o r p) : SpokenTo cfg (o ++ o') r p := by
  obtain ⟨e, hne, hsent, ha⟩ := h
  exact ⟨e, hne, hsent.mono, ha⟩

omit [DecidableEq E] in
theorem sent_worker_iff {o : List WorkerObs} {e e' : E} {p : NetPacket} :
    Sent (o.map (.worker e)) e' p ↔ e' = e ∧ p ∈ Worker.sentOf o := by
  unfold Sent
  rw [List.mem_map, Worker.mem_sentOf]
  constructor
  · rintro ⟨x, hx, he⟩
    cases he
    exact ⟨rfl, hx⟩
  · rintro ⟨rfl, hx⟩
    exact ⟨_, hx, rfl⟩

namespace Honest

variable {cfg : ServerConfig} {s : Conversation E D N} {o : List (ConversationObs E)}

omit [DecidableEq E] in
/-- Fewer datagrams, and programs as they may be. -/
theorem of_subset (h : Honest cfg s o) {parties : E → Party D N} {inFlight : List (Datagram E)}
    (hsub : ∀ d ∈ inFlight, d ∈ s.inFlight) : Honest cfg ⟨s.room, parties, inFlight⟩ o :=
  ⟨h.wellFormed, h.distinct, h.members, fun e data hd => h.up e data (hsub _ hd),
    fun r data hd => h.down r data (hsub _ hd)⟩

omit [DecidableEq E] in
/-- Something happens that is no sending. -/
theorem quiet (h : Honest cfg s o) {o' : List (ConversationObs E)} (hq : ∀ e p, ¬ Sent o' e p) : Honest cfg s (o ++ o') := by
  refine ⟨fun e p hs => ?_, h.distinct, fun e he => ?_, fun e data hd => ?_, fun r data hd => ?_⟩
  · rcases List.mem_append.mp hs with hs | hs
    · exact h.wellFormed e p hs
    · exact absurd hs (hq e p)
  · obtain ⟨p, hp⟩ := h.members e he
    exact ⟨p, hp.mono⟩
  · obtain ⟨p, hp, hdata⟩ := h.up e data hd
    exact ⟨p, hp.mono, hdata⟩
  · obtain ⟨⟨p, hp⟩, hspoken⟩ := h.down r data hd
    exact ⟨⟨p, hp.mono⟩, fun q hq => (hspoken q hq).mono⟩

omit [DecidableEq E] in
/-- A program sends something. -/
theorem sends (h : Honest cfg s o) (e : E) {o' : List WorkerObs} (hok : ∀ p ∈ Worker.sentOf o', LengthOK p.wholePacket)
    (parties : E → Party D N) :
    Honest cfg ⟨s.room, parties, s.inFlight ++ datagrams e o'⟩ (o ++ o'.map (.worker e)) := by
  refine ⟨fun e' p hs => ?_, h.distinct, fun e' he => ?_, fun e' data hd => ?_, fun r data hd => ?_⟩
  · rcases List.mem_append.mp hs with hs | hs
    · exact h.wellFormed e' p hs
    · exact hok p (sent_worker_iff.mp hs).2
  · obtain ⟨p, hp⟩ := h.members e' he
    exact ⟨p, hp.mono⟩
  · rcases List.mem_append.mp hd with hd | hd
    · obtain ⟨p, hp, hdata⟩ := h.up e' data hd
      exact ⟨p, hp.mono, hdata⟩
    · obtain ⟨p, hp, he⟩ := List.mem_map.mp hd
      cases he
      exact ⟨p, List.mem_append_right _ (sent_worker_iff.mpr ⟨rfl, hp⟩), rfl⟩
  · rcases List.mem_append.mp hd with hd | hd
    · obtain ⟨⟨p, hp⟩, haudio⟩ := h.down r data hd
      exact ⟨⟨p, hp.mono⟩, fun q hq => (haudio q hq).mono⟩
    · obtain ⟨p, -, he⟩ := List.mem_map.mp hd
      cases he

/-- The server handles a datagram of a packet that was sent. -/
theorem serves (h : Honest cfg s o) {e : E} {p : NetPacket}
    (hsent : Sent o e p) (env : Delivery) : Honest cfg (s.onServer cfg e p.header env) o := by
  obtain ⟨hroom, hto⟩ := @RawUdpServer.doReceive_endpoints E _ cfg s.room ⟨e, p.header, env.uptime, env.alloc⟩
    h.distinct
  have hjoined : ∀ e', e' = e ∨ e' ∈ s.room.endpoints → ∃ q, Sent o e' q := by
    rintro e' (rfl | he)
    · exact ⟨p, hsent⟩
    · exact h.members e' he
  refine ⟨h.wellFormed, RawUdpServer.distinct_onReceive cfg _ h.distinct, fun e' he => hjoined e' (hroom e' he),
    fun e' data hd => ?_, fun r data hd => ?_⟩
  · rcases List.mem_append.mp hd with hd | hd
    · exact h.up e' data hd
    · obtain ⟨x, -, he⟩ := List.mem_map.mp hd
      cases he
  · rcases List.mem_append.mp hd with hd | hd
    · exact h.down r data hd
    · obtain ⟨x, hx, he⟩ := List.mem_map.mp hd
      cases he
      refine ⟨hjoined x.1 (hto x hx), fun q hq => ?_⟩
      obtain ⟨hdata, hother⟩ := RawUdpServer.audio_doReceive h.distinct hx hq
      rw [audioOf_header (h.wellFormed e p hsent)] at hdata
      split at hdata
      · rename_i hfit
        cases hdata
        exact ⟨e, hother, hsent, hfit.2⟩
      · cases hdata

end Honest

/-- Why a packet may be given to a loudspeaker: one that is heard there spoke it, it fits the
buffers, and whoever hears it has sent something. -/
def Heard (cfg : ServerConfig) (o : List (ConversationObs E)) : ConversationObs E → Prop
  | .down r (.appended a) =>
    SpokenTo cfg o r a.packet ∧ (∃ p, Sent o r p) ∧ a.packet.header.length ≤ RawUdpServer.max_length
  | _ => True

section

variable {cfg : ServerConfig} {dec : Decoders D N} {v : E → Version} {s : Conversation E D N}
variable {o : List (ConversationObs E)}

omit [DecidableEq E] in
/-- Nothing that a worker puts out is a packet for a loudspeaker. -/
theorem heard_worker {e : E} {o' : List WorkerObs} {pre post : List (ConversationObs E)} {x : ConversationObs E}
    (h : o'.map (.worker e) = pre ++ x :: post) : Heard cfg (o ++ pre) x := by
  have hx : x ∈ o'.map (.worker e) := by
    rw [h]
    simp
  obtain ⟨y, -, rfl⟩ := List.mem_map.mp hx
  exact trivial

/-- **A client on a datagram in flight.** -/
theorem honest_onClient (h : Honest cfg s o) {r : E} {data : Bytes} (hd : .toClient r data ∈ s.inFlight) (env : Delivery)
    (beyond : PcmSegment) {rest : List (Datagram E)} (hsub : ∀ d ∈ rest, d ∈ s.inFlight) {s' : Conversation E D N}
    {o' : List (ConversationObs E)}
    (hstep : ({ s with inFlight := rest } : Conversation E D N).onClient dec v r data env beyond = (s', o')) :
    Honest cfg s' (o ++ o') ∧ ∀ pre x post, o' = pre ++ x :: post → Heard cfg (o ++ pre) x := by
  obtain ⟨hjoined, haudio⟩ := h.down r data hd
  have hcases := onClient_cases dec v { s with inFlight := rest } r data env beyond
  rw [hstep] at hcases
  cases hcases with
  | ignored hno =>
    rw [List.append_nil]
    exact ⟨h.of_subset hsub, fun pre x post he => by simp at he⟩
  | answered worker o' hno hframe ho =>
    refine ⟨(h.of_subset hsub).sends r (fun p hp => ?_) _, fun pre x post he => heard_worker he⟩
    rcases ho with ho | ho <;> rw [ho] at hp
    · cases hp
    · rw [List.mem_singleton.mp hp]
      exact (format_ofType ..).2
  | heard p hp hup =>
    refine ⟨(h.of_subset hsub).quiet fun e q hs => ?_, fun pre x post he => ?_⟩
    · cases List.mem_singleton.mp hs
    · rcases pre with _ | ⟨y, pre⟩
      · obtain ⟨rfl, -⟩ := List.cons.inj he
        rw [List.append_nil]
        have hpacket : ((s.parties r).down.append dec p beyond).2.packet = p := rfl
        have hfit := (lengthOK_of_makePacket (audioOf_some_iff.mp hp).1).2
        refine ⟨haudio p hp, hjoined, hfit.trans ?_⟩
        rw [List.length_take]
        exact min_le_left _ _
      · simp at he

/-- **One step**. -/
theorem honest_step {c : FadeCurve K} {a : ConversationAction E}
    {s' : Conversation E D N} {o' : List (ConversationObs E)} (h : Honest cfg s o)
    (hstep : s.step cfg dec c v a = some (s', o')) :
    Honest cfg s' (o ++ o') ∧ ∀ pre x post, o' = pre ++ x :: post → Heard cfg (o ++ pre) x := by
  cases a with
  | worker e a =>
    simp only [step] at hstep
    split at hstep
    · cases hstep
    · split at hstep
      · cases hstep
      · rename_i worker ow hw
        cases hstep
        exact ⟨h.sends e (fun p hp => (Worker.sent_step hw p hp).1) _, fun pre x post he => heard_worker he⟩
  | fetch e =>
    simp only [step] at hstep
    split at hstep
    · cases hstep
    · rename_i r hr
      cases hstep
      refine ⟨(h.of_subset fun d hd => hd).quiet fun e' q hs => ?_, fun pre x post he => ?_⟩
      · cases List.mem_singleton.mp hs
      · rcases pre with _ | ⟨y, pre⟩
        · obtain ⟨rfl, -⟩ := List.cons.inj he
          exact trivial
        · simp at he
  | deliver i env beyond again =>
    simp only [step] at hstep
    have hsub : ∀ d ∈ (if again = true then s.inFlight else s.inFlight.eraseIdx i), d ∈ s.inFlight := by
      intro d hd
      split at hd
      · exact hd
      · exact List.mem_of_mem_eraseIdx hd
    split at hstep
    · cases hstep
    · rename_i e data hd
      cases hstep
      obtain ⟨p, hp, rfl⟩ := h.up e data (List.mem_of_getElem? hd)
      rw [List.append_nil]
      exact ⟨(h.of_subset hsub).serves hp env, fun pre x post he => by simp at he⟩
    · rename_i r data hd
      exact honest_onClient h (List.mem_of_getElem? hd) env beyond hsub (Option.some.inj hstep)
  | lose i =>
    simp only [step] at hstep
    split at hstep
    · cases hstep
      rw [List.append_nil]
      exact ⟨h.of_subset fun d hd => List.mem_of_mem_eraseIdx hd, fun pre x post he => by simp at he⟩
    · cases hstep

end

end Conversation

open Conversation

/-- **What is heard was spoken.** In every run, whatever the network loses, repeats or
reorders: a packet given to the loudspeaker at `r` is an audio packet that an endpoint other than
`r`, or in echo mode `r` itself, sent before, byte for byte, and of at most 1024 bytes; and `r` has
sent something before. -/
theorem heard_was_spoken {E : Type*} [DecidableEq E] {D N K : Type} [Field K] [LinearOrder K] [FloorRing K]
    (cfg : ServerConfig) (dec : Decoders D N) (c : FadeCurve K) (v : E → Version)
    (needAec durationReporter : E → Bool) (d : D) (n : N) (as : List (ConversationAction E))
    (s : Conversation E D N) (o : List (ConversationObs E))
    (h : Conversation.exec cfg dec c v needAec durationReporter d n as = some (s, o))
    (pre post : List (ConversationObs E)) (r : E) (a : Appended) (ho : o = pre ++ .down r (.appended a) :: post) :
    (∃ e, RawUdpServer.Hears cfg e r ∧ .worker e (.sent a.packet) ∈ pre) ∧ a.packet.isAudio = true ∧
    a.packet.header.length ≤ 1024 ∧ ∃ p, .worker r (.sent p) ∈ pre := by
  have hstart : Honest cfg (start needAec durationReporter d n) [] :=
    ⟨fun _ _ hs => absurd hs List.not_mem_nil, fun x hx => absurd hx (PtrSet.not_mem_empty x),
      fun _ he => absurd he List.not_mem_nil, fun _ _ hd => absurd hd List.not_mem_nil,
      fun _ _ hd => absurd hd List.not_mem_nil⟩
  obtain ⟨-, hcause⟩ := Lts.cause_rule (Conversation.step cfg dec c v) (Honest cfg) (Heard cfg) hstart
    (fun _ _ _ _ _ hP hstep => honest_step hP hstep) h
  obtain ⟨⟨e, hne, hsent, ha⟩, hjoined, hfit⟩ := hcause pre _ post ho
  exact ⟨⟨e, hne, hsent⟩, ha, hfit, hjoined⟩

/-- The first datagram in flight arrives. -/
def sampleDeliver {E : Type} (again : Bool) : ConversationAction E :=
  .deliver 0 ⟨0, 0, Allocator.bump, true⟩ PcmSegment.silence again

/-- The program at `e` logs in, and its call begins. -/
def sampleJoin {E : Type} (e : E) : List (ConversationAction E) :=
  sampleLogin.map (.worker e) ++ List.replicate 2 (sampleDeliver false) ++
    (List.replicate 5 sampleNet).map (.worker e)

/-- The second program hears a block of the first, and it hears it twice. -/
def sampleTalk : List (ConversationAction ℕ) :=
  sampleJoin 2 ++ sampleJoin 1 ++
    [.worker 1 .callback, .worker 1 sampleAudio, sampleDeliver false, sampleDeliver true, sampleDeliver false]

/-- What is heard there was spoken by the first. -/
theorem heard_was_spoken_talk : ∃ s o pre post a,
    Conversation.exec RawUdpSpec.sampleConfig sampleDecoders sampleCurve (fun _ => sampleVersion) (fun _ => false)
      (fun _ => false) () () sampleTalk = some (s, o) ∧
    (heardBy 2 o).length = 2 ∧ o = pre ++ .down 2 (.appended a) :: post ∧
    ∃ e, e ≠ 2 ∧ .worker e (.sent a.packet) ∈ pre := by
  have hrun : Conversation.exec RawUdpSpec.sampleConfig sampleDecoders sampleCurve (fun _ => sampleVersion)
      (fun _ => false) (fun _ => false) () () sampleTalk = some (_, _) := rfl
  have hlen : (heardBy 2 (Prod.snd (Option.get _ (congrArg Option.isSome hrun)))).length = 2 := rfl
  obtain ⟨p, hp⟩ := List.exists_mem_of_length_pos (hlen ▸ Nat.zero_lt_two)
  obtain ⟨a, ha, -⟩ := mem_heardBy.mp hp
  obtain ⟨pre, post, hsplit⟩ := List.append_of_mem ha
  obtain ⟨⟨e, hears, hsent⟩, -⟩ := heard_was_spoken _ _ _ _ _ _ _ _ _ _ _ hrun pre post 2 a hsplit
  rw [RawUdpServer.Hears, if_neg (by decide)] at hears
  exact ⟨_, _, pre, post, a, hrun, hlen, hsplit, e, hears.symm, hsent⟩

end EasyVoiceCall
