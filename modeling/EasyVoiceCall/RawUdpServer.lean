/-
# The UDP server

`server/RawUdpServer.{hpp,cpp}`. The room is a `std::set` of pointers to
connections, one connection an endpoint: a datagram from an endpoint that has
none adds one (`RawUdpRoom.insert`), before its bytes are looked at, and a
`LogoutRequest` erases its sender's. The switch over the packet's type is the
same in the TCP server's room and is written once (`Request`, `replies`).

What a datagram does to the room and what it sends is said once, in
`mem_onReceive` and `onReceive_sends`; every invariant is derived from these.

Key theorems: `RawUdpRoom.connect_spec`, `RawUdpServer.mem_endpoints_onReceive`,
`RawUdpServer.onReceive_sends`.
-/
import EasyVoiceCall.MakePacket
import EasyVoiceCall.Lib.Machine
import EasyVoiceCall.Lib.PtrSet

namespace EasyVoiceCall

open Buffer NetPacket

/-- What the build and the command line fix: the version string and the global
`isEchoMode`. -/
structure ServerConfig where
  version : Version
  isEchoMode : Bool

/-! ### The switch over the payload type -/

/-- The `case` labels of `processClientMessagePayload`. -/
inductive Request
  | heartBeat
  | media
  | login
  | logout
  | other
  deriving DecidableEq

/-- The label a packet's type falls under. -/
def NetPacket.request (msg : NetPacket) : Request :=
  if msg.payloadType = .HeartBeatRequest then .heartBeat
  else if msg.payloadType = .TextMessage ∨ msg.payloadType = .AudioMessage ∨
    msg.payloadType = .AudioMessage_CN then .media
  else if msg.payloadType = .LoginRequest then .login
  else if msg.payloadType = .LogoutRequest then .logout
  else .other

theorem request_eq_media_iff (msg : NetPacket) : msg.request = .media ↔ msg.isMediaType = true := by
  unfold NetPacket.request NetPacket.isMediaType
  split_ifs with h1 h2 h3 h4
  · simp [h1, PayloadType.HeartBeatRequest, PayloadType.TextMessage, PayloadType.AudioMessage,
      PayloadType.AudioMessage_CN]
  · simp only [true_iff, Bool.or_eq_true, decide_eq_true_eq]
    tauto
  all_goals
    simp only [false_iff, Bool.or_eq_true, decide_eq_true_eq]
    tauto

theorem request_eq_login_iff (msg : NetPacket) :
    msg.request = .login ↔ msg.payloadType = .LoginRequest := by
  unfold NetPacket.request
  split_ifs with h1 h2 h3 h4
  · simp [h1, PayloadType.HeartBeatRequest, PayloadType.LoginRequest]
  · rcases h2 with h2 | h2 | h2 <;>
      simp [h2, PayloadType.TextMessage, PayloadType.AudioMessage, PayloadType.AudioMessage_CN,
        PayloadType.LoginRequest]
  all_goals simp [h3]

theorem request_eq_logout_iff (msg : NetPacket) :
    msg.request = .logout ↔ msg.payloadType = .LogoutRequest := by
  unfold NetPacket.request
  split_ifs with h1 h2 h3 h4
  · simp [h1, PayloadType.HeartBeatRequest, PayloadType.LogoutRequest]
  · rcases h2 with h2 | h2 | h2 <;>
      simp [h2, PayloadType.TextMessage, PayloadType.AudioMessage, PayloadType.AudioMessage_CN,
        PayloadType.LogoutRequest]
  · simp [h3, PayloadType.LoginRequest, PayloadType.LogoutRequest]
  all_goals simp [h4]

/-- The packets the switch sends, each with the participant it goes to. `uptime`
is the clock reading of a response it builds. -/
def replies {P : Type*} [DecidableEq P] (cfg : ServerConfig) (uptime : UInt32) (msg : NetPacket)
    (sender : P) (participants : List P) : List (P × NetPacket) :=
  match msg.request with
  | .heartBeat => [(sender, ofType cfg.version uptime .HeartBeatResponse 0)]
  | .media =>
    if cfg.isEchoMode then [(sender, msg)]
    else (participants.filter (· ≠ sender)).map fun participant => (participant, msg)
  | .login => [(sender, ofType cfg.version uptime .LoginResponse 0)]
  | .logout => []
  | .other => []

theorem isMediaType_ofType (v : Version) (up : UInt32) (t : PayloadType) (sn : UInt32) :
    (ofType v up t sn).isMediaType = true ↔ t = .AudioMessage_CN ∨ t = .AudioMessage ∨ t = .TextMessage := by
  simp [isMediaType, or_assoc]

/-- In broadcast mode the replies that are media are the received packet itself,
to the other participants. -/
theorem mem_replies_media {P : Type*} [DecidableEq P] {cfg : ServerConfig} (hb : cfg.isEchoMode = false)
    {up : UInt32} {msg : NetPacket} {sender : P} {ps : List P} {d : P × NetPacket}
    (hd : d ∈ replies cfg up msg sender ps) (hm : d.2.isMediaType = true) :
    msg.request = .media ∧ d.2 = msg ∧ d.1 ∈ ps ∧ d.1 ≠ sender := by
  unfold replies at hd
  split at hd
  · rw [List.mem_singleton.mp hd, isMediaType_ofType] at hm
    simp [PayloadType.HeartBeatResponse, PayloadType.AudioMessage_CN, PayloadType.AudioMessage,
      PayloadType.TextMessage] at hm
  · rename_i hreq
    rw [hb] at hd
    obtain ⟨r, hr, rfl⟩ := List.mem_map.mp hd
    obtain ⟨hr, hne⟩ := List.mem_filter.mp hr
    exact ⟨hreq, rfl, hr, by simpa using hne⟩
  · rw [List.mem_singleton.mp hd, isMediaType_ofType] at hm
    simp [PayloadType.LoginResponse, PayloadType.AudioMessage_CN, PayloadType.AudioMessage,
      PayloadType.TextMessage] at hm
  · cases hd
  · cases hd

variable {E : Type*} [DecidableEq E]

/-! ### Connections and the room -/

/-- A `std::shared_ptr<RawUdpConnection>`: the object's address and its
`remote_endpoint_`. -/
structure RawUdpConnection (E : Type*) where
  addr : ℕ
  remote_endpoint : E
  deriving DecidableEq

/-- `peers_`. -/
abbrev RawUdpRoom (E : Type*) := PtrSet (RawUdpConnection E) RawUdpConnection.addr

/-- A datagram the socket handed over, with what the system provides while it
is handled: the clock and the allocator. -/
structure Received (E : Type*) where
  endpoint : E
  data : Bytes
  uptime : UInt32
  alloc : Allocator

/-- `send`: the datagram handed to `async_send_to`. -/
def RawUdpConnection.send (self : RawUdpConnection E) (msg : NetPacket) : E × Bytes :=
  (self.remote_endpoint, msg.header)

namespace RawUdpRoom

/-- `findPeer`: the first connection to the endpoint. -/
def findPeer (room : RawUdpRoom E) (endpoint : E) : Option (RawUdpConnection E) :=
  room.toList.find? fun peer => peer.remote_endpoint = endpoint

/-- `kickMeOut`. -/
def kickMeOut (room : RawUdpRoom E) (me : RawUdpConnection E) : RawUdpRoom E := room.erase me

end RawUdpRoom

/-- `RawUdpPriv::processClientMessagePayload`. -/
def RawUdpPriv.processClientMessagePayload (cfg : ServerConfig) (uptime : UInt32) (msg : NetPacket)
    (sender : RawUdpConnection E) (room : RawUdpRoom E) : RawUdpRoom E × List (E × Bytes) :=
  (if msg.request = .logout then room.kickMeOut sender else room,
    (replies cfg uptime msg sender room.toList).map fun s => s.1.send s.2)

/-- `RawUdpConnection::onReceived`. -/
def RawUdpConnection.onReceived (cfg : ServerConfig) (rx : Received E) (self : RawUdpConnection E)
    (room : RawUdpRoom E) : RawUdpRoom E × List (E × Bytes) :=
  match makePacket cfg.version rx.uptime rx.data with
  | some newPacket => RawUdpPriv.processClientMessagePayload cfg rx.uptime newPacket self room
  | none => (room, [])

namespace RawUdpRoom

/-- The first half of `insert`: the endpoint's connection, made where there is
none. -/
def connect (room : RawUdpRoom E) (rx : Received E) : RawUdpConnection E × RawUdpRoom E :=
  match room.findPeer rx.endpoint with
  | some peer => (peer, room)
  | none =>
    let peer := ⟨rx.alloc.next room.keys, rx.endpoint⟩
    (peer, PtrSet.insert peer room)

/-- `RawUdpRoom::insert`. -/
def insert (cfg : ServerConfig) (room : RawUdpRoom E) (rx : Received E) :
    RawUdpRoom E × List (E × Bytes) :=
  let (peer, room) := room.connect rx
  peer.onReceived cfg rx room

/-- The endpoints of the room, one for each connection. -/
def endpoints (room : RawUdpRoom E) : List E := room.toList.map (·.remote_endpoint)

end RawUdpRoom

/-- The handler of `doReceive`, where the receive did not fail: the room
afterwards and the datagrams sent. -/
def RawUdpServer.onReceive (cfg : ServerConfig) (room : RawUdpRoom E) (rx : Received E) :
    RawUdpRoom E × List (E × Bytes) :=
  if 0 < rx.data.length then room.insert cfg rx else (room, [])

/-- The packet a datagram carries, if the server accepts it. -/
def Received.packet (cfg : ServerConfig) (rx : Received E) : Option NetPacket :=
  RawUdpConnection.makePacket cfg.version rx.uptime rx.data

/-- The datagram is accepted as a `LogoutRequest`. -/
def Received.isLogout (cfg : ServerConfig) (rx : Received E) : Bool :=
  match rx.packet cfg with
  | some p => p.payloadType = .LogoutRequest
  | none => false

/-! ### What a datagram does -/

namespace RawUdpRoom

/-- No endpoint has two connections. -/
def Distinct (room : RawUdpRoom E) : Prop :=
  ∀ a ∈ room, ∀ b ∈ room, a.remote_endpoint = b.remote_endpoint → a = b

omit [DecidableEq E] in
theorem nodup_endpoints {room : RawUdpRoom E} (h : room.Distinct) : room.endpoints.Nodup :=
  room.nodup.map_on fun a ha b hb => h a ha b hb

omit [DecidableEq E] in
theorem mem_endpoints {room : RawUdpRoom E} {e : E} :
    e ∈ room.endpoints ↔ ∃ c ∈ room, c.remote_endpoint = e := by
  simp [endpoints]

theorem findPeer_some {room : RawUdpRoom E} {e : E} {c : RawUdpConnection E}
    (h : room.findPeer e = some c) : c ∈ room ∧ c.remote_endpoint = e :=
  ⟨List.mem_of_find?_eq_some h, by simpa using List.find?_some h⟩

theorem findPeer_none {room : RawUdpRoom E} {e : E} (h : room.findPeer e = none) :
    ∀ c ∈ room, c.remote_endpoint ≠ e := by
  intro c hc
  simpa using List.find?_eq_none.mp h c hc

/-- After the first half of `insert` the endpoint has a connection, and the
other connections are as before. -/
theorem connect_spec (room : RawUdpRoom E) (rx : Received E) :
    (room.connect rx).1.remote_endpoint = rx.endpoint ∧
    (room.connect rx).1 ∈ (room.connect rx).2 ∧
    (∀ c, c ∈ (room.connect rx).2 ↔ c = (room.connect rx).1 ∨ c ∈ room) ∧
    (room.Distinct → (room.connect rx).2.Distinct) := by
  unfold connect
  rcases hf : room.findPeer rx.endpoint with _ | peer
  · have hk : rx.alloc.next room.keys ∉ room.keys := rx.alloc.fresh _
    have hm : ∀ c, c ∈ PtrSet.insert (⟨rx.alloc.next room.keys, rx.endpoint⟩ : RawUdpConnection E) room ↔
        c = ⟨rx.alloc.next room.keys, rx.endpoint⟩ ∨ c ∈ room := fun c => PtrSet.mem_insert_of_fresh hk
    refine ⟨rfl, (hm _).mpr (Or.inl rfl), hm, fun hd a ha b hb hab => ?_⟩
    have hnew := findPeer_none hf
    rcases (hm a).mp ha with rfl | ha
    · rcases (hm b).mp hb with rfl | hb
      · rfl
      · exact absurd hab.symm (hnew b hb)
    · rcases (hm b).mp hb with rfl | hb
      · exact absurd hab (hnew a ha)
      · exact hd a ha b hb hab
  · obtain ⟨hp, he⟩ := findPeer_some hf
    refine ⟨he, hp, fun c => ⟨Or.inr, ?_⟩, id⟩
    rintro (rfl | hc)
    · exact hp
    · exact hc

/-- A connection that is already there is used as it is. -/
theorem connect_of_mem {room : RawUdpRoom E} {rx : Received E} (h : rx.endpoint ∈ room.endpoints) :
    (room.connect rx).2 = room := by
  unfold connect
  rcases hf : room.findPeer rx.endpoint with _ | peer
  · obtain ⟨c, hc, he⟩ := mem_endpoints.mp h
    exact absurd he (findPeer_none hf c hc)
  · rfl

/-- A new endpoint gets a new connection. -/
theorem connect_of_not_mem {room : RawUdpRoom E} {rx : Received E} (h : rx.endpoint ∉ room.endpoints) :
    ∃ c : RawUdpConnection E, c.remote_endpoint = rx.endpoint ∧ c.addr ∉ room.keys ∧
      (room.connect rx).2 = PtrSet.insert c room := by
  unfold connect
  rcases hf : room.findPeer rx.endpoint with _ | peer
  · exact ⟨⟨rx.alloc.next room.keys, rx.endpoint⟩, rfl, rx.alloc.fresh _, rfl⟩
  · exact absurd (mem_endpoints.mpr ⟨peer, findPeer_some hf⟩) h

end RawUdpRoom

namespace RawUdpServer

open RawUdpRoom

/-- The room after a datagram: its sender is in it unless it logged out, and
nothing else changes. -/
theorem mem_onReceive (cfg : ServerConfig) (room : RawUdpRoom E) {rx : Received E} (hne : rx.data ≠ [])
    (c : RawUdpConnection E) : c ∈ (onReceive cfg room rx).1 ↔
      (c = (room.connect rx).1 ∨ c ∈ room) ∧ (rx.isLogout cfg = true → c ≠ (room.connect rx).1) := by
  obtain ⟨-, hself, hmem, -⟩ := connect_spec room rx
  have hpos : 0 < rx.data.length := List.length_pos_iff.mpr hne
  rw [onReceive, if_pos hpos, ← hmem]
  change c ∈ ((room.connect rx).1.onReceived cfg rx (room.connect rx).2).1 ↔ _
  unfold RawUdpConnection.onReceived Received.isLogout Received.packet
  rcases RawUdpConnection.makePacket cfg.version rx.uptime rx.data with _ | p
  · simp
  · dsimp only [RawUdpPriv.processClientMessagePayload]
    simp only [request_eq_logout_iff]
    by_cases hl : p.payloadType = .LogoutRequest
    · rw [if_pos hl, kickMeOut, PtrSet.mem_erase]
      refine and_congr_right fun hc => ?_
      simp only [hl, decide_true, forall_const]
      exact not_congr ⟨PtrSet.key_inj _ hc hself, fun h => h ▸ rfl⟩
    · rw [if_neg hl]
      simp [hl]

theorem distinct_onReceive (cfg : ServerConfig) {room : RawUdpRoom E} (rx : Received E)
    (h : room.Distinct) : (onReceive cfg room rx).1.Distinct := by
  by_cases hne : rx.data = []
  · rw [onReceive, if_neg (by simp [hne])]
    exact h
  · obtain ⟨-, -, hmem, hd⟩ := connect_spec room rx
    intro a ha b hb
    rw [mem_onReceive cfg room hne, ← hmem] at ha hb
    exact hd h a ha.1 b hb.1

/-- The same, on endpoints. -/
theorem mem_endpoints_onReceive (cfg : ServerConfig) {room : RawUdpRoom E} (h : room.Distinct)
    {rx : Received E} (hne : rx.data ≠ []) (e : E) : e ∈ (onReceive cfg room rx).1.endpoints ↔
      if rx.endpoint = e then rx.isLogout cfg = false else e ∈ room.endpoints := by
  obtain ⟨hep, hself, hmem, hd⟩ := connect_spec room rx
  simp only [mem_endpoints, mem_onReceive cfg room hne]
  split
  · rename_i he
    subst he
    constructor
    · rintro ⟨c, ⟨hc, hl⟩, hce⟩
      have hcs := hd h c ((hmem c).mpr hc) _ hself (hce.trans hep.symm)
      cases hlog : rx.isLogout cfg
      · rfl
      · exact absurd hcs (hl hlog)
    · intro hlog
      exact ⟨_, ⟨Or.inl rfl, fun hc => by rw [hlog] at hc; cases hc⟩, hep⟩
  · rename_i he
    constructor
    · rintro ⟨c, ⟨hc | hc, -⟩, hce⟩
      · exact absurd (hep.symm.trans (hc ▸ hce)) he
      · exact ⟨c, hc, hce⟩
    · rintro ⟨c, hc, hce⟩
      exact ⟨c, ⟨Or.inr hc, fun _ hcs => he (hep.symm.trans (hcs ▸ hce))⟩, hce⟩

/-- What a datagram sends: the replies of the switch, to the room with the
sender in it. -/
theorem onReceive_sends (cfg : ServerConfig) (room : RawUdpRoom E) {rx : Received E}
    (hne : rx.data ≠ []) : (onReceive cfg room rx).2 =
      match rx.packet cfg with
      | none => []
      | some p => (replies cfg rx.uptime p (room.connect rx).1 (room.connect rx).2.toList).map
          fun s => s.1.send s.2 := by
  have hpos : 0 < rx.data.length := List.length_pos_iff.mpr hne
  rw [onReceive, if_pos hpos]
  change ((room.connect rx).1.onReceived cfg rx (room.connect rx).2).2 = _
  unfold RawUdpConnection.onReceived Received.packet
  rcases RawUdpConnection.makePacket cfg.version rx.uptime rx.data with _ | p <;> rfl

end RawUdpServer
end EasyVoiceCall
