/-
# No packet storm

Clients and the UDP server answer datagrams with datagrams: the server answers
heartbeats and logins, and sends media on to the room; a client answers a
`HeartBeatRequest`. Nothing answers an answer. So where no client sends anything
on its own any more, the datagrams in flight and those they give rise to come to
an end, in whatever order they are delivered, and whatever is in them
(`no_packet_storm`).

A `Network` is the room and the clients' workers; the datagrams between them are
the messages of `Lib/Flight.lean`. The room grows while they are delivered, but
only by endpoints that a datagram is from or for.

Key theorems: `no_packet_storm`, `Network.handle_spec`.
-/
import EasyVoiceCall.Lib.Flight
import EasyVoiceCall.Marker
import EasyVoiceCall.Stop

namespace EasyVoiceCall

open Buffer NetPacket

/-- A datagram between an endpoint and the server. -/
inductive Datagram (E : Type*)
  | toServer (endpoint : E) (data : Bytes)
  | toClient (endpoint : E) (data : Bytes)

/-- The endpoint at the other end than the server's. -/
def Datagram.endpoint {E : Type*} : Datagram E → E
  | .toServer endpoint _ => endpoint
  | .toClient endpoint _ => endpoint

/-- What the system provides while a datagram is handled: the clock, the allocator,
and whether a socket takes the answer. -/
structure Delivery where
  now : UInt32
  uptime : UInt32
  alloc : Allocator
  ok : Bool

/-- The room of the server, and the workers of the endpoints that have one. -/
structure Network (E : Type*) where
  room : RawUdpRoom E
  workers : E → Option Worker

namespace Network

variable {E : Type*} [DecidableEq E]

/-- The client at the endpoint, on a datagram: a round of its receive loop. -/
def onClient (v : E → Version) (self : Network E) (endpoint : E) (data : Bytes) (env : Delivery) :
    Network E × List (Datagram E) :=
  match self.workers endpoint, RawUdpClientImpl.receive (v endpoint) env.now data with
  | some worker, some netPacket =>
    match worker.receiveStep (v endpoint) netPacket.payloadType env.ok env.uptime with
    | some (worker, o) =>
      ({ self with workers := Function.update self.workers endpoint (some worker) },
        (Worker.sentOf o).map fun p => .toServer endpoint (RawUdpClientImpl.send p))
    | none => (self, [])
  | _, _ => (self, [])

/-- The server, on a datagram. -/
def onServer (cfg : ServerConfig) (self : Network E) (endpoint : E) (data : Bytes) (env : Delivery) :
    Network E × List (Datagram E) :=
  let r := RawUdpServer.doReceive cfg self.room ⟨endpoint, data, env.uptime, env.alloc⟩
  ({ self with room := r.1 }, r.2.map fun s => .toClient s.1 s.2)

def handle (cfg : ServerConfig) (v : E → Version) (self : Network E) (d : Datagram E) (env : Delivery) :
    Network E × List (Datagram E) :=
  match d with
  | .toServer endpoint data => self.onServer cfg endpoint data env
  | .toClient endpoint data => self.onClient v endpoint data env

/-! ### The weight of a datagram -/

/-- The server may answer it, or send it on. -/
def answerable (cfg : ServerConfig) (data : Bytes) : Bool :=
  match RawUdpConnection.makePacket cfg.version 0 (data.take RawUdpServer.max_length) with
  | some p => p.request ≠ .other
  | none => false

/-- One for the datagram itself; for each that the server may send because of it,
at most one more than the room has connections, another two: one for that, and
one for a client's answer to it. -/
def weightOf (cfg : ServerConfig) (n : ℕ) : Datagram E → ℕ
  | .toServer _ data => if answerable cfg data then 1 + 2 * (n + 1) else 1
  | .toClient _ _ => 2

/-- The endpoints of the room are among `es`, each with one connection. -/
structure Within (es : List E) (net : Network E) : Prop where
  distinct : net.room.Distinct
  known : ∀ e ∈ net.room.endpoints, e ∈ es

theorem length_replies {P : Type*} [DecidableEq P] (cfg : ServerConfig) (up : UInt32) (msg : NetPacket) (sender : P)
    (ps : List P) : (replies cfg up msg sender ps).length ≤ ps.length + 1 := by
  unfold replies
  split
  · simp
  · split
    · simp
    · have hfilter := List.length_filter_le (fun p => decide (p ≠ sender)) ps
      rw [List.length_map]
      omega
  · simp
  · simp
  · simp

theorem replies_other {P : Type*} [DecidableEq P] {cfg : ServerConfig} {up : UInt32} {msg : NetPacket} {sender : P}
    {ps : List P} (h : msg.request = .other) : replies cfg up msg sender ps = [] := by
  unfold replies
  rw [h]

omit [DecidableEq E] in
theorem weight_toClient (cfg : ServerConfig) (n : ℕ) (sends : List (E × Bytes)) :
    Flight.weight (weightOf cfg n) (sends.map fun s => .toClient s.1 s.2) = 2 * sends.length := by
  have hconst : (sends.map fun s => weightOf cfg n (.toClient s.1 s.2)) = List.replicate sends.length 2 :=
    List.map_const' ..
  rw [Flight.weight, List.map_map]
  show (sends.map fun s => weightOf cfg n (.toClient s.1 s.2)).sum = _
  rw [hconst, List.sum_replicate_nat, Nat.mul_comm]

omit [DecidableEq E] in
/-- A connection for each endpoint. -/
theorem Within.length_le {es : List E} {self : Network E} (h : Within es self) :
    self.room.toList.length ≤ es.length := by
  have hnodup := RawUdpRoom.nodup_endpoints h.distinct
  have hlen : self.room.endpoints.length = self.room.toList.length := List.length_map _
  have hsub := (List.subperm_of_subset hnodup h.known).length_le
  omega

theorem onReceive_nil (cfg : ServerConfig) (room : RawUdpRoom E) {rx : Received E} (h : rx.data = []) :
    RawUdpServer.onReceive cfg room rx = (room, []) := by
  rw [RawUdpServer.onReceive, h]
  rfl

section Receive

variable {cfg : ServerConfig} {es : List E} {self : Network E} {rx : Received E}
variable (hw : Within es self) (he : rx.endpoint ∈ es)
include hw he

/-- The room with the sender in it. -/
theorem within_connect : Within es { self with room := (self.room.connect rx).2 } := by
  obtain ⟨hep, -, hmem, hdistinct⟩ := self.room.connect_spec rx
  refine ⟨hdistinct hw.distinct, fun e hin => ?_⟩
  obtain ⟨c, hc, rfl⟩ := RawUdpRoom.mem_endpoints.mp hin
  rcases (hmem c).mp hc with rfl | hc
  · rw [hep]
    exact he
  · exact hw.known _ (RawUdpRoom.mem_endpoints.mpr ⟨c, hc, rfl⟩)

/-- The room after the datagram. -/
theorem within_onReceive : Within es { self with room := (RawUdpServer.onReceive cfg self.room rx).1 } := by
  by_cases hne : rx.data = []
  · rw [onReceive_nil cfg self.room hne]
    exact hw
  refine ⟨RawUdpServer.distinct_onReceive cfg rx hw.distinct, fun e hin => ?_⟩
  rw [RawUdpServer.mem_endpoints_onReceive cfg hw.distinct hne] at hin
  split at hin
  · rename_i heq
    exact heq ▸ he
  · exact hw.known e hin

/-- What is sent goes to the endpoints. -/
theorem sends_within : ∀ s ∈ (RawUdpServer.onReceive cfg self.room rx).2, s.1 ∈ es := by
  intro s hs
  by_cases hne : rx.data = []
  · rw [onReceive_nil cfg self.room hne] at hs
    cases hs
  rw [RawUdpServer.onReceive_sends cfg self.room hne] at hs
  split at hs
  · cases hs
  · obtain ⟨c, hc, rfl⟩ := List.mem_map.mp hs
    have hin : c.1 ∈ (self.room.connect rx).2 := by
      rcases mem_replies_fst hc with hself | hin
      · rw [hself]
        exact ((self.room.connect_spec rx).2.2.1 _).mpr (Or.inl rfl)
      · exact hin
    exact (within_connect hw he).known _ (RawUdpRoom.mem_endpoints.mpr ⟨c.1, hin, rfl⟩)

/-- Nothing is sent on a datagram that is not answerable, and no more than one
datagram for each endpoint and one for the sender on any other. -/
theorem length_sends {data : Bytes} (hdata : rx.data = data.take RawUdpServer.max_length) :
    (RawUdpServer.onReceive cfg self.room rx).2.length ≤ if answerable cfg data then es.length + 1 else 0 := by
  by_cases hne : rx.data = []
  · rw [onReceive_nil cfg self.room hne]
    exact Nat.zero_le _
  have hsends := RawUdpServer.onReceive_sends cfg self.room hne
  have hpacket : rx.packet cfg = RawUdpConnection.makePacket cfg.version 0 (data.take RawUdpServer.max_length) := by
    rw [Received.packet, hdata]
    exact RawUdpConnection.makePacket_congr ..
  rw [hpacket] at hsends
  rcases hp : RawUdpConnection.makePacket cfg.version 0 (data.take RawUdpServer.max_length) with _ | p
  · rw [hp] at hsends
    rw [hsends]
    exact Nat.zero_le _
  rw [hp] at hsends
  dsimp only at hsends
  by_cases hother : p.request = .other
  · rw [hsends, replies_other hother]
    exact Nat.zero_le _
  · have hanswer : answerable cfg data = true := by
      unfold answerable
      rw [hp]
      exact decide_eq_true hother
    have hlen := length_replies cfg rx.uptime p (self.room.connect rx).1 (self.room.connect rx).2.toList
    have hroomlen : (self.room.connect rx).2.toList.length ≤ es.length := (within_connect hw he).length_le
    rw [if_pos hanswer, hsends, List.length_map]
    omega

end Receive

/-- **The server on a datagram** stays within the endpoints, and sends less than the
datagram weighs. -/
theorem onServer_spec {cfg : ServerConfig} {es : List E} {self : Network E} (hw : Within es self) {endpoint : E}
    (he : endpoint ∈ es) (data : Bytes) (env : Delivery) :
    Within es (self.onServer cfg endpoint data env).1 ∧
    (∀ d ∈ (self.onServer cfg endpoint data env).2, d.endpoint ∈ es) ∧
    Flight.weight (weightOf cfg es.length) (self.onServer cfg endpoint data env).2 <
      weightOf cfg es.length (.toServer endpoint data) := by
  set rx : Received E := ⟨endpoint, data.take RawUdpServer.max_length, env.uptime, env.alloc⟩ with hrx
  have hsent : (self.onServer cfg endpoint data env).2 =
      (RawUdpServer.onReceive cfg self.room rx).2.map fun s => .toClient s.1 s.2 := rfl
  have hwithin : Within es { self with room := (RawUdpServer.onReceive cfg self.room rx).1 } := within_onReceive hw he
  have hlen : (RawUdpServer.onReceive cfg self.room rx).2.length ≤ if answerable cfg data then es.length + 1 else 0 :=
    length_sends hw he rfl
  refine ⟨hwithin, fun d hd => ?_, ?_⟩
  · rw [hsent, List.mem_map] at hd
    obtain ⟨s, hs, rfl⟩ := hd
    exact sends_within hw he s hs
  · rw [hsent, weight_toClient, weightOf]
    split at hlen <;> split <;> omega

/-- A worker answers a `HeartBeatRequest`, once, and nothing else. -/
theorem receiveStep_sent {v : Version} {w w' : Worker} {type : PayloadType} {ok : Bool} {up : UInt32}
    {o : List WorkerObs} (h : w.receiveStep v type ok up = some (w', o)) :
    Worker.sentOf o = [] ∨ Worker.sentOf o = [ofType v up .HeartBeatResponse 0] := by
  have hstep : w.step v (.receive type ok up) = some (w', o) := h
  obtain ⟨-, rfl | ⟨f, ok', u, packets, hno, -⟩ | ⟨ok', up', hsame, rfl⟩⟩ :=
    Worker.step_other hstep (fun _ => WorkerAction.noConfusion) WorkerAction.noConfusion
  · exact Or.inl rfl
  · exact WorkerAction.noConfusion hno
  · cases hsame
    unfold Worker.send
    cases ok
    · exact Or.inl rfl
    · exact Or.inr rfl

/-- The server does not answer the answer. -/
theorem not_answerable_response (cfg : ServerConfig) (v : Version) (up : UInt32) :
    answerable cfg (RawUdpClientImpl.send (ofType v up .HeartBeatResponse 0)) = false := by
  have hp := makePacket_ofType v up .HeartBeatResponse 0 (n := RawUdpServer.max_length) (by decide) cfg.version 0
  have hrequest : (ofType v up .HeartBeatResponse 0).request = .other := by
    unfold NetPacket.request
    rw [payloadType_ofType]
    decide
  unfold answerable RawUdpClientImpl.send
  rw [hp]
  simp [hrequest]

/-- **A client on a datagram** sends one answer at most, and that weighs one. -/
theorem onClient_spec (cfg : ServerConfig) (v : E → Version) (n : ℕ) (self : Network E) (endpoint : E) (data : Bytes)
    (env : Delivery) :
    (self.onClient v endpoint data env).1.room = self.room ∧
    (∀ d ∈ (self.onClient v endpoint data env).2, d.endpoint = endpoint) ∧
    Flight.weight (weightOf cfg n) (self.onClient v endpoint data env).2 < 2 := by
  unfold onClient
  split
  · split
    · rename_i o hstep
      refine ⟨rfl, fun d hd => ?_, ?_⟩
      · obtain ⟨p, -, rfl⟩ := List.mem_map.mp hd
        rfl
      · dsimp only
        rcases receiveStep_sent hstep with hnone | hone
        · rw [hnone]
          exact Nat.zero_lt_two
        · have hweight : weightOf cfg n (.toServer endpoint
              (RawUdpClientImpl.send (ofType (v endpoint) env.uptime .HeartBeatResponse 0))) = 1 := by
            rw [weightOf, not_answerable_response]
            rfl
          simp [hone, Flight.weight, hweight]
    · exact ⟨rfl, fun d hd => absurd hd List.not_mem_nil, Nat.zero_lt_two⟩
  · exact ⟨rfl, fun d hd => absurd hd List.not_mem_nil, Nat.zero_lt_two⟩

/-- **One delivery.** -/
theorem handle_spec (cfg : ServerConfig) (v : E → Version) {es : List E} {self : Network E} (hw : Within es self)
    (d : Datagram E) (env : Delivery) (hd : d.endpoint ∈ es) :
    Within es (self.handle cfg v d env).1 ∧ (∀ d' ∈ (self.handle cfg v d env).2, d'.endpoint ∈ es) ∧
    Flight.weight (weightOf cfg es.length) (self.handle cfg v d env).2 < weightOf cfg es.length d := by
  cases d with
  | toServer endpoint data => exact onServer_spec hw hd data env
  | toClient endpoint data =>
    obtain ⟨hroom, hends, hlt⟩ := onClient_spec cfg v es.length self endpoint data env
    refine ⟨⟨?_, ?_⟩, fun d' hd' => ?_, hlt⟩
    · show (self.onClient v endpoint data env).1.room.Distinct
      rw [hroom]
      exact hw.distinct
    · show ∀ e ∈ (self.onClient v endpoint data env).1.room.endpoints, e ∈ es
      rw [hroom]
      exact hw.known
    · rw [hends d' hd']
      exact hd

end Network

open Network

/-- **No packet storm.** Whatever the server has received before and whatever the
clients have come to, and for any datagrams in flight, there is a bound on the
deliveries: in whatever order the datagrams and those they give rise to are
delivered, there are no more than that. And a run does not end before nothing is
in flight. -/
theorem no_packet_storm {E : Type*} [DecidableEq E] (cfg : ServerConfig) (v : E → Version) (rxs : List (Received E))
    (workers : E → Option Worker) (inFlight : List (Datagram E)) :
    ∃ bound, ∀ as c o,
      Lts.exec (Flight.step (Network.handle cfg v)) ⟨⟨RawUdpServer.roomOf cfg rxs, workers⟩, inFlight⟩ as =
        some (c, o) → as.length ≤ bound ∧
      ∀ i < c.inFlight.length, ∀ env, ∃ c' d, Flight.step (Network.handle cfg v) c (i, env) = some (c', [d]) := by
  set es := (RawUdpServer.roomOf cfg rxs).endpoints ++ inFlight.map Datagram.endpoint with hes
  have hw : Within es ⟨RawUdpServer.roomOf cfg rxs, workers⟩ :=
    ⟨RawUdpServer.distinct_roomOf cfg rxs, fun e he => List.mem_append_left _ he⟩
  have hd : ∀ d ∈ inFlight, d.endpoint ∈ es := fun d hd => List.mem_append_right _ (List.mem_map_of_mem hd)
  refine ⟨Flight.weight (weightOf cfg es.length) inFlight, fun as c o h => ⟨?_, fun i hi env => ?_⟩⟩
  · exact Flight.length_le_weight _ (weightOf cfg es.length) (Within es) (fun d => d.endpoint ∈ es)
      (fun net d env hnet hd => handle_spec cfg v hnet d env hd) hw hd h
  · exact Flight.step_isSome _ c hi env

end EasyVoiceCall
