/-
# From one client to another

`RawUdpServer::doReceive` receives into 1024 bytes and the client's receive loop
into another 1024, while the constructors of a packet take any payload that
the length field can announce. A receive into a buffer shorter than the
datagram keeps the bytes that fit, so the length check of `makePacket` throws
away what does not: the others hear a media packet exactly when header and
payload fit in the buffers (`carried_iff`).

Key theorems: `carried_iff`, `heard_eq`, `RawUdpServer.filter_onReceive`.
-/
import EasyVoiceCall.RawUdpSpec

namespace EasyVoiceCall

open Buffer NetPacket

/-! ### The two ends -/

namespace RawUdpServer

variable {E : Type*} [DecidableEq E]

/-- The size of `data_`. -/
def max_length : ℕ := 1 <<< 10

/-- `doReceive`: a datagram off the network, as far as `data_` holds it. -/
def doReceive (cfg : ServerConfig) (room : RawUdpRoom E) (rx : Received E) :
    RawUdpRoom E × List (E × Bytes) :=
  onReceive cfg room { rx with data := rx.data.take max_length }

/-- The room after the datagrams. -/
def roomOf (cfg : ServerConfig) (rxs : List (Received E)) : RawUdpRoom E :=
  Mealy.state (doReceive cfg) PtrSet.empty rxs

/-- The datagrams, as far as `data_` holds them. -/
theorem roomOf_eq (cfg : ServerConfig) (rxs : List (Received E)) :
    roomOf cfg rxs = roomAfter cfg (rxs.map fun rx => { rx with data := rx.data.take max_length }) := by
  rw [roomOf, roomAfter, Mealy.state, Mealy.state, List.foldl_map]
  rfl

theorem distinct_roomOf (cfg : ServerConfig) (rxs : List (Received E)) : (roomOf cfg rxs).Distinct :=
  Mealy.history_rule (doReceive cfg) (fun _ room => room.Distinct)
    (fun _ ha => absurd ha (PtrSet.not_mem_empty _)) (fun _ _ _ h => distinct_onReceive cfg _ h) rxs

end RawUdpServer

namespace RawUdpClientImpl

/-- The size of `reply`. -/
def max_length : ℕ := 1024

/-- `send`: the datagram of a packet. -/
def send (netPacket : NetPacket) : Bytes := netPacket.header

/-- One round of the receive loop: what is handed to `onDataReceived_`. -/
def receive (v : Version) (now : UInt32) (datagram : Bytes) : Option NetPacket :=
  makePacket v now (datagram.take max_length)

end RawUdpClientImpl

/-- The packets the client at `r` is handed when the server has received `rx`. -/
def heard {E : Type*} [DecidableEq E] (cfg : ServerConfig) (room : RawUdpRoom E) (rx : Received E)
    (v : Version) (now : UInt32) (r : E) : List NetPacket :=
  ((RawUdpServer.doReceive cfg room rx).2.filter (·.1 = r)).filterMap fun s =>
    RawUdpClientImpl.receive v now s.2

/-! ### One packet -/

/-- The only element of its kind, filtered out. -/
theorem filter_unique {α : Type*} [DecidableEq α] {l : List α} (hn : l.Nodup) {p : α → Prop} [DecidablePred p]
    {a : α} (ha : a ∈ l) (hp : ∀ b ∈ l, p b ↔ b = a) : l.filter (fun b => p b) = [a] := by
  have h1 : l.filter (fun b => p b) = l.filter (fun b => b = a) :=
    List.filter_congr fun b hb => by simp [hp b hb]
  rw [h1, List.filter_eq, List.count_eq_one_of_mem hn ha]
  rfl

section Packet

variable {v : Version} {up sn : UInt32} {t : PayloadType} {payload : Bytes} {p : NetPacket}

theorem length_of_built (hp : withPayload v up t sn payload = .ok p) :
    p.wholePacket.length = FixHeaderLength + payload.length := by
  obtain ⟨-, -, hb⟩ := makePacket_of_built hp [] v up
  rw [hb, List.length_append, length_headerBytes]

/-- A buffer that holds the packet gives it back, a shorter one nothing. -/
theorem makePacket_take (hp : withPayload v up t sn payload = .ok p) {n : ℕ} (hn : FixHeaderLength ≤ n)
    (w : Version) (now : UInt32) : RawUdpConnection.makePacket w now (p.wholePacket.take n) =
      if FixHeaderLength + payload.length ≤ n then some p else none := by
  have hlen := length_of_built hp
  obtain ⟨hmake, -, hb⟩ := makePacket_of_built hp [] w now
  split
  · rename_i hfit
    rw [List.take_of_length_le (hlen ▸ hfit)]
    simpa [header] using hmake
  · rename_i hfit
    rw [RawUdpConnection.makePacket_none_iff]
    -- the length field survives the cut, and announces more than is left
    obtain ⟨hframed, hframe⟩ := (RawUdpConnection.makePacket_some_iff ..).mp hmake
    have hfield : lengthField (p.wholePacket.take n) = lengthField p.wholePacket := by
      rw [← lengthField_take, List.take_take, Nat.min_eq_left hn, lengthField_take]
    have hok : p.wholePacket.length = FixHeaderLength + (lengthField p.wholePacket).toNat := by
      have h := length_frame hframed
      rw [← hframe] at h
      simpa [header] using h
    rintro ⟨-, h2⟩
    rw [hfield, List.length_take, ← hok, hlen] at h2
    omega

/-- A broadcast sends each other endpoint of the room one copy. -/
theorem RawUdpServer.filter_onReceive {E : Type*} [DecidableEq E] {cfg : ServerConfig}
    (hb : cfg.isEchoMode = false) {room : RawUdpRoom E} (hd : room.Distinct) {rx : Received E} {p : NetPacket}
    (hne : rx.data ≠ []) (hp : rx.packet cfg = some p) (hm : p.isMediaType = true) {r : E}
    (hr : r ∈ room.endpoints) (hre : r ≠ rx.endpoint) :
    (onReceive cfg room rx).2.filter (·.1 = r) = [(r, p.header)] := by
  obtain ⟨hep, hself, hmem, hd'⟩ := RawUdpRoom.connect_spec room rx
  obtain ⟨c, hc, rfl⟩ := RawUdpRoom.mem_endpoints.mp hr
  have hcself : c ≠ (room.connect rx).1 := fun he => hre (he ▸ hep)
  have hc' : c ∈ (room.connect rx).2.toList.filter (· ≠ (room.connect rx).1) :=
    List.mem_filter.mpr ⟨(hmem c).mpr (Or.inr hc), by simpa using hcself⟩
  have honly : ∀ b ∈ (room.connect rx).2.toList.filter (· ≠ (room.connect rx).1),
      b.remote_endpoint = c.remote_endpoint ↔ b = c := by
    intro b hb
    refine ⟨fun he => hd' hd b (List.mem_filter.mp hb).1 c ((hmem c).mpr (Or.inr hc)) he, fun he => he ▸ rfl⟩
  have hone := filter_unique ((room.connect rx).2.nodup.filter _) hc' honly
  have hreq : p.request = .media := (request_eq_media_iff p).mpr hm
  rw [onReceive_sends cfg room hne, hp]
  simp only [replies, hreq, hb, Bool.false_eq_true, ↓reduceIte, List.map_map, List.filter_map]
  show List.map _ (List.filter (fun b : RawUdpConnection E => b.remote_endpoint = c.remote_endpoint) _) = _
  rw [hone]
  rfl

/-- **What another member hears of a packet that was built.** -/
theorem heard_eq {E : Type*} [DecidableEq E] {cfg : ServerConfig} (hb : cfg.isEchoMode = false)
    {room : RawUdpRoom E} (hd : room.Distinct) (hp : withPayload v up t sn payload = .ok p)
    (hm : p.isMediaType = true) {rx : Received E} (hrx : rx.data = RawUdpClientImpl.send p) {r : E}
    (hr : r ∈ room.endpoints) (hre : r ≠ rx.endpoint) (w : Version) (now : UInt32) :
    heard cfg room rx w now r =
      if FixHeaderLength + payload.length ≤ RawUdpServer.max_length then [p] else [] := by
  have h1024 : RawUdpServer.max_length = RawUdpClientImpl.max_length := rfl
  have hhead : FixHeaderLength ≤ RawUdpServer.max_length := by decide
  have hclient : RawUdpClientImpl.receive w now p.header =
      if FixHeaderLength + payload.length ≤ RawUdpClientImpl.max_length then some p else none :=
    makePacket_take hp (h1024 ▸ hhead) w now
  set rx' : Received E := { rx with data := rx.data.take RawUdpServer.max_length } with hrx'
  have hserver : rx'.packet cfg =
      if FixHeaderLength + payload.length ≤ RawUdpServer.max_length then some p else none := by
    show RawUdpConnection.makePacket cfg.version rx.uptime (rx.data.take RawUdpServer.max_length) = _
    rw [hrx]
    exact makePacket_take hp hhead cfg.version rx.uptime
  have hne : rx'.data ≠ [] := by
    have hl := length_of_built hp
    have hpos : 0 < rx'.data.length := by
      show 0 < (rx.data.take RawUdpServer.max_length).length
      rw [hrx, RawUdpClientImpl.send, header, List.length_take, hl]
      have := FixHeaderLength_eq
      omega
    exact List.length_pos_iff.mp hpos
  show ((RawUdpServer.onReceive cfg room rx').2.filter (·.1 = r)).filterMap _ = _
  split
  · rename_i hfit
    rw [if_pos hfit] at hserver
    rw [RawUdpServer.filter_onReceive hb hd hne hserver hm hr hre, List.filterMap_cons, hclient,
      if_pos (h1024 ▸ hfit)]
    rfl
  · rename_i hfit
    rw [if_neg hfit] at hserver
    rw [RawUdpServer.onReceive_sends cfg room hne, hserver]
    rfl

end Packet

/-! ### Every packet -/

/-- **What can be built and what can be carried.** In broadcast mode, in the room
after any datagrams: every other member's client is handed a packet of the
same type, serial number and payload exactly when the payload has at most
1004 bytes, or there is no other member. -/
theorem carried_iff {E : Type*} [DecidableEq E] (cfg : ServerConfig) (hb : cfg.isEchoMode = false)
    (rxs : List (Received E)) {v : Version} {up sn : UInt32} {t : PayloadType} {payload : Bytes} {p : NetPacket}
    (hp : withPayload v up t sn payload = .ok p) (hm : p.isMediaType = true) {rx : Received E}
    (hrx : rx.data = RawUdpClientImpl.send p) (w : E → Version) (now : E → UInt32) :
    (∀ r ∈ (RawUdpServer.roomOf cfg rxs).endpoints, r ≠ rx.endpoint →
      ∃ q ∈ heard cfg (RawUdpServer.roomOf cfg rxs) rx (w r) (now r) r,
        q.payloadType = t ∧ q.serialNumber = sn ∧ q.payload = payload) ↔
    ((∃ r ∈ (RawUdpServer.roomOf cfg rxs).endpoints, r ≠ rx.endpoint) → payload.length ≤ 1004) := by
  have hd := RawUdpServer.distinct_roomOf cfg rxs
  have h1004 : FixHeaderLength + payload.length ≤ RawUdpServer.max_length ↔ payload.length ≤ 1004 := by
    show 20 + payload.length ≤ 1024 ↔ _
    omega
  constructor
  · rintro h ⟨r, hr, hre⟩
    obtain ⟨q, hq, -⟩ := h r hr hre
    rw [heard_eq hb hd hp hm hrx hr hre] at hq
    by_contra hlong
    rw [if_neg (mt h1004.mp hlong)] at hq
    cases hq
  · intro h r hr hre
    obtain ⟨-, -, hbytes⟩ := makePacket_of_built hp [] v up
    refine ⟨p, ?_, payloadType_of_bytes hbytes, serialNumber_of_bytes hbytes, payload_of_bytes hbytes⟩
    rw [heard_eq hb hd hp hm hrx hr hre, if_pos (h1004.mpr (h ⟨r, hr, hre⟩))]
    exact List.mem_singleton_self p

/-- A text of two bytes reaches the endpoint that sent a byte. -/
theorem carried_iff_text : ∃ p, withPayload sampleVersion 5 .TextMessage 7 [0x68, 0x69] = .ok p ∧
    ∃ q ∈ heard RawUdpSpec.sampleConfig (RawUdpServer.roomOf RawUdpSpec.sampleConfig
      [RawUdpSpec.sampleReceived 2 [0]]) (RawUdpSpec.sampleReceived 1 (RawUdpClientImpl.send p)) sampleVersion 0 2,
      q.payloadType = .TextMessage ∧ q.serialNumber = 7 ∧ q.payload = [0x68, 0x69] := by
  obtain ⟨p, hp, hbytes⟩ := withPayload_ok sampleVersion 5 .TextMessage 7 [0x68, 0x69] (by decide)
  have hm : p.isMediaType = true := by
    rw [isMediaType, payloadType_of_bytes hbytes]
    decide
  have hrx : (RawUdpSpec.sampleReceived 1 (RawUdpClientImpl.send p)).data = RawUdpClientImpl.send p := rfl
  refine ⟨p, hp, ?_⟩
  exact (carried_iff RawUdpSpec.sampleConfig rfl [RawUdpSpec.sampleReceived 2 [0]] hp hm hrx
    (fun _ => sampleVersion) fun _ => 0).mpr (fun _ => by decide) 2 (by decide) (show 2 ≠ 1 by decide)

/-- A text of 1005 bytes can be built, and nobody hears it. -/
theorem text_not_carried : ¬ ∀ (cfg : ServerConfig) (rxs : List (Received ℕ)) (v : Version) (up sn : UInt32)
    (t : PayloadType) (payload : Bytes) (p : NetPacket) (rx : Received ℕ) (w : Version) (now : UInt32),
    cfg.isEchoMode = false → withPayload v up t sn payload = .ok p → p.isMediaType = true →
    rx.data = RawUdpClientImpl.send p →
    ∀ r ∈ (RawUdpServer.roomOf cfg rxs).endpoints, r ≠ rx.endpoint →
      ∃ q ∈ heard cfg (RawUdpServer.roomOf cfg rxs) rx w now r,
        q.payloadType = t ∧ q.serialNumber = sn ∧ q.payload = payload := by
  intro h
  have hlen : (List.replicate 1005 (0x68 : UInt8)).length = 1005 := List.length_replicate
  obtain ⟨p, hp, hbytes⟩ := withPayload_ok sampleVersion 5 .TextMessage 7 (List.replicate 1005 0x68)
    (by rw [hlen]; decide)
  have hm : p.isMediaType = true := by
    rw [isMediaType, payloadType_of_bytes hbytes]
    decide
  have h2 : 2 ∈ (RawUdpServer.roomOf RawUdpSpec.sampleConfig [RawUdpSpec.sampleReceived 2 [0]]).endpoints := by
    decide
  obtain ⟨q, hq, -⟩ := h RawUdpSpec.sampleConfig [RawUdpSpec.sampleReceived 2 [0]] _ _ _ _ _ p
    (RawUdpSpec.sampleReceived 1 (RawUdpClientImpl.send p)) sampleVersion 0 rfl hp hm rfl 2 h2 (show 2 ≠ 1 by decide)
  rw [heard_eq rfl (RawUdpServer.distinct_roomOf _ _) hp hm rfl h2 (show 2 ≠ 1 by decide), hlen,
    if_neg (by decide)] at hq
  cases hq

end EasyVoiceCall
