/-
# The UDP room, by its history alone

What the room holds and what the server sends can be said without the room:
an endpoint is a member when it has sent something and the last thing it sent
is not an accepted `LogoutRequest` (`IsMember`), and the datagrams sent at a
step follow from the members and the datagram (`sends`). The server of
`RawUdpServer.lean` refines this (`refines_history`), from the empty room and
over any datagrams.

A datagram that `makePacket` rejects sends nothing, but its sender is
connected before its bytes are read: only a known endpoint's leaves the room
as it was (`rejected_datagram`).

Key theorems: `refines_history`, `rejected_datagram`.
-/
import EasyVoiceCall.RawUdpServer
import Mathlib.Data.Finset.Basic
import Mathlib.Data.Finset.Dedup

namespace EasyVoiceCall

open Buffer NetPacket

variable {E : Type*} [DecidableEq E]

namespace RawUdpServer

/-- The room after the datagrams, from the empty room. -/
def roomAfter (cfg : ServerConfig) (rxs : List (Received E)) : RawUdpRoom E :=
  Mealy.state (onReceive cfg) PtrSet.empty rxs

theorem roomAfter_concat (cfg : ServerConfig) (rxs : List (Received E)) (rx : Received E) :
    roomAfter cfg (rxs ++ [rx]) = (onReceive cfg (roomAfter cfg rxs) rx).1 :=
  Mealy.state_concat _ _ _ _

/-- The datagrams sent when `rx` is received after `rxs`. -/
def sentAt (cfg : ServerConfig) (rxs : List (Received E)) (rx : Received E) : List (E × Bytes) :=
  (onReceive cfg (roomAfter cfg rxs) rx).2

end RawUdpServer

namespace RawUdpSpec

open RawUdpServer

/-- The last datagram from `e`. -/
def lastFrom (e : E) (h : List (Received E)) : Option (Received E) :=
  History.last (fun rx => decide (rx.endpoint = e)) h

/-- `e` has sent a datagram, and the last one was not an accepted `LogoutRequest`. -/
def IsMember (cfg : ServerConfig) (h : List (Received E)) (e : E) : Prop :=
  ∃ rx, lastFrom e h = some rx ∧ rx.isLogout cfg = false

instance (cfg : ServerConfig) (h : List (Received E)) (e : E) : Decidable (IsMember cfg h e) :=
  decidable_of_iff ((lastFrom e h).any fun rx => !rx.isLogout cfg) (by
    rw [Option.any_eq_true]
    simp [IsMember])

/-- The members. -/
def members (cfg : ServerConfig) (h : List (Received E)) : Finset E :=
  (h.map (·.endpoint)).toFinset.filter (IsMember cfg h)

/-- What the server sends when `rx` is received after `h`. -/
def sends (cfg : ServerConfig) (h : List (Received E)) (rx : Received E) :
    Multiset (E × Bytes) :=
  match rx.packet cfg with
  | none => 0
  | some p =>
    if p.payloadType = .HeartBeatRequest then
      {(rx.endpoint, (ofType cfg.version rx.uptime .HeartBeatResponse 0).header)}
    else if p.payloadType = .TextMessage ∨ p.payloadType = .AudioMessage ∨
        p.payloadType = .AudioMessage_CN then
      if cfg.isEchoMode then {(rx.endpoint, frame rx.data)}
      else ((members cfg (h ++ [rx])).erase rx.endpoint).val.map fun e => (e, frame rx.data)
    else if p.payloadType = .LoginRequest then
      {(rx.endpoint, (ofType cfg.version rx.uptime .LoginResponse 0).header)}
    else 0

/-! ### Members -/

theorem lastFrom_concat (e : E) (h : List (Received E)) (rx : Received E) :
    lastFrom e (h ++ [rx]) = if rx.endpoint = e then some rx else lastFrom e h := by
  rw [lastFrom, History.last_concat]
  simp [lastFrom]

theorem isMember_nil (cfg : ServerConfig) (e : E) : ¬ IsMember cfg [] e := by
  rintro ⟨rx, hrx, -⟩
  simp [lastFrom] at hrx

theorem isMember_concat (cfg : ServerConfig) (h : List (Received E)) (rx : Received E) (e : E) :
    IsMember cfg (h ++ [rx]) e ↔
      if rx.endpoint = e then rx.isLogout cfg = false else IsMember cfg h e := by
  unfold IsMember
  rw [lastFrom_concat]
  split <;> simp

theorem mem_members (cfg : ServerConfig) (h : List (Received E)) (e : E) :
    e ∈ members cfg h ↔ IsMember cfg h e := by
  unfold members
  rw [Finset.mem_filter, List.mem_toFinset, and_iff_right_iff_imp]
  rintro ⟨rx, hrx, -⟩
  obtain ⟨hm, he⟩ := History.last_mem _ hrx
  exact List.mem_map.mpr ⟨rx, hm, by simpa using he⟩

/-- **The room is what the history says.** -/
theorem roomAfter_spec (cfg : ServerConfig) (rxs : List (Received E)) (hne : ∀ rx ∈ rxs, rx.data ≠ []) :
    (roomAfter cfg rxs).Distinct ∧ ∀ e, e ∈ (roomAfter cfg rxs).endpoints ↔ IsMember cfg rxs e := by
  refine Mealy.history_rule_of (onReceive cfg) (fun rx => rx.data ≠ [])
    (fun h room => room.Distinct ∧ ∀ e, e ∈ room.endpoints ↔ IsMember cfg h e) ?_ ?_ rxs hne
  · exact ⟨fun a ha => absurd ha (PtrSet.not_mem_empty a), fun e =>
      ⟨fun h => absurd h List.not_mem_nil, fun h => absurd h (isMember_nil cfg e)⟩⟩
  · intro h room rx hrx ih
    refine ⟨distinct_onReceive cfg rx ih.1, fun e => ?_⟩
    rw [mem_endpoints_onReceive cfg ih.1 hrx, isMember_concat]
    split
    · rfl
    · exact ih.2 e

/-! ### Sends -/

/-- A broadcast goes to every other endpoint of the room, once. -/
theorem broadcast_endpoints {room : RawUdpRoom E} (hd : room.Distinct) {self : RawUdpConnection E}
    (hself : self ∈ room) : (((room.toList.filter (· ≠ self)).map (·.remote_endpoint) : List E) : Multiset E) =
      (room.endpoints.toFinset.erase self.remote_endpoint).val := by
  have hn : ((room.toList.filter (· ≠ self)).map (·.remote_endpoint)).Nodup :=
    (RawUdpRoom.nodup_endpoints hd).sublist (List.filter_sublist.map _)
  refine (Multiset.Nodup.ext (Multiset.coe_nodup.mpr hn) (Finset.nodup _)).mpr fun e => ?_
  simp only [Multiset.mem_coe, List.mem_map, List.mem_filter, Finset.mem_val, Finset.mem_erase,
    List.mem_toFinset, RawUdpRoom.mem_endpoints, decide_eq_true_eq]
  constructor
  · rintro ⟨c, ⟨hc, hne⟩, rfl⟩
    exact ⟨fun he => hne (hd c hc self hself he), c, hc, rfl⟩
  · rintro ⟨hne, c, hc, rfl⟩
    exact ⟨c, ⟨hc, fun he => hne (he ▸ rfl)⟩, rfl⟩

/-- A media packet finds its sender in the room, and the room as the history
with it says. -/
theorem endpoints_connect (cfg : ServerConfig) (rxs : List (Received E)) (hne : ∀ rx ∈ rxs, rx.data ≠ [])
    {rx : Received E} (hrx : rx.data ≠ []) (hl : rx.isLogout cfg = false) :
    ((roomAfter cfg rxs).connect rx).2.endpoints.toFinset = members cfg (rxs ++ [rx]) := by
  have hne' : ∀ r ∈ rxs ++ [rx], r.data ≠ [] := by
    intro r hr
    rcases List.mem_append.mp hr with hr | hr
    · exact hne r hr
    · rw [List.mem_singleton.mp hr]
      exact hrx
  obtain ⟨-, -, hmem, -⟩ := RawUdpRoom.connect_spec (roomAfter cfg rxs) rx
  ext e
  rw [List.mem_toFinset, mem_members, ← (roomAfter_spec cfg _ hne').2 e, RawUdpRoom.mem_endpoints,
    RawUdpRoom.mem_endpoints]
  refine exists_congr fun c => and_congr_left fun _ => ?_
  rw [hmem, roomAfter_concat, mem_onReceive cfg _ hrx]
  simp [hl]

/-- The replies to a datagram, as a multiset. -/
theorem sentAt_eq (cfg : ServerConfig) (rxs : List (Received E)) (hne : ∀ rx ∈ rxs, rx.data ≠ [])
    {rx : Received E} (hrx : rx.data ≠ []) :
    ((sentAt cfg rxs rx : List (E × Bytes)) : Multiset (E × Bytes)) = sends cfg rxs rx := by
  obtain ⟨hep, hself, -, hd⟩ := RawUdpRoom.connect_spec (roomAfter cfg rxs) rx
  rw [sentAt, onReceive_sends cfg _ hrx, sends]
  rcases hp : rx.packet cfg with _ | p
  · rfl
  have hb : p.header = frame rx.data := ((RawUdpConnection.makePacket_some_iff _ _ _ _).mp hp).2
  dsimp only
  by_cases h1 : p.payloadType = .HeartBeatRequest
  · have hr : p.request = .heartBeat := if_pos h1
    simp only [replies, hr, if_pos h1, List.map_cons, List.map_nil, RawUdpConnection.send, hep]
    rfl
  by_cases h2 : p.payloadType = .TextMessage ∨ p.payloadType = .AudioMessage ∨
      p.payloadType = .AudioMessage_CN
  · have hr : p.request = .media := by rw [request, if_neg h1, if_pos h2]
    simp only [replies, hr, if_neg h1, if_pos h2]
    by_cases he : cfg.isEchoMode = true
    · simp only [if_pos he, List.map_cons, List.map_nil, RawUdpConnection.send, hep, hb]
      rfl
    · have hl : rx.isLogout cfg = false := by
        rw [Received.isLogout, hp]
        simp [← request_eq_logout_iff, hr]
      rw [if_neg he, if_neg he, ← endpoints_connect cfg rxs hne hrx hl, ← hep,
        ← broadcast_endpoints (hd (roomAfter_spec cfg rxs hne).1) hself, Multiset.map_coe, List.map_map,
        List.map_map]
      simp only [Function.comp_def, RawUdpConnection.send, hb]
  by_cases h3 : p.payloadType = .LoginRequest
  · have hr : p.request = .login := by rw [request, if_neg h1, if_neg h2, if_pos h3]
    simp only [replies, hr, if_neg h1, if_neg h2, if_pos h3, List.map_cons, List.map_nil,
      RawUdpConnection.send, hep]
    rfl
  · have hr : p.request = .logout ∨ p.request = .other := by
      by_cases h4 : p.payloadType = .LogoutRequest
      · exact Or.inl (by rw [request, if_neg h1, if_neg h2, if_neg h3, if_pos h4])
      · exact Or.inr (by rw [request, if_neg h1, if_neg h2, if_neg h3, if_neg h4])
    rcases hr with hr | hr <;> simp [replies, hr, h1, h2, h3]

/-- **The server refines its history.** Over any non-empty datagrams, from the
empty room: after each prefix the room holds one connection for each member and
none for any other endpoint, and at each step what is sent is what the history
and the datagram say, a relayed copy being the received datagram's frame. -/
theorem refines_history (cfg : ServerConfig) (rxs : List (Received E)) (hne : ∀ rx ∈ rxs, rx.data ≠ []) :
    (∀ h, h <+: rxs → ∀ e : E,
      (roomAfter cfg h).endpoints.count e = if IsMember cfg h e then 1 else 0) ∧
    (∀ h rx, h ++ [rx] <+: rxs →
      ((sentAt cfg h rx : List (E × Bytes)) : Multiset (E × Bytes)) = sends cfg h rx) := by
  refine ⟨fun h hh e => ?_, fun h rx hh => ?_⟩
  · obtain ⟨hd, hm⟩ := roomAfter_spec cfg h fun rx hrx => hne rx (hh.subset hrx)
    rw [List.Nodup.count (RawUdpRoom.nodup_endpoints hd)]
    simp only [hm e]
  · have hsub := hh.subset
    exact sentAt_eq cfg h (fun r hr => hne r (hsub (List.mem_append_left _ hr)))
      (hne rx (hsub (by simp)))

/-- Broadcast mode. -/
def sampleConfig : ServerConfig := ⟨sampleVersion, false⟩

/-- Bytes from an endpoint. -/
def sampleReceived (e : ℕ) (d : Bytes) : Received ℕ := ⟨e, d, 0, Allocator.bump⟩

/-- Two log in, the first speaks and logs out. -/
theorem refines_history_call :
    let rxs := [sampleReceived 1 (sampleBytes 3), sampleReceived 2 (sampleBytes 3),
      sampleReceived 1 (sampleBytes 7), sampleReceived 1 (sampleBytes 9)]
    (roomAfter sampleConfig rxs).endpoints.count 1 = 0 ∧
    (roomAfter sampleConfig rxs).endpoints.count 2 = 1 ∧
    ((sentAt sampleConfig (rxs.take 2) (sampleReceived 1 (sampleBytes 7)) : List (ℕ × Bytes)) :
      Multiset (ℕ × Bytes)) = {(2, sampleBytes 7)} := by
  intro rxs
  have h := refines_history sampleConfig rxs (by decide)
  refine ⟨(h.1 rxs (List.prefix_refl _) 1).trans ?_, (h.1 rxs (List.prefix_refl _) 2).trans ?_,
    (h.2 (rxs.take 2) _ ⟨rxs.drop 3, rfl⟩).trans ?_⟩
  · rw [if_neg (by decide)]
  · rw [if_pos (by decide)]
  · decide

/-! ### A datagram that is not a packet -/

/-- **A rejected datagram sends nothing, and connects its sender.** In every
reachable room: where the sender has a connection, `insert` leaves the room
exactly as it was; where it has none, it adds one for it and nothing else. -/
theorem rejected_datagram (cfg : ServerConfig) (rxs : List (Received E)) (rx : Received E)
    (hrej : RawUdpConnection.makePacket cfg.version rx.uptime rx.data = none) :
    ((roomAfter cfg rxs).insert cfg rx).2 = [] ∧
    (rx.endpoint ∈ (roomAfter cfg rxs).endpoints →
      ((roomAfter cfg rxs).insert cfg rx).1 = roomAfter cfg rxs) ∧
    (rx.endpoint ∉ (roomAfter cfg rxs).endpoints → ∃ c : RawUdpConnection E,
      c.remote_endpoint = rx.endpoint ∧ c ∉ roomAfter cfg rxs ∧
        ((roomAfter cfg rxs).insert cfg rx).1.toList.Perm (c :: (roomAfter cfg rxs).toList)) := by
  have hins : (roomAfter cfg rxs).insert cfg rx = (((roomAfter cfg rxs).connect rx).2, []) := by
    change RawUdpConnection.onReceived cfg rx _ _ = _
    rw [RawUdpConnection.onReceived, hrej]
    rfl
  rw [hins]
  refine ⟨rfl, RawUdpRoom.connect_of_mem, fun hnew => ?_⟩
  obtain ⟨c, hc, hk, hroom⟩ := RawUdpRoom.connect_of_not_mem hnew
  refine ⟨c, hc, fun hm => hk (List.mem_map.mpr ⟨c, hm, rfl⟩), ?_⟩
  rw [hroom]
  exact PtrSet.perm_insert_of_fresh hk

/-- One byte from endpoint 1, to the empty room: the room is not left as it was. -/
theorem rejected_datagram_connects : ¬ ∀ (cfg : ServerConfig) (rxs : List (Received ℕ)) (rx : Received ℕ),
    RawUdpConnection.makePacket cfg.version rx.uptime rx.data = none →
      ((roomAfter cfg rxs).insert cfg rx).1 = roomAfter cfg rxs ∧
        ((roomAfter cfg rxs).insert cfg rx).2 = [] := by
  intro h
  have h1 := (h sampleConfig [] (sampleReceived 1 [0]) (by decide)).1
  have h2 := congrArg RawUdpRoom.endpoints h1
  revert h2
  decide

/-- The same byte, where endpoint 1 is known and where it is not. -/
theorem rejected_datagram_byte :
    ((roomAfter sampleConfig [sampleReceived 1 (sampleBytes 3)]).insert sampleConfig
      (sampleReceived 1 [0])).1 = roomAfter sampleConfig [sampleReceived 1 (sampleBytes 3)] ∧
    ((roomAfter sampleConfig []).insert sampleConfig (sampleReceived 1 [0])).2 = [] :=
  ⟨(rejected_datagram sampleConfig [sampleReceived 1 (sampleBytes 3)] (sampleReceived 1 [0])
      (by decide)).2.1 (by decide),
    (rejected_datagram sampleConfig [] (sampleReceived 1 [0]) (by decide)).1⟩

end RawUdpSpec
end EasyVoiceCall
