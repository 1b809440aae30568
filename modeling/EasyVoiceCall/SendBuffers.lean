/-
# The buffers of the UDP server's sends

`server/RawUdpServer.cpp` once more, with the packets as objects. `sendUdp` gives
`async_send_to` the address of a packet's bytes, not the bytes: the socket sends what is
there when it can, in the call or later. The packet of a response lives to the end of the
expression that sends it, one that was received to the end of `onReceived`.

The handler is that of `RawUdpServer.onReceive` (`UdpServer.onReceive_calls`). When it
has run no packet is left, so what is sent later is not what was given.

Key definitions: `UdpServer.onReceive`, `UdpServer.step`, `SendCalls`.
Key theorems: `UdpServer.onReceive_calls`, `sent_intact_iff`.
-/
import EasyVoiceCall.Lib.Objects
import EasyVoiceCall.RawUdpSpec

namespace EasyVoiceCall

open Buffer NetPacket

variable {E : Type*}

/-- An `async_send_to` that has not sent yet: the number of the packet its buffer belongs to,
and what the buffer held at the call. -/
structure UdpSend (E : Type*) where
  endpoint : E
  packet : ℕ
  given : Bytes

/-- What an observer sees: a call of `async_send_to`, a datagram sent. It was given bytes,
and what is sent is what the buffer holds, if its packet is there. -/
inductive UdpObs (E : Type*)
  | called (endpoint : E) (bytes : Bytes)
  | transmitted (endpoint : E) (given : Bytes) (sent : Option Bytes)
  deriving DecidableEq

/-- The room, the packets that are there, and the sends outstanding. -/
structure UdpServer (E : Type*) where
  room : RawUdpRoom E
  packets : Objects Bytes
  pending : List (UdpSend E)

namespace UdpServer

/-- No datagram yet. -/
def start : UdpServer E := ⟨PtrSet.empty, .empty, []⟩

section Handler

variable [DecidableEq E] (atOnce : RawUdpConnection E → Bool)

/-- `send`, and `sendUdp` with the address of the packet's bytes. -/
def sendUdp (s : UdpServer E) (connection : RawUdpConnection E) (packet : ℕ) : UdpServer E × List (UdpObs E) :=
  match s.packets.cell packet with
  | none => (s, [])
  | some bytes =>
    if atOnce connection then
      (s, [.called connection.remote_endpoint bytes, .transmitted connection.remote_endpoint bytes (some bytes)])
    else
      ({ s with pending := s.pending ++ [⟨connection.remote_endpoint, packet, bytes⟩] },
        [.called connection.remote_endpoint bytes])

/-- `sender->send(NetPacket(...))`. -/
def respond (s : UdpServer E) (sender : RawUdpConnection E) (response : NetPacket) : UdpServer E × List (UdpObs E) :=
  let (packet, packets) := s.packets.make response.header
  let (s, o) := sendUdp atOnce { s with packets } sender packet
  ({ s with packets := s.packets.destroy packet }, o)

/-- The loop over the participants. -/
def sendAll (packet : ℕ) : UdpServer E → List (RawUdpConnection E) → UdpServer E × List (UdpObs E)
  | s, [] => (s, [])
  | s, participant :: rest =>
    let (s, o) := sendUdp atOnce s participant packet
    let (s, o') := sendAll packet s rest
    (s, o ++ o')

variable (cfg : ServerConfig) (uptime : UInt32)

/-- `processClientMessagePayload`; `packet` is the number of `msg`. -/
def processClientMessagePayload (s : UdpServer E) (msg : NetPacket) (packet : ℕ) (sender : RawUdpConnection E) :
    UdpServer E × List (UdpObs E) :=
  match msg.request with
  | .heartBeat => respond atOnce s sender (ofType cfg.version uptime .HeartBeatResponse 0)
  | .media =>
    if cfg.isEchoMode then sendUdp atOnce s sender packet
    else sendAll atOnce packet s (s.room.toList.filter (· ≠ sender))
  | .login => respond atOnce s sender (ofType cfg.version uptime .LoginResponse 0)
  | .logout => ({ s with room := s.room.kickMeOut sender }, [])
  | .other => (s, [])

/-- `onReceived`: `newPacket` is there until it returns. -/
def onReceived (s : UdpServer E) (self : RawUdpConnection E) (rx : Received E) : UdpServer E × List (UdpObs E) :=
  match RawUdpConnection.makePacket cfg.version rx.uptime rx.data with
  | none => (s, [])
  | some newPacket =>
    let (packet, packets) := s.packets.make newPacket.header
    let (s, o) := processClientMessagePayload atOnce cfg rx.uptime { s with packets } newPacket packet self
    ({ s with packets := s.packets.destroy packet }, o)

/-- The handler of `doReceive`, and `insert`. -/
def onReceive (s : UdpServer E) (rx : Received E) : UdpServer E × List (UdpObs E) :=
  if 0 < rx.data.length then
    let (peer, room) := s.room.connect rx
    onReceived atOnce cfg { s with room } peer rx
  else (s, [])

end Handler

end UdpServer

/-- A datagram received, with the connections whose sends go out in the call; or an
outstanding send that goes out. -/
inductive UdpEvent (E : Type*)
  | receive (rx : Received E) (atOnce : RawUdpConnection E → Bool)
  | transmit (i : ℕ)

/-- The calls, as `RawUdpServer.onReceive` has them. -/
def calledOf (o : List (UdpObs E)) : List (E × Bytes) :=
  o.filterMap fun | .called e b => some (e, b) | _ => none

/-- What the datagrams sent were to be. -/
def transmittedOf (o : List (UdpObs E)) : List (E × Bytes) :=
  o.filterMap fun | .transmitted e b _ => some (e, b) | _ => none

/-- What the sends outstanding are to send. -/
def UdpServer.owed (s : UdpServer E) : List (E × Bytes) := s.pending.map fun p => (p.endpoint, p.given)

/-- A datagram sent is what was given. -/
def UdpObs.Intact : UdpObs E → Prop
  | .called _ _ => True
  | .transmitted _ given sent => sent = some given

instance (x : UdpObs E) : Decidable x.Intact := by
  cases x <;> unfold UdpObs.Intact <;> infer_instance

namespace UdpServer

variable [DecidableEq E]

/-- One step; `none` where there is no such send. -/
def step (cfg : ServerConfig) (s : UdpServer E) : UdpEvent E → Option (UdpServer E × List (UdpObs E))
  | .receive rx atOnce => some (onReceive atOnce cfg s rx)
  | .transmit i =>
    s.pending[i]?.map fun p =>
      ({ s with pending := s.pending.eraseIdx i }, [.transmitted p.endpoint p.given (s.packets.cell p.packet)])

/-- A run of the server from the start. -/
abbrev exec (cfg : ServerConfig) (es : List (UdpEvent E)) : Option (UdpServer E × List (UdpObs E)) :=
  Lts.exec (step cfg) start es

end UdpServer

/-! ### What the handler calls -/

theorem calledOf_append (o o' : List (UdpObs E)) : calledOf (o ++ o') = calledOf o ++ calledOf o' :=
  List.filterMap_append

theorem transmittedOf_append (o o' : List (UdpObs E)) : transmittedOf (o ++ o') = transmittedOf o ++ transmittedOf o' :=
  List.filterMap_append

/-- The handler or a part of it: it calls `async_send_to` with `ds`, leaves `room` and the
packets that were there, and sends in the calls what it was given; every call is sent or
outstanding. -/
structure SendCalls (ds : List (E × Bytes)) (room : RawUdpRoom E) (s s' : UdpServer E)
    (o : List (UdpObs E)) : Prop where
  room : s'.room = room
  packets : s'.packets.cell = s.packets.cell
  called : calledOf o = ds
  intact : ∀ x ∈ o, x.Intact
  owed : (transmittedOf o ++ s'.owed).Perm (s.owed ++ ds)

namespace SendCalls

variable {ds ds' : List (E × Bytes)} {room room' : RawUdpRoom E} {s s₁ s' : UdpServer E} {o o' : List (UdpObs E)}

theorem nil (s : UdpServer E) : SendCalls [] s.room s s [] where
  room := rfl
  packets := rfl
  called := rfl
  intact _ hx := absurd hx List.not_mem_nil
  owed := by
    rw [List.append_nil]
    exact List.Perm.refl _

theorem append (h : SendCalls ds room s s₁ o) (h' : SendCalls ds' room' s₁ s' o') :
    SendCalls (ds ++ ds') room' s s' (o ++ o') where
  room := h'.room
  packets := h'.packets.trans h.packets
  called := by rw [calledOf_append, h.called, h'.called]
  intact x hx := (List.mem_append.mp hx).elim (h.intact x) (h'.intact x)
  owed := by
    have hfirst := h.owed.append_right ds'
    have hsecond := h'.owed.append_left (transmittedOf o)
    rw [transmittedOf_append, List.append_assoc]
    rw [List.append_assoc, List.append_assoc] at hfirst
    exact hsecond.trans hfirst

/-- A packet made for it and destroyed. -/
theorem of_make {b : Bytes} (h : SendCalls ds room { s with packets := (s.packets.make b).2 } s' o) :
    SendCalls ds room s { s' with packets := s'.packets.destroy (s.packets.make b).1 } o where
  room := h.room
  packets := Objects.cell_make_destroy h.packets
  called := h.called
  intact := h.intact
  owed := h.owed

end SendCalls

namespace UdpServer

variable (atOnce : RawUdpConnection E → Bool)

theorem sendUdp_calls {s : UdpServer E} {packet : ℕ} {b : Bytes} (hb : s.packets.cell packet = some b)
    (c : RawUdpConnection E) : SendCalls [(c.remote_endpoint, b)] s.room s (sendUdp atOnce s c packet).1
      (sendUdp atOnce s c packet).2 := by
  unfold sendUdp
  rw [hb]
  dsimp only
  split
  · refine ⟨rfl, rfl, rfl, ?_, ?_⟩
    · intro x hx
      rcases List.mem_pair.mp hx with rfl | rfl
      · trivial
      · rfl
    · exact List.perm_append_comm
  · refine ⟨rfl, rfl, rfl, ?_, ?_⟩
    · intro x hx
      rw [List.mem_singleton.mp hx]
      trivial
    · show (s.pending ++ [_]).map _ |>.Perm _
      rw [List.map_append]
      exact List.Perm.refl _

theorem respond_calls (s : UdpServer E) (sender : RawUdpConnection E) (response : NetPacket) :
    SendCalls [sender.send response] s.room s (respond atOnce s sender response).1
      (respond atOnce s sender response).2 :=
  (sendUdp_calls atOnce (s := { s with packets := (s.packets.make response.header).2 })
    (Objects.cell_make s.packets response.header) sender).of_make

theorem sendAll_calls {packet : ℕ} {msg : NetPacket} : ∀ (cs : List (RawUdpConnection E)) {s : UdpServer E},
    s.packets.cell packet = some msg.header → SendCalls (cs.map fun c => c.send msg) s.room s
      (sendAll atOnce packet s cs).1 (sendAll atOnce packet s cs).2
  | [], s, _ => SendCalls.nil s
  | c :: cs, s, hb => by
    have hfirst := sendUdp_calls atOnce hb c
    have hrest := sendAll_calls cs (s := (sendUdp atOnce s c packet).1) (by rw [hfirst.packets, hb])
    rw [hfirst.room] at hrest
    exact hfirst.append hrest

variable [DecidableEq E] (cfg : ServerConfig)

/-- The switch calls what `RawUdpPriv.processClientMessagePayload` sends. -/
theorem processClientMessagePayload_calls (uptime : UInt32) {s : UdpServer E} {msg : NetPacket} {packet : ℕ}
    (hb : s.packets.cell packet = some msg.header) (sender : RawUdpConnection E) :
    SendCalls (RawUdpPriv.processClientMessagePayload cfg uptime msg sender s.room).2
      (RawUdpPriv.processClientMessagePayload cfg uptime msg sender s.room).1 s
      (processClientMessagePayload atOnce cfg uptime s msg packet sender).1
      (processClientMessagePayload atOnce cfg uptime s msg packet sender).2 := by
  unfold processClientMessagePayload RawUdpPriv.processClientMessagePayload replies
  rcases hreq : msg.request with _ | _ | _ | _ | _
  · exact respond_calls atOnce s sender _
  · cases hecho : cfg.isEchoMode
    · simp only [Bool.false_eq_true, ↓reduceIte, reduceCtorEq, List.map_map]
      exact sendAll_calls atOnce _ hb
    · exact sendUdp_calls atOnce hb sender
  · exact respond_calls atOnce s sender _
  · refine ⟨rfl, rfl, rfl, fun x hx => absurd hx List.not_mem_nil, ?_⟩
    exact (List.append_nil _).symm ▸ List.Perm.refl _
  · exact SendCalls.nil s

theorem onReceived_calls (s : UdpServer E) (peer : RawUdpConnection E) (rx : Received E) :
    SendCalls (peer.onReceived cfg rx s.room).2 (peer.onReceived cfg rx s.room).1 s
      (onReceived atOnce cfg s peer rx).1 (onReceived atOnce cfg s peer rx).2 := by
  unfold onReceived RawUdpConnection.onReceived
  rcases RawUdpConnection.makePacket cfg.version rx.uptime rx.data with _ | newPacket
  · exact SendCalls.nil s
  · have hmade := Objects.cell_make s.packets newPacket.header
    exact (processClientMessagePayload_calls atOnce cfg rx.uptime
      (s := { s with packets := (s.packets.make newPacket.header).2 }) hmade peer).of_make

/-- **The handler** calls what `RawUdpServer.onReceive` sends, and leaves its room. -/
theorem onReceive_calls (s : UdpServer E) (rx : Received E) :
    SendCalls (RawUdpServer.onReceive cfg s.room rx).2 (RawUdpServer.onReceive cfg s.room rx).1 s
      (onReceive atOnce cfg s rx).1 (onReceive atOnce cfg s rx).2 := by
  unfold onReceive RawUdpServer.onReceive
  by_cases hpos : 0 < rx.data.length
  · rw [if_pos hpos, if_pos hpos]
    have h := onReceived_calls atOnce cfg { s with room := (s.room.connect rx).2 } (s.room.connect rx).1 rx
    exact ⟨h.room, h.packets, h.called, h.intact, h.owed⟩
  · rw [if_neg hpos, if_neg hpos]
    exact SendCalls.nil s

/-! ### Runs -/

/-- Between the handlers there is no packet, so a send that goes out then is not what was
given; and what was called is what was sent and what is outstanding. -/
structure Sends (es : List (UdpEvent E)) (s : UdpServer E) (o : List (UdpObs E)) : Prop where
  packets : ∀ n, s.packets.cell n = none
  intact : (∀ x ∈ o, x.Intact) ↔ ∀ i, UdpEvent.transmit i ∉ es
  owed : (transmittedOf o ++ s.owed).Perm (calledOf o)

theorem sends_exec {es : List (UdpEvent E)} {s : UdpServer E} {o : List (UdpObs E)} (h : exec cfg es = some (s, o)) :
    Sends es s o := by
  refine Lts.history_rule (step cfg) Sends ?_ ?_ h
  · exact ⟨fun _ => rfl, iff_of_true (fun x hx => absurd hx List.not_mem_nil) (fun i => List.not_mem_nil), .refl _⟩
  · intro es s o e s' o' hS hstep
    cases e with
    | receive rx atOnce =>
      have heq : onReceive atOnce cfg s rx = (s', o') := Option.some.inj hstep
      have hcalls := onReceive_calls atOnce cfg s rx
      rw [heq] at hcalls
      refine ⟨fun n => ?_, ?_, ?_⟩
      · rw [hcalls.packets]
        exact hS.packets n
      · have hes : (∀ i, UdpEvent.transmit i ∉ es ++ [.receive rx atOnce]) ↔ ∀ i, UdpEvent.transmit i ∉ es := by simp
        rw [hes, ← hS.intact, List.forall_mem_append]
        exact and_iff_left hcalls.intact
      · have howed := hcalls.owed.append_left (transmittedOf o)
        have hbefore := hS.owed.append_right (RawUdpServer.onReceive cfg s.room rx).2
        rw [List.append_assoc] at hbefore
        rw [transmittedOf_append, calledOf_append, hcalls.called, List.append_assoc]
        exact howed.trans hbefore
    | transmit i =>
      obtain ⟨p, hp, heq⟩ := Option.map_eq_some_iff.mp hstep
      cases heq
      refine ⟨hS.packets, ?_, ?_⟩
      · refine iff_of_false (fun hall => ?_) fun hno => hno i (by simp)
        have hsent := hall _ (List.mem_append_right _ (List.mem_singleton_self _))
        rw [hS.packets] at hsent
        cases hsent
      · obtain ⟨hi, hget⟩ := List.getElem?_eq_some_iff.mp hp
        have hperm : (p :: s.pending.eraseIdx i).Perm s.pending := hget ▸ List.getElem_cons_eraseIdx_perm hi
        have howed := (hperm.map fun p => (p.endpoint, p.given)).append_left (transmittedOf o)
        have hcalled : calledOf (o ++ [.transmitted p.endpoint p.given (s.packets.cell p.packet)]) = calledOf o := by
          rw [calledOf_append]
          exact List.append_nil _
        rw [transmittedOf_append, hcalled, List.append_assoc]
        exact howed.trans hS.owed

end UdpServer

/-- **When what is sent is what was given.** Over every run of the server, with the sends going
out in the call or at any time after it: every datagram sent is what was given to
`async_send_to`, its packet being there, if and only if none goes out after the call. -/
theorem sent_intact_iff [DecidableEq E] (cfg : ServerConfig) (es : List (UdpEvent E)) (s : UdpServer E)
    (o : List (UdpObs E)) (h : UdpServer.exec cfg es = some (s, o)) :
    (∀ x ∈ o, x.Intact) ↔ ∀ i, UdpEvent.transmit i ∉ es :=
  (UdpServer.sends_exec cfg h).intact

/-- Three log in, and what the first says goes out to the two others at once. -/
theorem sent_intact_at_once : ∃ s o, UdpServer.exec RawUdpSpec.sampleConfig
      ([(1, 3), (2, 3), (3, 3), (1, 7)].map fun r =>
        .receive (RawUdpSpec.sampleReceived r.1 (sampleBytes r.2)) fun _ => true) = some (s, o) ∧
    (transmittedOf o).map Prod.fst = [1, 2, 3, 2, 3] ∧ ∀ x ∈ o, x.Intact := by
  have hrun : UdpServer.exec RawUdpSpec.sampleConfig ([(1, 3), (2, 3), (3, 3), (1, 7)].map fun r =>
    .receive (RawUdpSpec.sampleReceived r.1 (sampleBytes r.2)) fun _ => true) = some (_, _) := rfl
  exact ⟨_, _, hrun, rfl, (sent_intact_iff _ _ _ _ hrun).mpr (by simp)⟩

/-- The socket is busy, and the answer goes out when the handler has run. -/
theorem sent_after_destroyed : ¬ ∀ (cfg : ServerConfig) (es : List (UdpEvent ℕ)) (s : UdpServer ℕ)
    (o : List (UdpObs ℕ)), UdpServer.exec cfg es = some (s, o) → ∀ x ∈ o, x.Intact := by
  intro h
  have hrun : ∃ s o, UdpServer.exec RawUdpSpec.sampleConfig
      [.receive (RawUdpSpec.sampleReceived 1 (sampleBytes 1)) fun _ => false, .transmit 0] = some (s, o) := ⟨_, _, rfl⟩
  obtain ⟨s, o, hexec⟩ := hrun
  exact (UdpServer.sends_exec _ hexec).intact.mp (h _ _ s o hexec) 0 (by simp)

end EasyVoiceCall
