/-
# Two clients and the server between them

`client_essential/TcpClient.hpp` and `server/TcpServer.hpp` in one system. Two
`BoostAsioTcpClient`s are connected, and their sessions have joined the room.
Each of the two connections is two byte streams (`Hop`): what a side hands to
`async_write` goes on its way byte by byte, and what arrives completes the
`async_read` of the other side when it is exactly what was asked for. The
handlers of the two clients and of the server run in any order.

A step puts out what `send` and what `onDataReceived` is called with (`RelayObs`).
After every run the four hops hold packets (`Links`), and the media a client
sent are those handed to the other and those on the way (`Accounts`).

Key definitions: `Relay.step`, `Relay.Inv`.
Key theorems: `Relay.start_server`, `Relay.inv_step`, `Relay.inv_exec`.
-/
import EasyVoiceCall.TcpClient

namespace EasyVoiceCall

open Buffer NetPacket

/-! ### The system -/

inductive Peer
  | A
  | B
  deriving DecidableEq

def Peer.other : Peer → Peer
  | .A => .B
  | .B => .A

/-- A direction of a connection: from a client to the server or back. -/
inductive Hop
  | up (c : Peer)
  | down (c : Peer)
  deriving DecidableEq

/-- A server in broadcast mode, the numbers of the two sessions and which of them joined
first, and the clock readings of the packets that the read buffers are built with. -/
structure RelayConfig extends ServerConfig where
  broadcast : isEchoMode = false
  id : Peer → ℕ
  id_ne : id .A ≠ id .B
  first : Peer
  built : Hop → UInt32

structure Relay where
  server : TcpServer
  client : Peer → BoostAsioTcpClient
  line : Hop → Pipe.Line UInt8

/-- A packet a client sends. Its header announces its payload, and it is no `LogoutRequest`,
which would take the client out of the room. -/
structure Message where
  packet : NetPacket
  lengthOK : LengthOK packet.wholePacket
  stays : packet.payloadType ≠ .LogoutRequest

/-- What can happen: a call of `send`, a handler that was posted, bytes that leave a side
or arrive at one, and the completions of writes and reads. -/
inductive RelayEvent
  | send (c : Peer) (msg : Message)
  | posted (c : Peer)
  | transmit (h : Hop) (i n : ℕ)
  | arrive (h : Hop) (n : ℕ)
  | written (h : Hop) (i : ℕ)
  | readHeader (h : Hop)
  | readPayload (h : Hop) (uptime : UInt32)

inductive RelayObs
  | sent (c : Peer) (msg : NetPacket)
  | handed (c : Peer) (msg : NetPacket)

namespace Relay

variable (cfg : RelayConfig)

/-- A connection is accepted and its session joins. -/
def accept (S : TcpServer) (c : Peer) : TcpServer :=
  { S.set (cfg.id c) ⟨ofType cfg.version (cfg.built (.up c)) .Undefined 0, [], .header, false⟩ with
    room := PtrSet.insert (cfg.id c) S.room }

/-- Both clients are connected and both sessions have joined. -/
def start : Relay where
  server := accept cfg (accept cfg .start cfg.first) cfg.first.other
  client c := ⟨⟨ofType cfg.version (cfg.built (.down c)) .Undefined 0, [], .header, false⟩, []⟩
  line _ := .idle

def setClient (s : Relay) (c : Peer) (client : BoostAsioTcpClient) : Relay :=
  { s with client := Function.update s.client c client }

def setLine (s : Relay) (h : Hop) (l : Pipe.Line UInt8) : Relay :=
  { s with line := Function.update s.line h l }

/-- What the server's handlers handed to `async_write` for a session. -/
def wroteTo (id : ℕ) (o : List TcpObs) : List Bytes :=
  o.filterMap fun
    | .wrote i b => if i = id then some b else none
    | _ => none

/-- The writes that the server's handlers began, on the lines of their sessions. -/
def load (o : List TcpObs) (line : Hop → Pipe.Line UInt8) : Hop → Pipe.Line UInt8
  | .up c => line (.up c)
  | .down c => (line (.down c)).write (wroteTo (cfg.id c) o)

/-- A completion handler of the server. -/
def serve (s : Relay) (e : TcpEvent) : Option (Relay × List RelayObs) :=
  match TcpServer.step cfg.toServerConfig s.server e with
  | none => none
  | some (server, o) => some ({ s with server, line := load cfg o s.line }, [])

/-- The side that reads from a hop. -/
def reader (s : Relay) : Hop → Option TcpSession
  | .up c => s.server.sessions (cfg.id c)
  | .down c => some (s.client c).toTcpSession

/-- One event; `none` where it cannot happen. -/
def step (s : Relay) : RelayEvent → Option (Relay × List RelayObs)
  | .send c msg => some (s.setClient c ((s.client c).write msg.packet), [.sent c msg.packet])
  | .posted c =>
    match (s.client c).onPosted with
    | none => none
    | some (client, bs) =>
      some ((s.setClient c client).setLine (.up c) ((s.line (.up c)).write bs), [])
  | .transmit h i n =>
    match (s.line h).writes[i]? with
    | none => none
    | some w =>
      if 0 < n ∧ n ≤ w.length then some (s.setLine h ((s.line h).transmit i n), []) else none
  | .arrive h n =>
    match s.reader cfg h with
    | none => none
    | some r =>
      if 0 < n ∧ n ≤ (s.line h).wire.length ∧ (s.line h).got.length + n ≤ r.want then
        some (s.setLine h ((s.line h).arrive n), [])
      else none
  | .written h i =>
    if (s.line h).writes[i]? = some [] then
      let line := (s.line h).endWrite i
      match h with
      | .up c =>
        if (s.client c).writing then
          some ((s.setClient c (s.client c).onWritten.1).setLine (.up c)
            (line.write (s.client c).onWritten.2), [])
        else none
      | .down c => (s.setLine (.down c) line).serve cfg (.written (cfg.id c))
    else none
  | .readHeader (.up c) =>
    (s.setLine (.up c) (s.line (.up c)).endRead).serve cfg (.readHeader (cfg.id c) (s.line (.up c)).got)
  | .readHeader (.down c) =>
    if (s.client c).reading = .header ∧ (s.line (.down c)).got.length = FixHeaderLength then
      some ((s.setClient c ((s.client c).onHeader (s.line (.down c)).got)).setLine (.down c)
        (s.line (.down c)).endRead, [])
    else none
  | .readPayload (.up c) uptime =>
    (s.setLine (.up c) (s.line (.up c)).endRead).serve cfg
      (.readPayload (cfg.id c) (s.line (.up c)).got uptime)
  | .readPayload (.down c) _ =>
    if (s.client c).reading = .payload ∧
        (s.line (.down c)).got.length = (s.client c).read_msg.payloadLength then
      some ((s.setClient c ((s.client c).onPayload (s.line (.down c)).got).1).setLine (.down c)
        (s.line (.down c)).endRead, [.handed c ((s.client c).onPayload (s.line (.down c)).got).2])
    else none

/-- A run from the start. -/
abbrev exec (es : List RelayEvent) : Option (Relay × List RelayObs) :=
  Lts.exec (step cfg) (start cfg) es

def RelayEvent.isSend : RelayEvent → Bool
  | .send _ _ => true
  | _ => false

/-- No step remains but calls of `send`. -/
def Quiet (s : Relay) : Prop := ∀ e : RelayEvent, RelayEvent.isSend e = false → step cfg s e = none

/-- The packets a client's `send` was called with. -/
def sentBy (c : Peer) (o : List RelayObs) : List NetPacket :=
  o.filterMap fun
    | .sent c' msg => if c' = c then some msg else none
    | .handed _ _ => none

/-- The packets a client's `onDataReceived` was called with. -/
def handedTo (c : Peer) (o : List RelayObs) : List NetPacket :=
  o.filterMap fun
    | .sent _ _ => none
    | .handed c' msg => if c' = c then some msg else none

end Relay

/-! ### The four hops -/

theorem RelayConfig.id_inj (cfg : RelayConfig) {c d : Peer} : cfg.id c = cfg.id d ↔ c = d := by
  have hne := cfg.id_ne
  cases c <;> cases d <;> simp [hne, hne.symm]

/-- The two sessions are in the room, and the packets `P` are under way. `cl` are the
clients' ends of the connections and `t` the server's. -/
structure Links (cfg : RelayConfig) (S : TcpServer) (cl : Peer → TcpSession) (L : Hop → Pipe.Line UInt8)
    (t : Peer → TcpSession) (P : Hop → List NetPacket) : Prop where
  room : ∀ c, S.room.toList.filter (· ≠ cfg.id c) = [cfg.id c.other]
  session : ∀ c, S.sessions (cfg.id c) = some (t c)
  up : ∀ c, Linked (cl c) (t c) (L (.up c)) (P (.up c))
  down : ∀ c, Linked (t c) (cl c) (L (.down c)) (P (.down c))

namespace Links

variable {cfg : RelayConfig} {S : TcpServer} {cl t : Peer → TcpSession} {L : Hop → Pipe.Line UInt8}
  {P : Hop → List NetPacket} {c : Peer} {x : TcpSession} {l : Pipe.Line UInt8} {Q : List NetPacket}

/-- A client writes. -/
theorem clientWrite (h : Links cfg S cl L t P) (hx : Linked x (t c) l Q)
    (hm : x.read_msg = (cl c).read_msg) (hr : x.reading = (cl c).reading) :
    Links cfg S (Function.update cl c x) (Function.update L (.up c) l) t (Function.update P (.up c) Q) := by
  refine ⟨h.room, h.session, fun d => ?_, fun d => ?_⟩
  · by_cases hd : d = c
    · subst hd
      simpa using hx
    · simpa [hd] using h.up d
  · by_cases hd : d = c
    · subst hd
      simpa using (h.down d).congr rfl rfl hm hr
    · simpa [hd] using h.down d

/-- A client reads. -/
theorem clientRead (h : Links cfg S cl L t P) (hx : Linked (t c) x l Q)
    (hq : x.write_msgs = (cl c).write_msgs) (hw : x.writing = (cl c).writing) :
    Links cfg S (Function.update cl c x) (Function.update L (.down c) l) t (Function.update P (.down c) Q) := by
  refine ⟨h.room, h.session, fun d => ?_, fun d => ?_⟩
  · by_cases hd : d = c
    · subst hd
      simpa using (h.up d).congr hq hw rfl rfl
    · simpa [hd] using h.up d
  · by_cases hd : d = c
    · subst hd
      simpa using hx
    · simpa [hd] using h.down d

theorem session_set (h : ∀ d, S.sessions (cfg.id d) = some (t d)) (d : Peer) :
    (S.set (cfg.id c) x).sessions (cfg.id d) = some (Function.update t c x d) := by
  rw [TcpServer.sessions_set, Function.update_apply]
  by_cases hd : d = c
  · rw [if_pos (by rw [hd]), if_pos hd]
  · rw [if_neg (by rwa [cfg.id_inj]), if_neg hd, h d]

theorem session_eq (h : Links cfg S cl L t P) (hx : S.sessions (cfg.id c) = some x) : x = t c :=
  Option.some_injective _ (hx.symm.trans (h.session c))

/-- A session writes. -/
theorem serverWrite (h : Links cfg S cl L t P) (hx : Linked x (cl c) l Q)
    (hm : x.read_msg = (t c).read_msg) (hr : x.reading = (t c).reading) :
    Links cfg (S.set (cfg.id c) x) cl (Function.update L (.down c) l) (Function.update t c x)
      (Function.update P (.down c) Q) := by
  refine ⟨h.room, session_set h.session, fun d => ?_, fun d => ?_⟩
  · by_cases hd : d = c
    · subst hd
      simpa using (h.up d).congr rfl rfl hm hr
    · simpa [hd] using h.up d
  · by_cases hd : d = c
    · subst hd
      simpa using hx
    · simpa [hd] using h.down d

/-- A session reads. -/
theorem serverRead (h : Links cfg S cl L t P) (hx : Linked (cl c) x l Q)
    (hq : x.write_msgs = (t c).write_msgs) (hw : x.writing = (t c).writing) :
    Links cfg (S.set (cfg.id c) x) cl (Function.update L (.up c) l) (Function.update t c x)
      (Function.update P (.up c) Q) := by
  refine ⟨h.room, session_set h.session, fun d => ?_, fun d => ?_⟩
  · by_cases hd : d = c
    · subst hd
      simpa using hx
    · simpa [hd] using h.up d
  · by_cases hd : d = c
    · subst hd
      simpa using (h.down d).congr hq hw rfl rfl
    · simpa [hd] using h.down d

/-- Bytes move on the way up. -/
theorem moveUp (h : Links cfg S cl L t P) (hx : Linked (cl c) (t c) l (P (.up c))) :
    Links cfg S cl (Function.update L (.up c) l) t P := by
  have hw := h.clientWrite hx rfl rfl
  rwa [Function.update_eq_self, Function.update_eq_self] at hw

/-- Bytes move on the way down. -/
theorem moveDown (h : Links cfg S cl L t P) (hx : Linked (t c) (cl c) l (P (.down c))) :
    Links cfg S cl (Function.update L (.down c) l) t P := by
  have hr := h.clientRead hx rfl rfl
  rwa [Function.update_eq_self, Function.update_eq_self] at hr

end Links

/-! ### What is on the way from one client to the other -/

namespace Relay

/-- The media packets of a list. -/
def media (ps : List NetPacket) : List NetPacket := ps.filter isMediaType

/-- What the server answers itself. -/
def isResponse (p : NetPacket) : Bool :=
  p.payloadType = .HeartBeatResponse || p.payloadType = .LoginResponse

/-- The media a client sent was handed to the other or is, in this order, on the way
down, on the way up or in a handler. -/
structure Accounts (posted : Peer → List NetPacket) (P : Hop → List NetPacket) (o : List RelayObs) : Prop where
  up : ∀ c, ∀ p ∈ P (.up c) ++ posted c, LengthOK p.wholePacket ∧ p.payloadType ≠ .LogoutRequest
  down : ∀ c, ∀ p ∈ handedTo c o ++ P (.down c), p.isMediaType = true ∨ isResponse p = true
  conserved : ∀ c, media (sentBy c o) =
    media (handedTo c.other o ++ P (.down c.other)) ++ media (P (.up c) ++ posted c)

@[simp] theorem sentBy_append (c : Peer) (o o' : List RelayObs) :
    sentBy c (o ++ o') = sentBy c o ++ sentBy c o' :=
  List.filterMap_append

@[simp] theorem handedTo_append (c : Peer) (o o' : List RelayObs) :
    handedTo c (o ++ o') = handedTo c o ++ handedTo c o' :=
  List.filterMap_append

@[simp] theorem sentBy_sent (c d : Peer) (m : NetPacket) : sentBy c [.sent d m] = if d = c then [m] else [] := by
  unfold sentBy
  split <;> simp [*]

@[simp] theorem sentBy_handed (c d : Peer) (m : NetPacket) : sentBy c [.handed d m] = [] := rfl

@[simp] theorem handedTo_handed (c d : Peer) (m : NetPacket) :
    handedTo c [.handed d m] = if d = c then [m] else [] := by
  unfold handedTo
  split <;> simp [*]

@[simp] theorem handedTo_sent (c d : Peer) (m : NetPacket) : handedTo c [.sent d m] = [] := rfl

/-- What is in the queues after a packet has been put into one of them. -/
theorem mem_update_put {ι : Type} [DecidableEq ι] {f : ι → List NetPacket} {k j : ι} {q : List NetPacket}
    {m p : NetPacket} (hq : f k = q) (hp : p ∈ Function.update f k (q ++ [m]) j) : p ∈ f j ∨ p = m := by
  by_cases hj : j = k
  · subst hj
    rw [Function.update_self, ← hq] at hp
    exact (List.mem_append.mp hp).imp_right List.mem_singleton.mp
  · rw [Function.update_of_ne hj] at hp
    exact Or.inl hp

/-- What is in them after one has been taken out. -/
theorem mem_update_take {ι : Type} [DecidableEq ι] {f : ι → List NetPacket} {k j : ι} {q : List NetPacket}
    {m p : NetPacket} (hq : f k = m :: q) (hp : p ∈ Function.update f k q j) : p ∈ f j := by
  by_cases hj : j = k
  · subst hj
    rw [Function.update_self] at hp
    rw [hq]
    exact List.mem_cons_of_mem m hp
  · rwa [Function.update_of_ne hj] at hp

theorem media_append (a b : List NetPacket) : media (a ++ b) = media a ++ media b := List.filter_append ..

@[simp] theorem other_other (c : Peer) : c.other.other = c := by cases c <;> rfl

@[simp] theorem other_ne (c : Peer) : c.other ≠ c := by cases c <;> simp [Peer.other]

theorem other_inj {c d : Peer} : c.other = d.other ↔ c = d := by
  cases c <;> cases d <;> simp [Peer.other]

theorem ne_other_iff {c d : Peer} : c ≠ d.other ↔ c = d := by
  cases c <;> cases d <;> simp [Peer.other]

namespace Accounts

variable {posted : Peer → List NetPacket} {P : Hop → List NetPacket} {o : List RelayObs} {c : Peer}
  {m : NetPacket} {Q : List NetPacket}

/-- `send` is called. -/
theorem send (h : Accounts posted P o) (hm : LengthOK m.wholePacket) (hl : m.payloadType ≠ .LogoutRequest) :
    Accounts (Function.update posted c (posted c ++ [m])) P (o ++ [.sent c m]) := by
  refine ⟨fun d p hp => ?_, fun d p hp => ?_, fun d => ?_⟩
  · obtain hp | hp := List.mem_append.mp hp
    · exact h.up d p (List.mem_append_left _ hp)
    · obtain hp | rfl := mem_update_put rfl hp
      · exact h.up d p (List.mem_append_right _ hp)
      · exact ⟨hm, hl⟩
  · exact h.down d p (by simpa using hp)
  · rw [sentBy_append, handedTo_append, media_append, h.conserved d]
    by_cases hd : d = c
    · subst hd
      simp [media]
    · simp [media, hd, Ne.symm hd]

/-- Nothing changes but where packets are. -/
theorem move {posted' : Peer → List NetPacket} {P' : Hop → List NetPacket} {o' : List RelayObs}
    (h : Accounts posted P o) (hs : ∀ d, sentBy d (o ++ o') = sentBy d o)
    (hup : ∀ d, P' (.up d) ++ posted' d = P (.up d) ++ posted d)
    (hdown : ∀ d, handedTo d (o ++ o') ++ P' (.down d) = handedTo d o ++ P (.down d)) :
    Accounts posted' P' (o ++ o') := by
  refine ⟨fun d => ?_, fun d => ?_, fun d => ?_⟩
  · rw [hup]
    exact h.up d
  · rw [hdown]
    exact h.down d
  · rw [hs, hup, hdown, h.conserved]

/-- A handler runs. -/
theorem post (h : Accounts posted P o) (hp : posted c = m :: Q) :
    Accounts (Function.update posted c Q) (Function.update P (.up c) (P (.up c) ++ [m])) o := by
  rw [← List.append_nil o]
  refine h.move (by simp) (fun d => ?_) (by simp)
  by_cases hd : d = c
  · subst hd
    simp [hp]
  · simp [hd]

/-- A packet is handed over. -/
theorem hand (h : Accounts posted P o) (hP : P (.down c) = m :: Q) :
    Accounts posted (Function.update P (.down c) Q) (o ++ [.handed c m]) := by
  refine h.move (by simp) (by simp) fun d => ?_
  by_cases hd : d = c
  · subst hd
    simp [hP]
  · simp [hd, Ne.symm hd]

/-- The server reads a packet that is not for the other client. -/
theorem drop (h : Accounts posted P o) (hP : P (.up c) = m :: Q) (hm : m.isMediaType = false) :
    Accounts posted (Function.update P (.up c) Q) o := by
  refine ⟨fun d p hp => ?_, fun d => ?_, fun d => ?_⟩
  · obtain hp | hp := List.mem_append.mp hp
    · exact h.up d p (List.mem_append_left _ (mem_update_take hP hp))
    · exact h.up d p (List.mem_append_right _ hp)
  · simpa using h.down d
  · rw [h.conserved d]
    by_cases hd : d = c
    · subst hd
      simp [media, hP, hm]
    · simp [hd]

/-- The server answers. -/
theorem answer (h : Accounts posted P o) (hm : m.isMediaType = false) (hr : isResponse m = true) :
    Accounts posted (Function.update P (.down c) (P (.down c) ++ [m])) o := by
  refine ⟨fun d => by simpa using h.up d, fun d p hp => ?_, fun d => ?_⟩
  · obtain hp | hp := List.mem_append.mp hp
    · exact h.down d p (List.mem_append_left _ hp)
    · obtain hp | rfl := mem_update_put rfl hp
      · exact h.down d p (List.mem_append_right _ hp)
      · exact Or.inr hr
  · rw [h.conserved d]
    by_cases hd : d.other = c
    · simp [media, hd, hm]
    · simp [hd]

/-- The server relays a packet. -/
theorem relay (h : Accounts posted P o) (hP : P (.up c) = m :: Q) (hm : m.isMediaType = true) :
    Accounts posted
      (Function.update (Function.update P (.up c) Q) (.down c.other) (P (.down c.other) ++ [m])) o := by
  have hback : Function.update P (.up c) Q (.down c.other) = P (.down c.other) := Function.update_of_ne (by simp) _ _
  refine ⟨fun d p hp => ?_, fun d p hp => ?_, fun d => ?_⟩
  · rw [Function.update_of_ne (by simp)] at hp
    obtain hp | hp := List.mem_append.mp hp
    · exact h.up d p (List.mem_append_left _ (mem_update_take hP hp))
    · exact h.up d p (List.mem_append_right _ hp)
  · obtain hp | hp := List.mem_append.mp hp
    · exact h.down d p (List.mem_append_left _ hp)
    · obtain hp | rfl := mem_update_put hback hp
      · exact h.down d p (List.mem_append_right _ (mem_update_take hP hp))
      · exact Or.inl hm
  · rw [h.conserved d]
    by_cases hd : d = c
    · -- From the front of the way up to the back of the way down.
      subst hd
      simp [media, hP, hm]
    · simp [hd, other_inj]

end Accounts

/-! ### The server's handlers -/

theorem wroteTo_map (id i : ℕ) (bs : List Bytes) :
    wroteTo id (bs.map (.wrote i)) = if i = id then bs else [] := by
  unfold wroteTo
  by_cases h : i = id <;> simp [h]

variable {cfg : RelayConfig}

theorem load_nil (cfg : RelayConfig) (L : Hop → Pipe.Line UInt8) : load cfg [] L = L := by
  funext k
  rcases k with c | c
  · rfl
  · simp [load, wroteTo, Pipe.Line.write]

/-- One session's write goes on its line. -/
theorem load_map {o : List TcpObs} {c : Peer} {bs : List Bytes} (L : Hop → Pipe.Line UInt8)
    (ho : ∀ id, wroteTo id o = wroteTo id (bs.map (.wrote (cfg.id c)))) :
    load cfg o L = Function.update L (.down c) ((L (.down c)).write bs) := by
  funext k
  rcases k with d | d
  · simp [load]
  · by_cases hd : d = c
    · subst hd
      simp [load, ho, wroteTo_map]
    · have hne : ¬ cfg.id c = cfg.id d := fun he => hd (cfg.id_inj.mp he).symm
      simp [load, ho, wroteTo_map, hd, hne, Pipe.Line.write]

/-- What the room does with a packet that a client may send: media go to the other
client, and a request is answered. -/
theorem replies_relay (S : TcpServer) (hroom : ∀ c, S.room.toList.filter (· ≠ cfg.id c) = [cfg.id c.other])
    (up : UInt32) (msg : NetPacket) (c : Peer) :
    (msg.isMediaType = true ∧
      replies cfg.toServerConfig up msg (cfg.id c) S.room.toList = [(cfg.id c.other, msg)]) ∨
    (msg.isMediaType = false ∧ ∃ x, LengthOK x.wholePacket ∧ x.isMediaType = false ∧
      isResponse x = true ∧ replies cfg.toServerConfig up msg (cfg.id c) S.room.toList = [(cfg.id c, x)]) ∨
    (msg.isMediaType = false ∧ replies cfg.toServerConfig up msg (cfg.id c) S.room.toList = []) := by
  have hmedia := request_eq_media_iff msg
  unfold replies
  rcases hreq : msg.request <;> simp only [hreq, reduceCtorEq, false_iff, Bool.not_eq_true, true_iff] at hmedia
  · refine Or.inr (Or.inl ⟨hmedia, _, (format_ofType ..).2, ?_, ?_, rfl⟩)
    · simp [isMediaType, PayloadType.HeartBeatResponse, PayloadType.AudioMessage_CN, PayloadType.AudioMessage,
        PayloadType.TextMessage]
    · simp [isResponse]
  · left
    simp only [cfg.broadcast, Bool.false_eq_true, if_false, hroom c]
    exact ⟨hmedia, rfl⟩
  · refine Or.inr (Or.inl ⟨hmedia, _, (format_ofType ..).2, ?_, ?_, rfl⟩)
    · simp [isMediaType, PayloadType.LoginResponse, PayloadType.AudioMessage_CN, PayloadType.AudioMessage,
        PayloadType.TextMessage]
    · simp [isResponse]
  · exact Or.inr (Or.inr ⟨hmedia, rfl⟩)
  · exact Or.inr (Or.inr ⟨hmedia, rfl⟩)

/-- A packet that is no `LogoutRequest` leaves the room as it is. -/
theorem afterPayload_eq {S : TcpServer} {id : ℕ} {x : TcpSession} {b : Bytes} {up : UInt32}
    (hmsg : (x.onPayload b).read_msg.payloadType ≠ .LogoutRequest) :
    TcpServer.afterPayload cfg.toServerConfig S id x b up = S.set id (x.onPayload b) := by
  have hreq : (x.onPayload b).read_msg.request ≠ .logout := by rwa [Ne, request_eq_logout_iff]
  rw [TcpServer.afterPayload, Room.processClientMessagePayload, if_neg hreq]
  rfl

theorem load_received (i : ℕ) (m : NetPacket) (o : List TcpObs) (L : Hop → Pipe.Line UInt8) :
    load cfg (.received i m :: o) L = load cfg o L := by
  funext k
  cases k <;> rfl

/-- One `deliver`. -/
theorem deliver_links {S : TcpServer} {cl t : Peer → TcpSession} {L : Hop → Pipe.Line UInt8}
    {P : Hop → List NetPacket} (h : Links cfg S cl L t P) (sender : ℕ) (c : Peer) {x : NetPacket}
    (hx : LengthOK x.wholePacket) :
    ∃ t', Links cfg (TcpServer.deliverAll sender S [(cfg.id c, x)]).1 cl
      (load cfg (TcpServer.deliverAll sender S [(cfg.id c, x)]).2 L) t'
      (Function.update P (.down c) (P (.down c) ++ [x])) := by
  have hdel : TcpServer.deliverAll sender S [(cfg.id c, x)] = (S.set (cfg.id c) ((t c).deliver x).1,
      .delivered sender (cfg.id c) x :: ((t c).deliver x).2.map (.wrote (cfg.id c))) := by
    simp only [TcpServer.deliverAll, TcpServer.deliver, h.session c, List.append_nil]
  obtain ⟨hm, hr, -⟩ := TcpServer.session_deliver_reads (t c) x
  have hload : load cfg (TcpServer.deliverAll sender S [(cfg.id c, x)]).2 L =
      Function.update L (.down c) ((L (.down c)).write ((t c).deliver x).2) := by
    rw [hdel]
    exact load_map L fun id => rfl
  rw [hload, hdel]
  exact ⟨_, h.serverWrite ((h.down c).deliver hx) hm hr⟩

/-- No `deliver`. -/
theorem deliverNone_links {S : TcpServer} {cl t : Peer → TcpSession} {L : Hop → Pipe.Line UInt8}
    {P : Hop → List NetPacket} (h : Links cfg S cl L t P) (sender : ℕ) :
    Links cfg (TcpServer.deliverAll sender S []).1 cl (load cfg (TcpServer.deliverAll sender S []).2 L) t P := by
  rw [TcpServer.deliverAll, load_nil]
  exact h

/-! ### One event -/

/-- The clients' ends of the connections. -/
def ends (s : Relay) (c : Peer) : TcpSession := (s.client c).toTcpSession

/-- The packets of the handlers that were posted. -/
def pending (s : Relay) (c : Peer) : List NetPacket := (s.client c).posted

theorem ends_setClient (s : Relay) (c : Peer) (x : BoostAsioTcpClient) :
    (s.setClient c x).ends = Function.update s.ends c x.toTcpSession := by
  funext d
  by_cases hd : d = c <;> simp [ends, setClient, hd]

theorem pending_setClient (s : Relay) (c : Peer) (x : BoostAsioTcpClient) :
    (s.setClient c x).pending = Function.update s.pending c x.posted := by
  funext d
  by_cases hd : d = c <;> simp [pending, setClient, hd]

/-- What holds after every run: packets are under way on the four hops, and none is lost. -/
def Inv (cfg : RelayConfig) (s : Relay) (o : List RelayObs) : Prop :=
  ∃ t P, Links cfg s.server s.ends s.line t P ∧ Accounts s.pending P o

variable {s s' : Relay} {o o' : List RelayObs}

theorem inv_send (h : Inv cfg s o) (c : Peer) (msg : Message) :
    Inv cfg (s.setClient c ((s.client c).write msg.packet)) (o ++ [.sent c msg.packet]) := by
  obtain ⟨t, P, hl, ha⟩ := h
  refine ⟨t, P, ?_, ?_⟩
  · rw [ends_setClient]
    show Links cfg s.server (Function.update s.ends c (s.ends c)) s.line t P
    rwa [Function.update_eq_self]
  · rw [pending_setClient]
    exact ha.send msg.lengthOK msg.stays

/-- A client and a line change. -/
theorem inv_of_client {t : Peer → TcpSession} {P : Hop → List NetPacket} {c : Peer} {k : Hop}
    {x : BoostAsioTcpClient} {l : Pipe.Line UInt8}
    (hl : Links cfg s.server (Function.update s.ends c x.toTcpSession) (Function.update s.line k l) t P)
    (ha : Accounts (Function.update s.pending c x.posted) P o) : Inv cfg ((s.setClient c x).setLine k l) o := by
  refine ⟨t, P, ?_, ?_⟩
  · show Links cfg s.server (s.setClient c x).ends _ t P
    rwa [ends_setClient]
  · show Accounts (s.setClient c x).pending P o
    rwa [pending_setClient]

/-- A client's end of its connection and a line change. -/
theorem inv_of_end {t : Peer → TcpSession} {P : Hop → List NetPacket} {c : Peer} {k : Hop}
    {x : BoostAsioTcpClient} {l : Pipe.Line UInt8}
    (hl : Links cfg s.server (Function.update s.ends c x.toTcpSession) (Function.update s.line k l) t P)
    (ha : Accounts s.pending P o) (hx : x.posted = s.pending c) : Inv cfg ((s.setClient c x).setLine k l) o := by
  refine inv_of_client hl ?_
  rwa [hx, Function.update_eq_self]

theorem inv_posted (h : Inv cfg s o) {c : Peer} {x : BoostAsioTcpClient} {bs : List Bytes}
    (hx : (s.client c).onPosted = some (x, bs)) :
    Inv cfg ((s.setClient c x).setLine (.up c) ((s.line (.up c)).write bs)) o := by
  obtain ⟨t, P, hl, ha⟩ := h
  unfold BoostAsioTcpClient.onPosted at hx
  split at hx
  · cases hx
  · rename_i msg posted hp
    cases hx
    have hm := ha.up c msg (List.mem_append_right _ (by rw [pending, hp]; exact List.mem_cons_self))
    obtain ⟨hread, hreading, -⟩ := TcpServer.session_deliver_reads (s.ends c) msg
    exact inv_of_client (hl.clientWrite ((hl.up c).deliver hm.1) hread hreading) (ha.post hp)

theorem inv_transmit (h : Inv cfg s o) {k : Hop} {i n : ℕ} {b : Bytes} (hb : (s.line k).writes[i]? = some b) :
    Inv cfg (s.setLine k ((s.line k).transmit i n)) o := by
  obtain ⟨t, P, hl, ha⟩ := h
  rcases k with c | c
  · exact ⟨t, P, hl.moveUp ((hl.up c).transmit hb), ha⟩
  · exact ⟨t, P, hl.moveDown ((hl.down c).transmit hb), ha⟩

theorem inv_arrive (h : Inv cfg s o) {k : Hop} {n : ℕ} {r : TcpSession} (hr : s.reader cfg k = some r)
    (hn : (s.line k).got.length + n ≤ r.want) : Inv cfg (s.setLine k ((s.line k).arrive n)) o := by
  obtain ⟨t, P, hl, ha⟩ := h
  rcases k with c | c
  · have hrt : r = t c := hl.session_eq hr
    subst hrt
    exact ⟨t, P, hl.moveUp ((hl.up c).arrive hn), ha⟩
  · cases hr
    exact ⟨t, P, hl.moveDown ((hl.down c).arrive hn), ha⟩

theorem inv_clientWritten (h : Inv cfg s o) {c : Peer} {i : ℕ} (hb : (s.line (.up c)).writes[i]? = some []) :
    Inv cfg ((s.setClient c (s.client c).onWritten.1).setLine (.up c)
      (((s.line (.up c)).endWrite i).write (s.client c).onWritten.2)) o := by
  obtain ⟨t, P, hl, ha⟩ := h
  obtain ⟨hread, hreading⟩ := TcpServer.session_onWritten_reads (s.ends c)
  exact inv_of_end (hl.clientWrite ((hl.up c).written hb) hread hreading) (by rwa [Function.update_eq_self]) rfl

theorem inv_clientHeader (h : Inv cfg s o) {c : Peer} (hr : (s.client c).reading = .header)
    (hgot : (s.line (.down c)).got.length = FixHeaderLength) :
    Inv cfg ((s.setClient c ((s.client c).onHeader (s.line (.down c)).got)).setLine (.down c)
      (s.line (.down c)).endRead) o := by
  obtain ⟨t, P, hl, ha⟩ := h
  exact inv_of_end (hl.clientRead ((hl.down c).onHeader hr hgot) rfl rfl) (by rwa [Function.update_eq_self]) rfl

theorem inv_clientPayload (h : Inv cfg s o) {c : Peer} (hr : (s.client c).reading = .payload)
    (hgot : (s.line (.down c)).got.length = (s.client c).read_msg.payloadLength) :
    Inv cfg ((s.setClient c ((s.client c).onPayload (s.line (.down c)).got).1).setLine (.down c)
      (s.line (.down c)).endRead) (o ++ [.handed c ((s.client c).onPayload (s.line (.down c)).got).2]) := by
  obtain ⟨t, P, hl, ha⟩ := h
  obtain ⟨Q, hP, hlink⟩ := (hl.down c).onPayload hr hgot
  exact inv_of_end (hl.clientRead hlink rfl rfl) (ha.hand hP) rfl

/-- A handler of the server runs. -/
theorem serve_some {e : TcpEvent} (hs : serve cfg s e = some (s', o')) :
    ∃ S' w, TcpServer.Steps cfg.toServerConfig s.server e S' w ∧
      s' = { s with server := S', line := load cfg w s.line } ∧ o' = [] := by
  unfold serve at hs
  split at hs
  · cases hs
  · rename_i S' w hstep
    cases hs
    exact ⟨S', w, TcpServer.steps_of_step hstep, rfl, rfl⟩

theorem serve_ne_none {e : TcpEvent} (h : TcpServer.step cfg.toServerConfig s.server e ≠ none) :
    serve cfg s e ≠ none := by
  obtain ⟨r, hr⟩ := Option.ne_none_iff_exists'.mp h
  simp [serve, hr]

theorem inv_serverWritten (h : Inv cfg s o) {c : Peer} {i : ℕ} (hb : (s.line (.down c)).writes[i]? = some [])
    (hs : serve cfg (s.setLine (.down c) ((s.line (.down c)).endWrite i)) (.written (cfg.id c)) = some (s', o')) :
    Inv cfg s' (o ++ o') := by
  obtain ⟨t, P, hl, ha⟩ := h
  obtain ⟨S', w, hsteps, rfl, rfl⟩ := serve_some hs
  rw [List.append_nil]
  cases hsteps with
  | @written id x hx hw =>
    have hxt : x = t c := hl.session_eq hx
    subst hxt
    obtain ⟨hread, hreading⟩ := TcpServer.session_onWritten_reads (t c)
    have hload : load cfg ((t c).onWritten.2.map (.wrote (cfg.id c)))
        (Function.update s.line (.down c) ((s.line (.down c)).endWrite i)) =
        Function.update s.line (.down c) (((s.line (.down c)).endWrite i).write (t c).onWritten.2) := by
      rw [load_map _ fun id => rfl, Function.update_self, Function.update_idem]
    have hwrite := hl.serverWrite ((hl.down c).written hb) hread hreading
    rw [Function.update_eq_self, ← hload] at hwrite
    exact ⟨_, P, hwrite, ha⟩

theorem inv_serverHeader (h : Inv cfg s o) {c : Peer}
    (hs : serve cfg (s.setLine (.up c) (s.line (.up c)).endRead)
      (.readHeader (cfg.id c) (s.line (.up c)).got) = some (s', o')) : Inv cfg s' (o ++ o') := by
  obtain ⟨t, P, hl, ha⟩ := h
  obtain ⟨S', w, hsteps, rfl, rfl⟩ := serve_some hs
  rw [List.append_nil]
  cases hsteps with
  | @header id b x hx hr hgot =>
    have hxt : x = t c := hl.session_eq hx
    subst hxt
    have hread := hl.serverRead ((hl.up c).onHeader hr hgot) rfl rfl
    rw [Function.update_eq_self, ← load_nil cfg (Function.update s.line _ _)] at hread
    exact ⟨_, P, hread, ha⟩

/-- The server reads a packet to its end: it goes to the other client, is answered, or
is dropped. -/
theorem inv_serverPayload (h : Inv cfg s o) {c : Peer} {up : UInt32}
    (hs : serve cfg (s.setLine (.up c) (s.line (.up c)).endRead)
      (.readPayload (cfg.id c) (s.line (.up c)).got up) = some (s', o')) : Inv cfg s' (o ++ o') := by
  obtain ⟨t, P, hl, ha⟩ := h
  obtain ⟨S', w, hsteps, rfl, rfl⟩ := serve_some hs
  rw [List.append_nil]
  cases hsteps with
  | @payload id b up x hx hr hgot =>
    have hxt : x = t c := hl.session_eq hx
    subst hxt
    obtain ⟨Q, hP, hlink⟩ := (hl.up c).onPayload hr hgot
    set msg := ((t c).onPayload (s.line (.up c)).got).read_msg with hmsg
    obtain ⟨hlen, hstays⟩ := ha.up c msg (by rw [hP]; exact List.mem_cons_self)
    have hread := hl.serverRead hlink rfl rfl
    unfold Inv
    rw [load_received, afterPayload_eq hstays]
    rcases replies_relay s.server hl.room up msg c with ⟨hmedia, hrep⟩ | ⟨hmedia, x, hxl, hxm, hxr, hrep⟩ |
      ⟨hmedia, hrep⟩
    · obtain ⟨t', hdel⟩ := deliver_links hread (cfg.id c) c.other hlen
      rw [← hrep] at hdel
      exact ⟨t', _, hdel, ha.relay hP hmedia⟩
    · obtain ⟨t', hdel⟩ := deliver_links hread (cfg.id c) c hxl
      rw [← hrep] at hdel
      exact ⟨t', _, hdel, (ha.drop hP hmedia).answer hxm hxr⟩
    · have hdel := deliverNone_links hread (cfg.id c)
      rw [← hrep] at hdel
      exact ⟨_, _, hdel, ha.drop hP hmedia⟩

/-- **One event.** -/
theorem inv_step {e : RelayEvent} (h : Inv cfg s o) (hs : step cfg s e = some (s', o')) :
    Inv cfg s' (o ++ o') := by
  cases e with
  | send c msg =>
    cases hs
    exact inv_send h c msg
  | posted c =>
    simp only [step] at hs
    split at hs
    · cases hs
    · rename_i x bs hx
      cases hs
      rw [List.append_nil]
      exact inv_posted h hx
  | transmit k i n =>
    simp only [step] at hs
    split at hs
    · cases hs
    · rename_i b hb
      obtain ⟨-, heq⟩ := Option.ite_none_right_eq_some.mp hs
      cases heq
      rw [List.append_nil]
      exact inv_transmit h hb
  | arrive k n =>
    simp only [step] at hs
    split at hs
    · cases hs
    · rename_i r hr
      obtain ⟨hn, heq⟩ := Option.ite_none_right_eq_some.mp hs
      cases heq
      rw [List.append_nil]
      exact inv_arrive h hr hn.2.2
  | written k i =>
    obtain ⟨hb, hs⟩ := Option.ite_none_right_eq_some.mp hs
    rcases k with c | c
    · obtain ⟨-, heq⟩ := Option.ite_none_right_eq_some.mp hs
      cases heq
      rw [List.append_nil]
      exact inv_clientWritten h hb
    · exact inv_serverWritten h hb hs
  | readHeader k =>
    rcases k with c | c
    · exact inv_serverHeader h hs
    · obtain ⟨hc, heq⟩ := Option.ite_none_right_eq_some.mp hs
      cases heq
      rw [List.append_nil]
      exact inv_clientHeader h hc.1 hc.2
  | readPayload k up =>
    rcases k with c | c
    · exact inv_serverPayload h hs
    · obtain ⟨hc, heq⟩ := Option.ite_none_right_eq_some.mp hs
      cases heq
      exact inv_clientPayload h hc.1 hc.2

/-! ### The start -/

theorem start_session (cfg : RelayConfig) (c : Peer) : (start cfg).server.sessions (cfg.id c) =
    some ⟨ofType cfg.version (cfg.built (.up c)) .Undefined 0, [], .header, false⟩ := by
  show ((accept cfg .start cfg.first).set _ _).sessions (cfg.id c) = _
  rw [TcpServer.sessions_set]
  by_cases hc : c = cfg.first.other
  · rw [if_pos (by rw [hc]), hc]
  · have hfirst : c = cfg.first := ne_other_iff.mp hc
    rw [if_neg (by rwa [cfg.id_inj])]
    show (TcpServer.start.set _ _).sessions (cfg.id c) = _
    rw [TcpServer.sessions_set, if_pos (by rw [hfirst]), hfirst]

theorem toList_start (cfg : RelayConfig) : (start cfg).server.room.toList =
    if cfg.id cfg.first.other ≤ cfg.id cfg.first then [cfg.id cfg.first.other, cfg.id cfg.first]
    else [cfg.id cfg.first, cfg.id cfg.first.other] := by
  have hne : cfg.id cfg.first.other ≠ cfg.id cfg.first := by simp [cfg.id_inj]
  show (PtrSet.insert (cfg.id cfg.first.other) (PtrSet.insert (cfg.id cfg.first) PtrSet.empty) : Room).toList = _
  have hone : (PtrSet.insert (cfg.id cfg.first) PtrSet.empty : Room).toList = [cfg.id cfg.first] := rfl
  rw [PtrSet.toList_insert_of_fresh, hone, List.orderedInsert]
  · rfl
  · rw [PtrSet.keys, hone]
    simpa using hne

theorem start_room (cfg : RelayConfig) (c : Peer) :
    (start cfg).server.room.toList.filter (· ≠ cfg.id c) = [cfg.id c.other] := by
  rw [toList_start]
  rcases cfg.first <;> cases c <;> split <;> simp [Peer.other, cfg.id_ne, cfg.id_ne.symm]

/-- The start is where the server is after the two connects. -/
theorem start_server (cfg : RelayConfig) : TcpServer.exec cfg.toServerConfig
    [.accept (cfg.id cfg.first) (cfg.built (.up cfg.first)),
      .accept (cfg.id cfg.first.other) (cfg.built (.up cfg.first.other))] =
    some ((start cfg).server, [.joined (cfg.id cfg.first), .joined (cfg.id cfg.first.other)]) := by
  have hfirst : TcpServer.step cfg.toServerConfig .start (.accept (cfg.id cfg.first) (cfg.built (.up cfg.first))) =
    some (accept cfg .start cfg.first, [.joined (cfg.id cfg.first)]) := rfl
  have hnew : (accept cfg .start cfg.first).sessions (cfg.id cfg.first.other) = none := by
    show (TcpServer.start.set _ _).sessions _ = none
    rw [TcpServer.sessions_set, if_neg (by simp [cfg.id_inj])]
    rfl
  have hother : TcpServer.step cfg.toServerConfig (accept cfg .start cfg.first)
      (.accept (cfg.id cfg.first.other) (cfg.built (.up cfg.first.other))) =
      some ((start cfg).server, [.joined (cfg.id cfg.first.other)]) := by
    simp only [TcpServer.step, hnew]
    rfl
  have hrest := (Lts.exec_cons_iff _).mpr ⟨_, _, _, hother, Lts.exec_nil _ _, rfl⟩
  exact (Lts.exec_cons_iff _).mpr ⟨_, _, _, hfirst, hrest, rfl⟩

theorem inv_start (cfg : RelayConfig) : Inv cfg (start cfg) [] := by
  refine ⟨fun c => ⟨ofType cfg.version (cfg.built (.up c)) .Undefined 0, [], .header, false⟩, fun _ => [],
    ⟨start_room cfg, start_session cfg, fun c => ?_, fun c => ?_⟩, ?_⟩
  · exact ⟨rfl, by simp, by simp, Pipe.holds_nil⟩
  · exact ⟨rfl, by simp [start, ends], by simp [start, ends], Pipe.holds_nil⟩
  · exact ⟨by simp [start, pending], by simp [handedTo], by simp [media, sentBy, handedTo, start, pending]⟩

theorem inv_exec {es : List RelayEvent} (h : exec cfg es = some (s, o)) : Inv cfg s o :=
  Lts.history_rule (step cfg) (fun _ s o => Inv cfg s o) (inv_start cfg)
    (fun _ _ _ _ _ _ hi hs => inv_step hi hs) h

end Relay
end EasyVoiceCall
