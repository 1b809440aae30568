/-
# The TCP server

`server/Room.hpp` and `server/TcpServer.hpp`. A session joins the room when its
connection is accepted, if the room has fewer than two participants, and then
reads packets for ever: a header, the payload it announces, the switch over
the payload type. The io_service runs one completion handler at a time, so a
run of the server is a list of completions (`TcpEvent`), each of an operation
that is outstanding. A new session is a number that no session had before.

A step puts out what an observer sees (`TcpObs`): joins, packets received,
`deliver` calls and the bytes handed to `async_write`.

Key theorems: `TcpServer.steps_of_step`, `TcpServer.sameReads_deliverAll`,
`TcpServer.mem_deliverAll`, `TcpServer.sent_exec`.
-/
import EasyVoiceCall.RawUdpServer

namespace EasyVoiceCall

open Buffer NetPacket

/-! ### The room -/

/-- `participants_`. -/
abbrev Room := PtrSet ℕ id

namespace Room

/-- `join`. -/
def join (room : Room) (participant : ℕ) : Except String Room :=
  if room.toList.length ≥ 2 then throw "participants_.count()>2"
  else return PtrSet.insert participant room

/-- `leave`. -/
def leave (room : Room) (participant : ℕ) : Room := room.erase participant

/-- `Room::processClientMessagePayload`: the room and the `deliver` calls. -/
def processClientMessagePayload (cfg : ServerConfig) (uptime : UInt32) (msg : NetPacket) (sender : ℕ)
    (room : Room) : Room × List (ℕ × NetPacket) :=
  (if msg.request = .logout then room.leave sender else room,
    replies cfg uptime msg sender room.toList)

end Room

/-! ### A session -/

/-- The `async_read` a session has outstanding. -/
inductive Reading
  | nothing
  | header
  | payload
  deriving DecidableEq

/-- `TcpSession`: the reused read buffer, the write queue and the operations
outstanding on its socket. -/
structure TcpSession where
  read_msg : NetPacket
  write_msgs : List NetPacket
  reading : Reading
  writing : Bool

namespace TcpSession

/-- `write`: hands the front of the queue to `async_write`. -/
def write (s : TcpSession) : TcpSession × List Bytes :=
  match s.write_msgs with
  | [] => (s, [])
  | front :: _ => ({ s with writing := true }, [front.header])

/-- `deliver`. -/
def deliver (s : TcpSession) (msg : NetPacket) : TcpSession × List Bytes :=
  let write_in_progress := !s.write_msgs.isEmpty
  let s := { s with write_msgs := s.write_msgs ++ [msg] }
  if !write_in_progress then s.write else (s, [])

/-- The handler of `write` without an error. -/
def onWritten (s : TcpSession) : TcpSession × List Bytes :=
  let s := { s with write_msgs := s.write_msgs.tail, writing := false }
  if !s.write_msgs.isEmpty then s.write else (s, [])

/-- The handler of `readHeader` without an error: `checkHeader` makes room, and
the payload is read next. -/
def onHeader (s : TcpSession) (bytes : Bytes) : TcpSession :=
  { s with read_msg := (s.read_msg.setHeader bytes).checkHeader.1, reading := .payload }

/-- The handler of `readPayload` without an error, up to the call of
`processClientMessagePayload`; the header is read next. -/
def onPayload (s : TcpSession) (bytes : Bytes) : TcpSession :=
  { s with read_msg := s.read_msg.setPayload bytes, reading := .header }

end TcpSession

/-! ### The server -/

/-- The sessions there have been and the room. -/
structure TcpServer where
  sessions : ℕ → Option TcpSession
  room : Room

/-- A completion. A read completes with exactly the bytes asked for or with an
error; `uptime` is the clock reading of a packet the handler builds. -/
inductive TcpEvent
  | accept (id : ℕ) (uptime : UInt32)
  | readHeader (id : ℕ) (bytes : Bytes)
  | readPayload (id : ℕ) (bytes : Bytes) (uptime : UInt32)
  | readError (id : ℕ)
  | written (id : ℕ)
  | writeError (id : ℕ)

/-- What an observer sees of a step. -/
inductive TcpObs
  | joined (id : ℕ)
  | refused (id : ℕ)
  | received (id : ℕ) (msg : NetPacket)
  | delivered (sender to_ : ℕ) (msg : NetPacket)
  | wrote (id : ℕ) (bytes : Bytes)
  | left (id : ℕ)
  deriving DecidableEq

namespace TcpServer

/-- No connection yet. -/
def start : TcpServer := ⟨fun _ => none, PtrSet.empty⟩

/-- Session `id` changes into `s`. -/
def set (S : TcpServer) (id : ℕ) (s : TcpSession) : TcpServer :=
  { S with sessions := Function.update S.sessions id (some s) }

@[simp] theorem sessions_set (S : TcpServer) (id : ℕ) (s : TcpSession) (i : ℕ) :
    (S.set id s).sessions i = if i = id then some s else S.sessions i := by
  simp [set, Function.update_apply]

/-- `deliver` on a session of the server. -/
def deliver (S : TcpServer) (sender : ℕ) (d : ℕ × NetPacket) : TcpServer × List TcpObs :=
  match S.sessions d.1 with
  | none => (S, [])
  | some s => (S.set d.1 (s.deliver d.2).1,
      .delivered sender d.1 d.2 :: (s.deliver d.2).2.map (.wrote d.1))

/-- The `deliver` calls of one packet, in order. -/
def deliverAll (sender : ℕ) : TcpServer → List (ℕ × NetPacket) → TcpServer × List TcpObs
  | S, [] => (S, [])
  | S, d :: ds =>
    let r := S.deliver sender d
    let r' := deliverAll sender r.1 ds
    (r'.1, r.2 ++ r'.2)

/-- The session whose operation failed: `room_.leave(shared_from_this())`. -/
def drop (S : TcpServer) (id : ℕ) (s : TcpSession) : TcpServer × List TcpObs :=
  ({ S.set id s with room := S.room.leave id }, [.left id])

/-- One completion handler; `none` where its operation is not outstanding. -/
def step (cfg : ServerConfig) (S : TcpServer) : TcpEvent → Option (TcpServer × List TcpObs)
  | .accept id uptime =>
    match S.sessions id with
    | some _ => none
    | none =>
      let session : TcpSession := ⟨ofType cfg.version uptime .Undefined 0, [], .nothing, false⟩
      match S.room.join id with
      | .error _ => some (S.set id session, [.refused id])
      | .ok room => some ({ S.set id { session with reading := .header } with room }, [.joined id])
  | .readHeader id bytes =>
    match S.sessions id with
    | none => none
    | some s =>
      if s.reading = .header ∧ bytes.length = FixHeaderLength then some (S.set id (s.onHeader bytes), [])
      else none
  | .readPayload id bytes uptime =>
    match S.sessions id with
    | none => none
    | some s =>
      if s.reading = .payload ∧ bytes.length = s.read_msg.payloadLength then
        let msg := (s.onPayload bytes).read_msg
        let r := S.room.processClientMessagePayload cfg uptime msg id
        let r' := deliverAll id { S.set id (s.onPayload bytes) with room := r.1 } r.2
        some (r'.1, .received id msg :: r'.2)
      else none
  | .readError id =>
    match S.sessions id with
    | none => none
    | some s => if s.reading = .nothing then none else some (S.drop id { s with reading := .nothing })
  | .written id =>
    match S.sessions id with
    | none => none
    | some s =>
      if s.writing then some (S.set id s.onWritten.1, s.onWritten.2.map (.wrote id)) else none
  | .writeError id =>
    match S.sessions id with
    | none => none
    | some s => if s.writing then some (S.drop id { s with writing := false }) else none

/-- A run of the server from the start. -/
abbrev exec (cfg : ServerConfig) (es : List TcpEvent) : Option (TcpServer × List TcpObs) :=
  Lts.exec (step cfg) start es

/-! ### What `deliver` leaves alone -/

/-- Up to the write queues and the writes outstanding, two servers are the same. -/
def SameReads (S T : TcpServer) : Prop :=
  T.room = S.room ∧ ∀ c, (T.sessions c).map (fun s => (s.read_msg, s.reading)) =
    (S.sessions c).map fun s => (s.read_msg, s.reading)

theorem SameReads.rfl' {S : TcpServer} : SameReads S S := ⟨rfl, fun _ => rfl⟩

theorem SameReads.trans {S T U : TcpServer} (h : SameReads S T) (h' : SameReads T U) : SameReads S U :=
  ⟨h'.1.trans h.1, fun c => (h'.2 c).trans (h.2 c)⟩

theorem SameReads.of_some {S T : TcpServer} (h : SameReads S T) {c : ℕ} {t : TcpSession}
    (ht : T.sessions c = some t) :
    ∃ s, S.sessions c = some s ∧ s.read_msg = t.read_msg ∧ s.reading = t.reading := by
  have hc := h.2 c
  rw [ht, Option.map_some] at hc
  obtain ⟨s, hs, he⟩ := Option.map_eq_some_iff.mp hc.symm
  simp only [Prod.mk.injEq] at he
  exact ⟨s, hs, he⟩

theorem SameReads.none_iff {S T : TcpServer} (h : SameReads S T) (c : ℕ) :
    T.sessions c = none ↔ S.sessions c = none := by
  have hc := h.2 c
  rcases hT : T.sessions c with _ | t <;> rcases hS : S.sessions c with _ | s <;> simp [hT, hS] at hc ⊢

theorem session_write_reads (s : TcpSession) :
    s.write.1.read_msg = s.read_msg ∧ s.write.1.reading = s.reading ∧
      s.write.1.write_msgs = s.write_msgs := by
  unfold TcpSession.write
  split <;> exact ⟨rfl, rfl, rfl⟩

theorem session_deliver_reads (s : TcpSession) (msg : NetPacket) :
    (s.deliver msg).1.read_msg = s.read_msg ∧ (s.deliver msg).1.reading = s.reading ∧
      (s.deliver msg).1.write_msgs = s.write_msgs ++ [msg] := by
  unfold TcpSession.deliver
  dsimp only
  split
  · obtain ⟨h1, h2, h3⟩ := session_write_reads { s with write_msgs := s.write_msgs ++ [msg] }
    exact ⟨h1, h2, h3⟩
  · exact ⟨rfl, rfl, rfl⟩

theorem sameReads_set {S : TcpServer} {c : ℕ} {s t : TcpSession} (hs : S.sessions c = some s)
    (h1 : t.read_msg = s.read_msg) (h2 : t.reading = s.reading) : SameReads S (S.set c t) := by
  refine ⟨rfl, fun c' => ?_⟩
  rw [sessions_set]
  split
  · rename_i hc
    rw [hc, hs]
    simp [h1, h2]
  · rfl

theorem sameReads_deliver (S : TcpServer) (sender : ℕ) (d : ℕ × NetPacket) :
    SameReads S (S.deliver sender d).1 := by
  unfold deliver
  split
  · exact SameReads.rfl'
  · rename_i s hs
    obtain ⟨h1, h2, -⟩ := session_deliver_reads s d.2
    exact sameReads_set hs h1 h2

theorem sameReads_deliverAll (sender : ℕ) : ∀ (ds : List (ℕ × NetPacket)) (S : TcpServer),
    SameReads S (deliverAll sender S ds).1
  | [], _ => SameReads.rfl'
  | d :: ds, S => (sameReads_deliver S sender d).trans (sameReads_deliverAll sender ds _)

/-! ### What `deliver` puts out -/

/-- Every packet in a write queue. -/
def AllQueued (P : NetPacket → Prop) (S : TcpServer) : Prop :=
  ∀ c s, S.sessions c = some s → ∀ m ∈ s.write_msgs, P m

/-- Every packet a step delivers or writes. -/
def AllSent (P : NetPacket → Prop) (o : List TcpObs) : Prop :=
  (∀ s r m, TcpObs.delivered s r m ∈ o → P m) ∧ ∀ c b, TcpObs.wrote c b ∈ o → ∃ m : NetPacket, P m ∧ b = m.header

theorem AllSent.append {P : NetPacket → Prop} {a b : List TcpObs} (ha : AllSent P a) (hb : AllSent P b) :
    AllSent P (a ++ b) := by
  refine ⟨fun s r m hm => ?_, fun c x hx => ?_⟩
  · rcases List.mem_append.mp hm with hm | hm
    · exact ha.1 s r m hm
    · exact hb.1 s r m hm
  · rcases List.mem_append.mp hx with hx | hx
    · exact ha.2 c x hx
    · exact hb.2 c x hx

/-- What holds of all sessions and of the one that session `id` changes into. -/
theorem forall_set {Q : TcpSession → Prop} {S : TcpServer} (h : ∀ c s, S.sessions c = some s → Q s) {id : ℕ}
    {t : TcpSession} (ht : Q t) : ∀ c s, (S.set id t).sessions c = some s → Q s := by
  intro c s hs
  rw [sessions_set] at hs
  split at hs
  · cases hs
    exact ht
  · exact h c s hs

theorem allQueued_set {P : NetPacket → Prop} {S : TcpServer} (h : AllQueued P S) {c : ℕ} {t : TcpSession}
    (ht : ∀ m ∈ t.write_msgs, P m) : AllQueued P (S.set c t) :=
  forall_set h ht

/-- What `write` hands over is in the queue. -/
theorem mem_session_write {s : TcpSession} {b : Bytes} (hb : b ∈ s.write.2) :
    ∃ m ∈ s.write_msgs, b = m.header := by
  unfold TcpSession.write at hb
  split at hb
  · cases hb
  · rename_i front rest hq
    exact ⟨front, by rw [hq]; exact List.mem_cons_self, List.mem_singleton.mp hb⟩

theorem mem_session_deliver {s : TcpSession} {msg : NetPacket} {b : Bytes}
    (hb : b ∈ (s.deliver msg).2) : ∃ m ∈ s.write_msgs ++ [msg], b = m.header := by
  unfold TcpSession.deliver at hb
  dsimp only at hb
  split at hb
  · exact mem_session_write hb
  · cases hb

theorem mem_session_onWritten {s : TcpSession} {b : Bytes} (hb : b ∈ s.onWritten.2) :
    ∃ m ∈ s.write_msgs, b = m.header := by
  unfold TcpSession.onWritten at hb
  dsimp only at hb
  split at hb
  · obtain ⟨m, hm, he⟩ := mem_session_write hb
    exact ⟨m, List.mem_of_mem_tail hm, he⟩
  · cases hb

theorem session_onWritten_queue (s : TcpSession) : s.onWritten.1.write_msgs = s.write_msgs.tail := by
  unfold TcpSession.onWritten
  dsimp only
  split
  · exact (session_write_reads _).2.2
  · rfl

theorem session_onWritten_reads (s : TcpSession) :
    s.onWritten.1.read_msg = s.read_msg ∧ s.onWritten.1.reading = s.reading := by
  unfold TcpSession.onWritten
  dsimp only
  split
  · exact ⟨(session_write_reads _).1, (session_write_reads _).2.1⟩
  · exact ⟨rfl, rfl⟩

theorem deliver_sent {P : NetPacket → Prop} {S : TcpServer} (h : AllQueued P S) (sender : ℕ)
    {d : ℕ × NetPacket} (hd : P d.2) :
    AllQueued P (S.deliver sender d).1 ∧ AllSent P (S.deliver sender d).2 := by
  unfold deliver
  split
  · exact ⟨h, by simp [AllSent]⟩
  · rename_i s hs
    have hq : ∀ m ∈ s.write_msgs ++ [d.2], P m := by
      intro m hm
      rcases List.mem_append.mp hm with hm | hm
      · exact h _ s hs m hm
      · rw [List.mem_singleton.mp hm]
        exact hd
    refine ⟨allQueued_set h ?_, fun s' r m hm => ?_, fun c b hb => ?_⟩
    · rw [(session_deliver_reads s d.2).2.2]
      exact hq
    · rcases List.mem_cons.mp hm with hm | hm
      · cases hm
        exact hd
      · simp at hm
    · rcases List.mem_cons.mp hb with hb | hb
      · cases hb
      · obtain ⟨b', hb', he⟩ := List.mem_map.mp hb
        cases he
        obtain ⟨m, hm, he⟩ := mem_session_deliver hb'
        exact ⟨m, hq m hm, he⟩

theorem deliverAll_sent {P : NetPacket → Prop} (sender : ℕ) : ∀ (ds : List (ℕ × NetPacket)) (S : TcpServer),
    AllQueued P S → (∀ d ∈ ds, P d.2) →
      AllQueued P (deliverAll sender S ds).1 ∧ AllSent P (deliverAll sender S ds).2
  | [], _, h, _ => ⟨h, by simp [deliverAll, AllSent]⟩
  | d :: ds, S, h, hd => by
    have h1 := deliver_sent h sender (hd d List.mem_cons_self)
    have h2 := deliverAll_sent sender ds _ h1.1 fun x hx => hd x (List.mem_cons_of_mem _ hx)
    exact ⟨h2.1, h1.2.append h2.2⟩

/-- `deliver` calls go to the listed participants, from the sender. -/
theorem mem_deliverAll (sender : ℕ) : ∀ (ds : List (ℕ × NetPacket)) (S : TcpServer) (x : TcpObs),
    x ∈ (deliverAll sender S ds).2 →
      (∃ d ∈ ds, x = .delivered sender d.1 d.2) ∨ ∃ c b, x = .wrote c b
  | [], _, _, h => by simp [deliverAll] at h
  | d :: ds, S, x, h => by
    rcases List.mem_append.mp h with h | h
    · unfold deliver at h
      split at h
      · cases h
      · rcases List.mem_cons.mp h with h | h
        · exact Or.inl ⟨d, List.mem_cons_self, h⟩
        · obtain ⟨b, -, rfl⟩ := List.mem_map.mp h
          exact Or.inr ⟨_, b, rfl⟩
    · rcases mem_deliverAll sender ds _ x h with ⟨d', hd', he⟩ | h
      · exact Or.inl ⟨d', List.mem_cons_of_mem _ hd', he⟩
      · exact Or.inr h

/-- Each listed participant that is a session gets its `deliver`. -/
theorem delivered_mem_deliverAll (sender : ℕ) : ∀ (ds : List (ℕ × NetPacket)) (S : TcpServer),
    ∀ d ∈ ds, S.sessions d.1 ≠ none → TcpObs.delivered sender d.1 d.2 ∈ (deliverAll sender S ds).2
  | [], _, _, h, _ => by cases h
  | d :: ds, S, d', h, hs => by
    have hsame := sameReads_deliver S sender d
    refine List.mem_append.mpr ?_
    rcases List.mem_cons.mp h with rfl | h
    · left
      obtain ⟨s, hs⟩ := Option.ne_none_iff_exists'.mp hs
      simp [deliver, hs]
    · right
      exact delivered_mem_deliverAll sender ds _ d' h fun hn => hs ((hsame.none_iff d'.1).mp hn)

/-! ### What a step does -/

/-- The server once session `id` has read the payload `bytes`: `read_msg_` is
the packet, and a `LogoutRequest` has left the room. -/
def afterPayload (cfg : ServerConfig) (S : TcpServer) (id : ℕ) (s : TcpSession) (bytes : Bytes)
    (up : UInt32) : TcpServer :=
  { S.set id (s.onPayload bytes) with
    room := (S.room.processClientMessagePayload cfg up (s.onPayload bytes).read_msg id).1 }

/-- The handlers as a relation, one constructor for each way one can go. -/
inductive Steps (cfg : ServerConfig) (S : TcpServer) : TcpEvent → TcpServer → List TcpObs → Prop
  | refuse {id up} : S.sessions id = none → 2 ≤ S.room.toList.length →
      Steps cfg S (.accept id up) (S.set id ⟨ofType cfg.version up .Undefined 0, [], .nothing, false⟩)
        [.refused id]
  | join {id up} : S.sessions id = none → S.room.toList.length < 2 →
      Steps cfg S (.accept id up)
        { S.set id ⟨ofType cfg.version up .Undefined 0, [], .header, false⟩ with
          room := PtrSet.insert id S.room } [.joined id]
  | header {id bytes s} : S.sessions id = some s → s.reading = .header →
      bytes.length = FixHeaderLength →
      Steps cfg S (.readHeader id bytes) (S.set id (s.onHeader bytes)) []
  | payload {id bytes up s} : S.sessions id = some s → s.reading = .payload →
      bytes.length = s.read_msg.payloadLength →
      Steps cfg S (.readPayload id bytes up)
        (deliverAll id (afterPayload cfg S id s bytes up)
          (replies cfg up (s.onPayload bytes).read_msg id S.room.toList)).1
        (.received id (s.onPayload bytes).read_msg :: (deliverAll id (afterPayload cfg S id s bytes up)
          (replies cfg up (s.onPayload bytes).read_msg id S.room.toList)).2)
  | readError {id s} : S.sessions id = some s → s.reading ≠ .nothing →
      Steps cfg S (.readError id)
        { S.set id { s with reading := .nothing } with room := S.room.leave id } [.left id]
  | written {id s} : S.sessions id = some s → s.writing = true →
      Steps cfg S (.written id) (S.set id s.onWritten.1) (s.onWritten.2.map (.wrote id))
  | writeError {id s} : S.sessions id = some s → s.writing = true →
      Steps cfg S (.writeError id)
        { S.set id { s with writing := false } with room := S.room.leave id } [.left id]

/-- A handler of session `id`, which is there. -/
theorem session_of_step {S : TcpServer} {id : ℕ} {f : TcpSession → Option (TcpServer × List TcpObs)}
    {r : TcpServer × List TcpObs} (h : (match S.sessions id with | none => none | some s => f s) = some r) :
    ∃ s, S.sessions id = some s ∧ f s = some r := by
  rcases hs : S.sessions id with _ | s
  · rw [hs] at h
    cases h
  · rw [hs] at h
    exact ⟨s, rfl, h⟩

/-- **Every step, said once.** -/
theorem steps_of_step {cfg : ServerConfig} {S S' : TcpServer} {e : TcpEvent} {o : List TcpObs}
    (h : step cfg S e = some (S', o)) : Steps cfg S e S' o := by
  cases e with
  | accept id up =>
    simp only [step] at h
    rcases hs : S.sessions id with _ | s <;> simp only [hs] at h
    · dsimp only [Room.join] at h
      by_cases hr : S.room.toList.length ≥ 2
      · rw [if_pos hr] at h
        cases h
        exact .refuse hs hr
      · rw [if_neg hr] at h
        cases h
        exact .join hs (not_le.mp hr)
    · cases h
  | readHeader id bytes =>
    obtain ⟨s, hs, h⟩ := session_of_step h
    obtain ⟨hc, heq⟩ := Option.ite_none_right_eq_some.mp h
    cases heq
    exact .header hs hc.1 hc.2
  | readPayload id bytes up =>
    obtain ⟨s, hs, h⟩ := session_of_step h
    obtain ⟨hc, heq⟩ := Option.ite_none_right_eq_some.mp h
    cases heq
    exact .payload hs hc.1 hc.2
  | readError id =>
    obtain ⟨s, hs, h⟩ := session_of_step h
    obtain ⟨hc, heq⟩ := Option.ite_none_left_eq_some.mp h
    cases heq
    exact .readError hs hc
  | written id =>
    obtain ⟨s, hs, h⟩ := session_of_step h
    obtain ⟨hc, heq⟩ := Option.ite_none_right_eq_some.mp h
    cases heq
    exact .written hs hc
  | writeError id =>
    obtain ⟨s, hs, h⟩ := session_of_step h
    obtain ⟨hc, heq⟩ := Option.ite_none_right_eq_some.mp h
    cases heq
    exact .writeError hs hc

/-! ### What a run sends -/

/-- What the server answers to a completion, or relays, satisfies `P`. -/
def Answers (P : NetPacket → Prop) (cfg : ServerConfig) (S : TcpServer) (e : TcpEvent) : Prop :=
  ∀ id bytes up s, e = .readPayload id bytes up → S.sessions id = some s → s.reading = .payload →
    bytes.length = s.read_msg.payloadLength →
      ∀ d ∈ replies cfg up (s.onPayload bytes).read_msg id S.room.toList, P d.2

theorem sent_step {P : NetPacket → Prop} {cfg : ServerConfig} {S S' : TcpServer} {e : TcpEvent}
    {o' : List TcpObs} (hq : AllQueued P S) (hs : Steps cfg S e S' o') (ha : Answers P cfg S e) :
    AllQueued P S' ∧ AllSent P o' := by
  cases hs with
  | refuse hn hr => exact ⟨allQueued_set hq (by simp), by simp [AllSent]⟩
  | join hn hr => exact ⟨allQueued_set (S := S) hq (by simp), by simp [AllSent]⟩
  | @header id bytes s hsome hr hlen => exact ⟨allQueued_set hq (hq id s hsome), by simp [AllSent]⟩
  | @payload id bytes up s hsome hr hlen =>
    have hq' : AllQueued P (afterPayload cfg S id s bytes up) := allQueued_set (S := S) hq (hq id s hsome)
    have hsent := deliverAll_sent id _ _ hq' (ha id bytes up s rfl hsome hr hlen)
    refine ⟨hsent.1, fun a b m hd => hsent.2.1 a b m ?_, fun c b hw => hsent.2.2 c b ?_⟩
    · exact (List.mem_cons.mp hd).resolve_left (by simp)
    · exact (List.mem_cons.mp hw).resolve_left (by simp)
  | @readError id s hsome hr => exact ⟨allQueued_set (S := S) hq (hq id s hsome), by simp [AllSent]⟩
  | @written id s hsome hw =>
    refine ⟨allQueued_set hq fun m hm => ?_, by simp, fun c b hb => ?_⟩
    · rw [session_onWritten_queue] at hm
      exact hq id s hsome m (List.mem_of_mem_tail hm)
    · obtain ⟨b', hb', he⟩ := List.mem_map.mp hb
      cases he
      obtain ⟨m, hm, he⟩ := mem_session_onWritten hb'
      exact ⟨m, hq id s hsome m hm, he⟩
  | @writeError id s hsome hw => exact ⟨allQueued_set (S := S) hq (hq id s hsome), by simp [AllSent]⟩

/-- **What a run sends.** If all the answers of a run satisfy `P`, so does all
it sends. -/
theorem sent_exec {P : NetPacket → Prop} {cfg : ServerConfig} {es : List TcpEvent} {S : TcpServer}
    {o : List TcpObs} (h : exec cfg es = some (S, o))
    (ha : Lts.Along (step cfg) (Answers P cfg) start es) : AllSent P o := by
  have hrun := Lts.along_rule (step cfg) (Answers P cfg) (fun S o => AllQueued P S ∧ AllSent P o)
    ⟨fun _ _ h => by simp [start] at h, by simp [AllSent]⟩ ?_ h ha
  · exact hrun.2
  · rintro S o e S' o' ha ⟨hq, hsent⟩ hstep
    obtain ⟨hq', hsent'⟩ := sent_step hq (steps_of_step hstep) ha
    exact ⟨hq', hsent.append hsent'⟩

end TcpServer
end EasyVoiceCall
