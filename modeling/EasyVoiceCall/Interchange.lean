/-
# The two rooms, side by side

`server/Room.hpp` seats a client at its connect, two at most, and keeps it by
its session; `RawUdpRoom` takes a client in at its first datagram, keeps it by
its endpoint and has no limit. Here both are given the same packets: to the TCP
server as the completions of its reads, a connect before a client's first, to
the UDP room as datagrams. Clients that log in first, say nothing after a
logout and are two at most at a time (`WellBehaved`) get the same from both,
step by step (`rooms_interchangeable`). What a write completion changes on a
session does not matter for what is delivered (`TcpServer.exec_reads`).

Key definitions: `Sent`, `online`, `WellBehaved`, `Alike`.
Key theorems: `TcpServer.exec_reads`, `TcpServer.agrees_concat`, `endpoints_eq_online`,
`rooms_interchangeable`.
-/
import EasyVoiceCall.Marker

namespace EasyVoiceCall

open Buffer NetPacket

/-! ### Deliveries of the TCP server -/

namespace TcpServer

/-- The `deliver` calls of a run. -/
def deliveries (o : List TcpObs) : List (ℕ × NetPacket) :=
  o.filterMap fun
    | .delivered _ to_ msg => some (to_, msg)
    | _ => none

/-- The completion of a write. -/
def isWritten : TcpEvent → Bool
  | .written _ => true
  | _ => false

/-- A connect, or the completion of a read without an error. -/
def IsRead : TcpEvent → Prop
  | .accept _ _ | .readHeader _ _ | .readPayload _ _ _ => True
  | _ => False

/-- The completions other than those of writes. -/
def reads (es : List TcpEvent) : List TcpEvent := es.filter fun e => !isWritten e

theorem SameReads.symm {S T : TcpServer} (h : SameReads S T) : SameReads T S :=
  ⟨h.1.symm, fun c => (h.2 c).symm⟩

theorem SameReads.isSome_eq {S T : TcpServer} (h : SameReads S T) (c : ℕ) :
    (T.sessions c).isSome = (S.sessions c).isSome := by
  have hn := h.none_iff c
  rcases h1 : T.sessions c with _ | t <;> rcases h2 : S.sessions c with _ | s <;> simp [h1, h2] at hn ⊢

theorem deliveries_append (a b : List TcpObs) : deliveries (a ++ b) = deliveries a ++ deliveries b :=
  List.filterMap_append

theorem deliveries_wrote (c : ℕ) (bs : List Bytes) : deliveries (bs.map (.wrote c)) = [] := by
  simp [deliveries]

theorem deliveries_deliver (S : TcpServer) (sender : ℕ) (d : ℕ × NetPacket) :
    deliveries (S.deliver sender d).2 = if (S.sessions d.1).isSome then [d] else [] := by
  unfold deliver
  rcases S.sessions d.1 with _ | s
  · rfl
  · show d :: deliveries ((s.deliver d.2).2.map (.wrote d.1)) = [d]
    rw [deliveries_wrote]

/-- The calls of one packet reach the participants that are sessions. -/
theorem deliveries_deliverAll (sender : ℕ) : ∀ (ds : List (ℕ × NetPacket)) (S : TcpServer),
    deliveries (deliverAll sender S ds).2 = ds.filter fun d => (S.sessions d.1).isSome
  | [], _ => rfl
  | d :: ds, S => by
    have hsome := (sameReads_deliver S sender d).isSome_eq
    show deliveries ((S.deliver sender d).2 ++ (deliverAll sender (S.deliver sender d).1 ds).2) = _
    rw [deliveries_append, deliveries_deliver, deliveries_deliverAll sender ds]
    simp only [hsome]
    by_cases hd : (S.sessions d.1).isSome = true <;> simp [hd]

/-! ### Writes do not matter -/

/-- One session changes in the same way on both sides. -/
theorem SameReads.set {S T : TcpServer} (h : SameReads S T) (id : ℕ) {s t : TcpSession}
    (hmsg : t.read_msg = s.read_msg) (hread : t.reading = s.reading) : SameReads (S.set id s) (T.set id t) := by
  refine ⟨h.1, fun c => ?_⟩
  rw [sessions_set, sessions_set]
  split
  · simp [hmsg, hread]
  · exact h.2 c

theorem SameReads.withRoom {S T : TcpServer} (h : SameReads S T) (room : Room) :
    SameReads { S with room } { T with room } :=
  ⟨rfl, h.2⟩

theorem written_quiet {cfg : ServerConfig} {S T S' : TcpServer} {e : TcpEvent} {o : List TcpObs}
    (h : SameReads S T) (he : isWritten e = true) (hs : step cfg S e = some (S', o)) :
    SameReads S' T ∧ deliveries o = [] := by
  cases steps_of_step hs with
  | @written id s hsome hw =>
    have hsame := sameReads_set (t := s.onWritten.1) hsome (session_onWritten_reads s).1
      (session_onWritten_reads s).2
    exact ⟨hsame.symm.trans h, deliveries_wrote id _⟩
  | _ => cases he

/-- A connect or a read does the same to two servers that differ in their writes. -/
theorem read_matched {cfg : ServerConfig} {S T S' : TcpServer} {e : TcpEvent} {o : List TcpObs}
    (h : SameReads S T) (he : IsRead e) (hs : step cfg S e = some (S', o)) :
    ∃ T' p, step cfg T e = some (T', p) ∧ SameReads S' T' ∧ deliveries o = deliveries p := by
  have hroom : T.room = S.room := h.1
  cases steps_of_step hs with
  | @refuse id up hn hr =>
    have hn' : T.sessions id = none := (h.none_iff id).mpr hn
    refine ⟨T.set id ⟨ofType cfg.version up .Undefined 0, [], .nothing, false⟩, [.refused id], ?_, ?_, rfl⟩
    · simp only [step, hn', Room.join, hroom, if_pos hr]
      rfl
    · exact h.set id rfl rfl
  | @join id up hn hr =>
    have hn' : T.sessions id = none := (h.none_iff id).mpr hn
    refine ⟨{ T.set id ⟨ofType cfg.version up .Undefined 0, [], .header, false⟩ with
      room := PtrSet.insert id S.room }, [.joined id], ?_, (h.set id rfl rfl).withRoom _, rfl⟩
    simp only [step, hn', Room.join, hroom, if_neg (not_le.mpr hr)]
    rfl
  | @header id bytes s hsome hread hlen =>
    obtain ⟨t, ht, hmsg, hreading⟩ := h.symm.of_some hsome
    refine ⟨T.set id (t.onHeader bytes), [], ?_, ?_, rfl⟩
    · simp only [step, ht]
      rw [if_pos ⟨hreading.trans hread, hlen⟩]
    · refine h.set id ?_ rfl
      simp only [TcpSession.onHeader, hmsg]
  | @payload id bytes up s hsome hread hlen =>
    obtain ⟨t, ht, hmsg, hreading⟩ := h.symm.of_some hsome
    have hpay : (t.onPayload bytes).read_msg = (s.onPayload bytes).read_msg := by
      simp only [TcpSession.onPayload, hmsg]
    have hafter : SameReads (afterPayload cfg S id s bytes up) (afterPayload cfg T id t bytes up) := by
      rw [afterPayload, afterPayload, hpay, hroom]
      exact (h.set id hpay rfl).withRoom _
    set ds := replies cfg up (s.onPayload bytes).read_msg id S.room.toList with hds
    refine ⟨(deliverAll id (afterPayload cfg T id t bytes up) ds).1,
      .received id (s.onPayload bytes).read_msg :: (deliverAll id (afterPayload cfg T id t bytes up) ds).2,
      ?_, ?_, ?_⟩
    · have hlen' : bytes.length = t.read_msg.payloadLength := by rw [hlen, hmsg]
      simp only [step, ht]
      rw [if_pos ⟨hreading.trans hread, hlen'⟩, hpay, hds, hroom]
      rw [afterPayload, hpay, hroom]
      rfl
    · exact ((sameReads_deliverAll id ds _).symm.trans hafter).trans (sameReads_deliverAll id ds _)
    · show deliveries (deliverAll id _ ds).2 = deliveries (deliverAll id _ ds).2
      rw [deliveries_deliverAll, deliveries_deliverAll]
      simp only [hafter.isSome_eq]
  | readError hsome hr => exact he.elim
  | written hsome hw => exact he.elim
  | writeError hsome hw => exact he.elim

/-- **Write completions do not matter** for who is in the room, what is read and what
is delivered. -/
theorem exec_reads {cfg : ServerConfig} {es : List TcpEvent} {S T S' : TcpServer} {o : List TcpObs}
    (h : Lts.exec (step cfg) S es = some (S', o)) (hST : SameReads S T) (hes : ∀ e ∈ reads es, IsRead e) :
    ∃ T' p, Lts.exec (step cfg) T (reads es) = some (T', p) ∧ SameReads S' T' ∧ deliveries o = deliveries p := by
  refine Lts.erase_rule (step cfg) SameReads isWritten IsRead _ ?_ ?_ h hST fun e he hq => ?_
  · exact fun S T e S' o hR hq hs => written_quiet hR hq hs
  · exact fun S T e S' o hR hk hs => read_matched hR hk hs
  · exact hes e (List.mem_filter.mpr ⟨he, by simp [hq]⟩)

end TcpServer

/-! ### Clients that keep to the order -/

/-- A packet a client sends, with what the two servers are provided with while they
handle it. Its header announces its payload. -/
structure Sent where
  client : ℕ
  packet : NetPacket
  lengthOK : LengthOK packet.wholePacket
  uptime : UInt32
  udp_uptime : UInt32
  alloc : Allocator

/-- The clients between login and logout. -/
def online (h : List Sent) : Finset ℕ :=
  (h.map (·.client)).toFinset.filter fun c =>
    (∃ y ∈ h, y.client = c ∧ y.packet.payloadType = .LoginRequest) ∧
      ∀ y ∈ h, y.client = c → y.packet.payloadType ≠ .LogoutRequest

theorem mem_online {h : List Sent} {c : ℕ} : c ∈ online h ↔
    (∃ y ∈ h, y.client = c ∧ y.packet.payloadType = .LoginRequest) ∧
      ∀ y ∈ h, y.client = c → y.packet.payloadType ≠ .LogoutRequest := by
  unfold online
  rw [Finset.mem_filter, List.mem_toFinset, and_iff_right_iff_imp]
  rintro ⟨⟨y, hy, hc, -⟩, -⟩
  exact List.mem_map.mpr ⟨y, hy, hc⟩

/-- A client's first packet is a `LoginRequest`, none follows its `LogoutRequest`, and
at most two clients are online. -/
structure WellBehaved (xs : List Sent) : Prop where
  first : ∀ h x, h ++ [x] <+: xs → (∀ y ∈ h, y.client ≠ x.client) → x.packet.payloadType = .LoginRequest
  last : ∀ h x, h ++ [x] <+: xs → ∀ y ∈ h, y.client = x.client → y.packet.payloadType ≠ .LogoutRequest
  two : ∀ h, h <+: xs → (online h).card ≤ 2

namespace WellBehaved

variable {xs h : List Sent} {x : Sent}

theorem of_prefix (hw : WellBehaved xs) (hh : h <+: xs) : WellBehaved h :=
  ⟨fun g y hg => hw.first g y (hg.trans hh), fun g y hg => hw.last g y (hg.trans hh),
    fun g hg => hw.two g (hg.trans hh)⟩

/-- Who has been heard has logged in. -/
theorem login_mem (hw : WellBehaved xs) : ∀ y ∈ xs, ∃ z ∈ xs, z.client = y.client ∧
    z.packet.payloadType = .LoginRequest := by
  induction xs using List.reverseRecOn with
  | nil => exact fun y hy => absurd hy List.not_mem_nil
  | append_singleton h x ih =>
    intro y hy
    have ih' := ih (hw.of_prefix (List.prefix_append _ _))
    by_cases hex : ∃ z ∈ h, z.client = y.client
    · obtain ⟨z, hz, hzy⟩ := hex
      obtain ⟨w, hm, hwz, hlog⟩ := ih' z hz
      exact ⟨w, List.mem_append_left _ hm, hwz.trans hzy, hlog⟩
    · have hyx : y = x := by
        rcases List.mem_append.mp hy with hy | hy
        · exact absurd ⟨y, hy, rfl⟩ hex
        · exact List.mem_singleton.mp hy
      subst hyx
      have hnew : ∀ z ∈ h, z.client ≠ y.client := fun z hz hzy => hex ⟨z, hz, hzy⟩
      exact ⟨y, by simp, rfl, hw.first h y (List.prefix_refl _) hnew⟩

/-- A client heard before is online when it sends. -/
theorem online_of_heard (hw : WellBehaved xs) (hx : h ++ [x] <+: xs) (hex : ∃ y ∈ h, y.client = x.client) :
    x.client ∈ online h := by
  obtain ⟨y, hy, hyx⟩ := hex
  have hwh := hw.of_prefix ((List.prefix_append h [x]).trans hx)
  obtain ⟨z, hz, hzy, hlog⟩ := hwh.login_mem y hy
  exact mem_online.mpr ⟨⟨z, hz, hzy.trans hyx, hlog⟩, hw.last h x hx⟩

/-- A packet brings its sender online or, a `LogoutRequest`, takes it off; the others stay. -/
theorem mem_online_concat (hw : WellBehaved xs) (hx : h ++ [x] <+: xs) (c : ℕ) : c ∈ online (h ++ [x]) ↔
    if x.client = c then x.packet.payloadType ≠ .LogoutRequest else c ∈ online h := by
  rw [mem_online]
  split
  · rename_i hc
    constructor
    · exact fun hon => hon.2 x (by simp) hc
    · intro hl
      obtain ⟨z, hz, hzx, hlog⟩ := (hw.of_prefix hx).login_mem x (by simp)
      refine ⟨⟨z, hz, hzx.trans hc, hlog⟩, fun y hy hyc => ?_⟩
      rcases List.mem_append.mp hy with hy | hy
      · exact hw.last h x hx y hy (hyc.trans hc.symm)
      · rw [List.mem_singleton.mp hy]
        exact hl
  · rename_i hc
    rw [mem_online]
    simp [hc, or_imp, forall_and]

/-- At most one other client is online. -/
theorem card_others (hw : WellBehaved xs) (hx : h ++ [x] <+: xs) : ((online h).erase x.client).card ≤ 1 := by
  by_cases hex : ∃ y ∈ h, y.client = x.client
  · have hcard := hw.two h ((List.prefix_append h [x]).trans hx)
    rw [Finset.card_erase_of_mem (hw.online_of_heard hx hex)]
    omega
  · have hlog := hw.first h x hx fun y hy hyx => hex ⟨y, hy, hyx⟩
    have hmem : x.client ∈ online (h ++ [x]) := by
      rw [hw.mem_online_concat hx, if_pos rfl, hlog]
      decide
    have hsub : (online h).erase x.client ⊆ (online (h ++ [x])).erase x.client := by
      intro c hc
      rw [Finset.mem_erase] at hc ⊢
      rw [hw.mem_online_concat hx, if_neg hc.1.symm]
      exact hc
    have hcard := Finset.card_le_card hsub
    have htwo := hw.two _ hx
    rw [Finset.card_erase_of_mem hmem] at hcard
    omega

end WellBehaved

/-! ### The TCP side -/

/-- What a packet is on the client's connection: the connect before its first, the
header, the payload. -/
def eventsAt (h : List Sent) (x : Sent) : List TcpEvent :=
  (if ∃ y ∈ h, y.client = x.client then [] else [.accept x.client x.uptime]) ++
    [.readHeader x.client (x.packet.header.take FixHeaderLength),
      .readPayload x.client x.packet.payload x.uptime]

/-- The events of packets sent after those of `h`. -/
def eventsFrom : List Sent → List Sent → List TcpEvent
  | _, [] => []
  | h, x :: xs => eventsAt h x ++ eventsFrom (h ++ [x]) xs

/-- The events of a sequence of packets. -/
def eventsOf (xs : List Sent) : List TcpEvent := eventsFrom [] xs

theorem eventsFrom_concat (x : Sent) : ∀ h xs : List Sent,
    eventsFrom h (xs ++ [x]) = eventsFrom h xs ++ eventsAt (h ++ xs) x
  | h, [] => by simp [eventsFrom]
  | h, y :: xs => by simp [eventsFrom, eventsFrom_concat x (h ++ [y]) xs]

theorem eventsOf_concat (h : List Sent) (x : Sent) : eventsOf (h ++ [x]) = eventsOf h ++ eventsAt h x :=
  eventsFrom_concat x [] h

theorem isRead_eventsAt (h : List Sent) (x : Sent) : ∀ e ∈ eventsAt h x, TcpServer.IsRead e := by
  intro e he
  unfold eventsAt at he
  split_ifs at he <;> simp at he <;> rcases he with rfl | rfl | rfl <;> trivial

theorem isRead_eventsOf (h : List Sent) : ∀ e ∈ eventsOf h, TcpServer.IsRead e := by
  induction h using List.reverseRecOn with
  | nil => exact fun e he => absurd he List.not_mem_nil
  | append_singleton h x ih =>
    intro e he
    rw [eventsOf_concat] at he
    rcases List.mem_append.mp he with he | he
    · exact ih e he
    · exact isRead_eventsAt h x e he

namespace TcpServer

/-- The server when the packets `h` have been read: a client heard has a session, which
waits for the next header, and the clients online have the seats. -/
structure Agrees (h : List Sent) (S : TcpServer) : Prop where
  known : ∀ c, S.sessions c = none ↔ ∀ y ∈ h, y.client ≠ c
  idle : ∀ c s, S.sessions c = some s → s.reading = .header
  seats : ∀ c, c ∈ S.room ↔ c ∈ online h

theorem agrees_start : Agrees [] start :=
  ⟨fun c => by simp [start], fun c s hs => by simp [start] at hs, fun c => by simp [start, online]⟩

theorem Agrees.of_sameReads {h : List Sent} {S T : TcpServer} (hS : Agrees h S) (hST : SameReads S T) :
    Agrees h T := by
  refine ⟨fun c => (hST.none_iff c).trans (hS.known c), fun c t ht => ?_, fun c => ?_⟩
  · obtain ⟨s, hs, -, hr⟩ := hST.of_some ht
    rw [← hr]
    exact hS.idle c s hs
  · rw [hST.1]
    exact hS.seats c

/-- A session reads a packet that it waits for. -/
theorem exec_read (cfg : ServerConfig) {S : TcpServer} {x : Sent} {s : TcpSession}
    (hs : S.sessions x.client = some s) (hr : s.reading = .header) :
    ∃ S' o t, Lts.exec (step cfg) S [.readHeader x.client (x.packet.header.take FixHeaderLength),
        .readPayload x.client x.packet.payload x.uptime] = some (S', o) ∧
      SameReads { S.set x.client t with
        room := (S.room.processClientMessagePayload cfg x.uptime x.packet x.client).1 } S' ∧
      t.reading = .header ∧ (∀ c, TcpObs.refused c ∉ o) ∧
      deliveries o = (replies cfg x.uptime x.packet x.client S.room.toList).filter
        fun d => (S.sessions d.1).isSome := by
  have hlen : (x.packet.header.take FixHeaderLength).length = FixHeaderLength := by
    rw [List.length_take]
    exact Nat.min_eq_left x.packet.header_le
  obtain ⟨hpl, hmsg⟩ := setPayload_checkHeader s.read_msg x.lengthOK
  set s₁ := s.onHeader (x.packet.header.take FixHeaderLength) with hs₁
  set S₁ := S.set x.client s₁ with hS₁
  have hread : (s₁.onPayload x.packet.payload).read_msg = x.packet := hmsg
  have hsome : S₁.sessions x.client = some s₁ := by simp [hS₁]
  have hstep₁ : step cfg S (.readHeader x.client (x.packet.header.take FixHeaderLength)) = some (S₁, []) := by
    simp only [step, hs]
    rw [if_pos ⟨hr, hlen⟩]
  set ds := replies cfg x.uptime x.packet x.client S.room.toList with hds
  set S₂ := afterPayload cfg S₁ x.client s₁ x.packet.payload x.uptime with hS₂
  have hstep₂ : step cfg S₁ (.readPayload x.client x.packet.payload x.uptime) =
      some ((deliverAll x.client S₂ ds).1, .received x.client x.packet :: (deliverAll x.client S₂ ds).2) := by
    have hpl' : x.packet.payload.length = s₁.read_msg.payloadLength := by
      rw [length_payload]
      exact hpl.symm
    simp only [step, hsome]
    rw [if_pos ⟨rfl, hpl'⟩, hS₂, afterPayload, hread]
    rfl
  have hknown : ∀ c, (S₂.sessions c).isSome = (S.sessions c).isSome := by
    intro c
    show (((S.set x.client s₁).set x.client (s₁.onPayload x.packet.payload)).sessions c).isSome = _
    rw [sessions_set, sessions_set]
    split
    · rename_i hc
      rw [hc, hs]
      rfl
    · rfl
  refine ⟨_, _, s₁.onPayload x.packet.payload, (Lts.exec_cons_iff _).mpr ⟨S₁, [], _, hstep₁,
    (Lts.exec_cons_iff _).mpr ⟨_, _, [], hstep₂, rfl, rfl⟩, rfl⟩, ?_, rfl, fun c hc => ?_, ?_⟩
  · refine SameReads.trans ?_ (sameReads_deliverAll x.client ds S₂)
    refine ⟨?_, fun c => ?_⟩
    · rw [hS₂, afterPayload, hread]
      rfl
    · show (((S.set x.client s₁).set x.client (s₁.onPayload x.packet.payload)).sessions c).map _ =
        ((S.set x.client (s₁.onPayload x.packet.payload)).sessions c).map _
      rw [sessions_set, sessions_set, sessions_set]
      split <;> rfl
  · simp only [List.nil_append, List.append_nil] at hc
    rcases List.mem_cons.mp hc with hc | hc
    · cases hc
    · rcases mem_deliverAll x.client ds S₂ _ hc with ⟨d, -, hd⟩ | ⟨c', b, hd⟩ <;> cases hd
  · rw [List.nil_append, List.append_nil]
    show deliveries (deliverAll x.client S₂ ds).2 = _
    rw [deliveries_deliverAll]
    simp only [hknown]

variable {xs h : List Sent} {x : Sent} {S : TcpServer}

/-- The room holds as many as are online. -/
theorem Agrees.length_room (hS : Agrees h S) : S.room.toList.length = (online h).card := by
  have heq : S.room.toList.toFinset = online h := by
    ext c
    rw [List.mem_toFinset]
    exact hS.seats c
  rw [← heq, List.toFinset_card_of_nodup S.room.nodup]

/-- Before its packet is read a client is connected: it was before, or there is a seat. -/
theorem Agrees.exec_connect (hS : Agrees h S) (hw : WellBehaved xs) (hx : h ++ [x] <+: xs) (cfg : ServerConfig) :
    ∃ S₁ o₁ s, Lts.exec (step cfg) S
        (if ∃ y ∈ h, y.client = x.client then [] else [.accept x.client x.uptime]) = some (S₁, o₁) ∧
      S₁.sessions x.client = some s ∧ s.reading = .header ∧
      (∀ c, c ≠ x.client → S₁.sessions c = S.sessions c) ∧
      (∀ c, c ∈ S₁.room ↔ c = x.client ∨ c ∈ online h) ∧
      (∀ c, TcpObs.refused c ∉ o₁) ∧ deliveries o₁ = [] := by
  by_cases hex : ∃ y ∈ h, y.client = x.client
  · have hne : S.sessions x.client ≠ none := fun hn => by
      obtain ⟨y, hy, hyx⟩ := hex
      exact (hS.known _).mp hn y hy hyx
    obtain ⟨s, hs⟩ := Option.ne_none_iff_exists'.mp hne
    have hon := hw.online_of_heard hx hex
    refine ⟨S, [], s, by rw [if_pos hex]; rfl, hs, hS.idle _ s hs, fun _ _ => rfl, fun c => ?_, by simp, rfl⟩
    rw [hS.seats]
    exact ⟨Or.inr, fun hc => hc.elim (fun hc => hc ▸ hon) id⟩
  · have hnew : ∀ y ∈ h, y.client ≠ x.client := fun y hy hyx => hex ⟨y, hy, hyx⟩
    have hnone : S.sessions x.client = none := (hS.known _).mpr hnew
    have hoff : x.client ∉ online h := fun hon => by
      obtain ⟨⟨y, hy, hyx, -⟩, -⟩ := mem_online.mp hon
      exact hnew y hy hyx
    have hseat : ¬ S.room.toList.length ≥ 2 := by
      have hcard := hw.card_others hx
      rw [Finset.erase_eq_of_notMem hoff, ← hS.length_room] at hcard
      omega
    have hfresh : id x.client ∉ S.room.keys := by
      rw [PtrSet.keys, List.map_id]
      exact fun hm => hoff ((hS.seats _).mp hm)
    set t : TcpSession := ⟨ofType cfg.version x.uptime .Undefined 0, [], .header, false⟩ with ht
    have hstep : step cfg S (.accept x.client x.uptime) =
        some ({ S.set x.client t with room := PtrSet.insert x.client S.room }, [.joined x.client]) := by
      simp only [step, hnone, Room.join, if_neg hseat]
      rfl
    refine ⟨_, _, t, by rw [if_neg hex]; exact (Lts.exec_cons_iff _).mpr ⟨_, _, [], hstep, rfl, rfl⟩,
      ?_, rfl, fun c hc => ?_, fun c => ?_, by simp, rfl⟩
    · show (S.set x.client t).sessions x.client = some t
      simp
    · show (S.set x.client t).sessions c = S.sessions c
      rw [sessions_set, if_neg hc]
    · show c ∈ PtrSet.insert x.client S.room ↔ _
      rw [PtrSet.mem_insert_of_fresh hfresh, hS.seats]

/-- **One packet, on a connection.** It can be read, nobody is refused, the server agrees
with the packets so far, and the switch's replies are delivered, to a room of the sender
and those online. -/
theorem agrees_concat (cfg : ServerConfig) (hw : WellBehaved xs) (hx : h ++ [x] <+: xs) (hS : Agrees h S) :
    ∃ S' o ps, Lts.exec (step cfg) S (eventsAt h x) = some (S', o) ∧ Agrees (h ++ [x]) S' ∧
      (∀ c, TcpObs.refused c ∉ o) ∧ deliveries o = replies cfg x.uptime x.packet x.client ps ∧
      ps.Nodup ∧ ∀ c, c ∈ ps ↔ c = x.client ∨ c ∈ online h := by
  obtain ⟨S₁, o₁, s, hexec₁, hs, hr, hother, hroom, href₁, hdel₁⟩ := hS.exec_connect hw hx cfg
  obtain ⟨S', o₂, t, hexec₂, hsame, ht, href₂, hdel₂⟩ := exec_read cfg hs hr
  have hknown : ∀ c, S₁.sessions c = none ↔ ∀ y ∈ h ++ [x], y.client ≠ c := by
    intro c
    by_cases hc : c = x.client
    · rw [hc, hs]
      refine iff_of_false (by simp) fun hno => hno x (by simp) rfl
    · rw [hother c hc, hS.known]
      simp [or_imp, forall_and, Ne.symm hc]
  refine ⟨S', o₁ ++ o₂, S₁.room.toList, (Lts.exec_append_iff _).mpr ⟨S₁, o₁, o₂, hexec₁, hexec₂, rfl⟩, ?_,
    fun c hc => ?_, ?_, S₁.room.nodup, hroom⟩
  · refine Agrees.of_sameReads ⟨fun c => ?_, fun c u hu => ?_, fun c => ?_⟩ hsame
    · rw [← hknown]
      show (S₁.set x.client t).sessions c = none ↔ _
      rw [sessions_set]
      split
      · rename_i hc
        simp [hc, hs]
      · rfl
    · have hu' : (S₁.set x.client t).sessions c = some u := hu
      rw [sessions_set] at hu'
      split at hu'
      · cases hu'
        exact ht
      · rename_i hc
        rw [hother c hc] at hu'
        exact hS.idle c u hu'
    · show c ∈ (S₁.room.processClientMessagePayload cfg x.uptime x.packet x.client).1 ↔ _
      rw [mem_processClientMessagePayload, hw.mem_online_concat hx, hroom]
      by_cases hc : x.client = c
      · simp [hc]
      · simp [hc, Ne.symm hc]
  · rcases List.mem_append.mp hc with hc | hc
    · exact href₁ c hc
    · exact href₂ c hc
  · rw [deliveries_append, hdel₁, hdel₂, List.nil_append]
    refine List.filter_eq_self.mpr fun d hd => ?_
    rw [Option.isSome_iff_ne_none]
    intro hn
    have hno := (hknown d.1).mp hn
    rcases mem_replies_fst hd with hc | hc
    · exact hno x (by simp) hc.symm
    · rcases (hroom d.1).mp hc with hc | hc
      · exact hno x (by simp) hc.symm
      · obtain ⟨⟨y, hy, hyc, -⟩, -⟩ := mem_online.mp hc
        exact hno y (by simp [hy]) hyc

/-- **The TCP server takes in every such sequence**, refuses nobody and agrees with it. -/
theorem exec_eventsOf (cfg : ServerConfig) (hw : WellBehaved xs) :
    ∃ S o, exec cfg (eventsOf xs) = some (S, o) ∧ Agrees xs S ∧ ∀ c, TcpObs.refused c ∉ o := by
  induction xs using List.reverseRecOn with
  | nil => exact ⟨start, [], rfl, agrees_start, by simp⟩
  | append_singleton h x ih =>
    obtain ⟨S, o, hexec, hS, href⟩ := ih (hw.of_prefix (List.prefix_append _ _))
    obtain ⟨S', o', -, hexec', hS', href', -⟩ := agrees_concat cfg hw (List.prefix_refl _) hS
    refine ⟨S', o ++ o', ?_, hS', fun c hc => ?_⟩
    · rw [eventsOf_concat]
      exact (Lts.exec_append_iff _).mpr ⟨S, o, o', hexec, hexec', rfl⟩
    · rcases List.mem_append.mp hc with hc | hc
      · exact href c hc
      · exact href' c hc

end TcpServer

/-! ### The UDP side -/

section Udp

open RawUdpServer

variable {E : Type*} [DecidableEq E] (f : ℕ → E)

/-- What a packet is from the client's endpoint. -/
def Sent.datagram (x : Sent) : Received E := ⟨f x.client, x.packet.header, x.udp_uptime, x.alloc⟩

omit [DecidableEq E] in
theorem packet_datagram (cfg : ServerConfig) (x : Sent) : (x.datagram f).packet cfg = some x.packet := by
  have hlen := x.lengthOK
  rw [Received.packet, RawUdpConnection.makePacket_some_iff]
  refine ⟨⟨x.packet.header_le, hlen.ge⟩, ?_⟩
  exact (List.take_of_length_le hlen.le).symm

omit [DecidableEq E] in
theorem isLogout_datagram (cfg : ServerConfig) (x : Sent) :
    (x.datagram f).isLogout cfg = decide (x.packet.payloadType = .LogoutRequest) := by
  rw [Received.isLogout, packet_datagram]

omit [DecidableEq E] in
theorem datagram_ne_nil (x : Sent) : (x.datagram f).data ≠ [] := by
  have hle := x.packet.header_le
  intro hnil
  have hnil' : x.packet.wholePacket = [] := hnil
  rw [hnil', FixHeaderLength_eq] at hle
  simp at hle

theorem heard_of_online {h : List Sent} {c : ℕ} (hc : c ∈ online h) : ∃ y ∈ h, y.client = c := by
  obtain ⟨⟨y, hy, hyc, -⟩, -⟩ := mem_online.mp hc
  exact ⟨y, hy, hyc⟩

/-- **The UDP room has a connection for each client online**, where different clients
have different endpoints. -/
theorem endpoints_eq_online (cfg : ServerConfig) {xs : List Sent} (hw : WellBehaved xs)
    (hf : Set.InjOn f {c | ∃ x ∈ xs, x.client = c}) (e : E) :
    e ∈ (roomAfter cfg (xs.map (Sent.datagram f))).endpoints ↔ ∃ c ∈ online xs, f c = e := by
  induction xs using List.reverseRecOn with
  | nil => exact iff_of_false List.not_mem_nil (by simp [online])
  | append_singleton h x ih =>
    have hpre : h <+: h ++ [x] := List.prefix_append _ _
    have hsub : {c | ∃ y ∈ h, y.client = c} ⊆ {c | ∃ y ∈ h ++ [x], y.client = c} := by
      rintro c ⟨y, hy, hc⟩
      exact ⟨y, hpre.subset hy, hc⟩
    have ih' := ih (hw.of_prefix hpre) (hf.mono hsub)
    have hx : x.client ∈ {c | ∃ y ∈ h ++ [x], y.client = c} := ⟨x, by simp, rfl⟩
    rw [List.map_append, List.map_singleton, roomAfter_concat,
      mem_endpoints_onReceive cfg (distinct_roomAfter cfg _) (datagram_ne_nil f x), isLogout_datagram]
    show (if f x.client = e then _ else _) ↔ _
    split
    · rename_i he
      rw [decide_eq_false_iff_not]
      constructor
      · exact fun hl => ⟨x.client, (hw.mem_online_concat (List.prefix_refl _) _).mpr (by rwa [if_pos rfl]), he⟩
      · rintro ⟨c, hc, hce⟩
        have hcx : c = x.client := hf (heard_of_online hc) hx (hce.trans he.symm)
        rw [hcx, hw.mem_online_concat (List.prefix_refl _), if_pos rfl] at hc
        exact hc
    · rename_i he
      rw [ih']
      refine exists_congr fun c => and_congr_left fun hce => ?_
      have hcx : x.client ≠ c := fun hc => he (hc ▸ hce)
      rw [hw.mem_online_concat (List.prefix_refl _), if_neg hcx]

end Udp

/-! ### Both sides -/

/-- Two lists are related element by element when the first has at most one element. -/
theorem forall₂_of_length_le_one {α β : Type*} {R : α → β → Prop} {l : List α} {m : List β} (hl : l.length ≤ 1)
    (hm : m.Nodup) (h₁ : ∀ a ∈ l, ∃ b ∈ m, R a b) (h₂ : ∀ b ∈ m, ∃ a ∈ l, R a b)
    (hinj : ∀ a ∈ l, ∀ b ∈ m, ∀ b' ∈ m, R a b → R a b' → b = b') : List.Forall₂ R l m := by
  rcases l with _ | ⟨a, l⟩
  · rcases m with _ | ⟨b, m⟩
    · exact .nil
    · obtain ⟨a, ha, -⟩ := h₂ b List.mem_cons_self
      exact absurd ha List.not_mem_nil
  · obtain rfl : l = [] := List.length_eq_zero_iff.mp (by simpa using hl)
    have hR : ∀ b ∈ m, R a b := by
      intro b hb
      obtain ⟨a', ha', hab⟩ := h₂ b hb
      rwa [List.mem_singleton.mp ha'] at hab
    obtain ⟨b, hb, hab⟩ := h₁ a List.mem_cons_self
    have hall : ∀ b' ∈ m, b' = b := fun b' hb' =>
      hinj a List.mem_cons_self b' hb' b hb (hR b' hb') hab
    have hone : m = [b] := by
      rw [List.eq_replicate_of_mem hall] at hm hb ⊢
      have hle : m.length ≤ 1 := by simpa using List.nodup_replicate.mp hm
      have hpos : m.length ≠ 0 := by simpa using hb
      rw [show m.length = 1 by omega]
      rfl
    rw [hone]
    exact .cons hab .nil

/-- The switch gives two senders the same packets, to participants that correspond. -/
theorem replies_alike {P Q : Type*} [DecidableEq P] [DecidableEq Q] {R : P → Q → Prop} (cfg : ServerConfig)
    (up up' : UInt32) (msg : NetPacket) {a : P} {b : Q} {ps : List P} {qs : List Q} (hab : R a b)
    (hothers : List.Forall₂ R (ps.filter (· ≠ a)) (qs.filter (· ≠ b))) :
    List.Forall₂ (fun d s => R d.1 s.1 ∧ s.2.payloadType = d.2.payloadType ∧
        (d.2.isMediaType = true → s.2 = d.2))
      (replies cfg up msg a ps) (replies cfg up' msg b qs) := by
  unfold replies
  rcases msg.request with _ | _ | _ | _ | _ <;> dsimp only
  · refine .cons ⟨hab, by simp, fun hm => ?_⟩ .nil
    simp [isMediaType_ofType, PayloadType.HeartBeatResponse, PayloadType.AudioMessage_CN,
      PayloadType.AudioMessage, PayloadType.TextMessage] at hm
  · split
    · exact .cons ⟨hab, rfl, fun _ => rfl⟩ .nil
    · rw [List.forall₂_map_left_iff, List.forall₂_map_right_iff]
      exact hothers.imp fun p q hpq => ⟨hpq, rfl, fun _ => rfl⟩
  · refine .cons ⟨hab, by simp, fun hm => ?_⟩ .nil
    simp [isMediaType_ofType, PayloadType.LoginResponse, PayloadType.AudioMessage_CN,
      PayloadType.AudioMessage, PayloadType.TextMessage] at hm
  · exact .nil
  · exact .nil

/-- A `deliver` call and a datagram that give a client the same: the same type and, of
what is relayed, the same bytes. -/
def Alike {E : Type*} (f : ℕ → E) (d : ℕ × NetPacket) (s : E × Bytes) : Prop :=
  s.1 = f d.1 ∧ ∃ q : NetPacket, s.2 = q.header ∧ q.payloadType = d.2.payloadType ∧
    (d.2.isMediaType = true → q = d.2)

section Both

open RawUdpServer

variable {E : Type*} [DecidableEq E] {f : ℕ → E} {xs h : List Sent} {x : Sent}

/-- The other participants correspond: one at most is online. -/
theorem others_alike (cfg : ServerConfig) (hw : WellBehaved xs) (hf : Set.InjOn f {c | ∃ x ∈ xs, x.client = c})
    (hx : h ++ [x] <+: xs) {ps : List ℕ} (hn : ps.Nodup) (hps : ∀ c, c ∈ ps ↔ c = x.client ∨ c ∈ online h)
    {room : RawUdpRoom E} (hroom : room = roomAfter cfg (h.map (Sent.datagram f))) :
    List.Forall₂ (fun c conn => conn.remote_endpoint = f c) (ps.filter (· ≠ x.client))
      ((room.connect (x.datagram f)).2.toList.filter (· ≠ (room.connect (x.datagram f)).1)) := by
  have hpre : h <+: xs := (List.prefix_append h [x]).trans hx
  have hsub : {c | ∃ y ∈ h, y.client = c} ⊆ {c | ∃ y ∈ xs, y.client = c} := by
    rintro c ⟨y, hy, hc⟩
    exact ⟨y, hpre.subset hy, hc⟩
  have hendpoints := endpoints_eq_online f cfg (hw.of_prefix hpre) (hf.mono hsub)
  rw [← hroom] at hendpoints
  have hxs : x.client ∈ {c | ∃ y ∈ xs, y.client = c} := ⟨x, hx.subset (by simp), rfl⟩
  have hdist : room.Distinct := hroom ▸ distinct_roomAfter cfg _
  obtain ⟨hself, hmem_self, hmem, hd⟩ := RawUdpRoom.connect_spec room (x.datagram f)
  set self := (room.connect (x.datagram f)).1
  set qs := (room.connect (x.datagram f)).2
  have hothers : ∀ c, c ∈ ps.filter (· ≠ x.client) ↔ c ∈ (online h).erase x.client := by
    intro c
    rw [List.mem_filter, hps, Finset.mem_erase]
    simp only [ne_eq, decide_not, Bool.not_eq_eq_eq_not, Bool.not_true, decide_eq_false_iff_not]
    tauto
  have hpeers : ∀ q, q ∈ qs.toList.filter (· ≠ self) ↔ q ∈ room ∧ q.remote_endpoint ≠ f x.client := by
    intro q
    rw [List.mem_filter, PtrSet.mem_toList, hmem]
    simp only [ne_eq, decide_not, Bool.not_eq_eq_eq_not, Bool.not_true, decide_eq_false_iff_not]
    constructor
    · rintro ⟨hq, hne⟩
      have hqr := hq.resolve_left hne
      exact ⟨hqr, fun he => hne (hd hdist q ((hmem q).mpr hq) self hmem_self (he.trans hself.symm))⟩
    · rintro ⟨hq, hne⟩
      exact ⟨Or.inr hq, fun he => hne (he ▸ hself)⟩
  refine forall₂_of_length_le_one ?_ (qs.nodup.filter _) (fun c hc => ?_) (fun q hq => ?_) ?_
  · calc (ps.filter (· ≠ x.client)).length
      _ = (ps.filter (· ≠ x.client)).toFinset.card := (List.toFinset_card_of_nodup (hn.filter _)).symm
      _ = ((online h).erase x.client).card := by
        congr 1
        ext c
        rw [List.mem_toFinset, hothers]
      _ ≤ 1 := hw.card_others hx
  · obtain ⟨hne, hc⟩ := Finset.mem_erase.mp ((hothers c).mp hc)
    obtain ⟨q, hq, hqc⟩ := RawUdpRoom.mem_endpoints.mp ((hendpoints (f c)).mpr ⟨c, hc, rfl⟩)
    refine ⟨q, (hpeers q).mpr ⟨hq, fun he => hne ?_⟩, hqc⟩
    exact hf (hsub (heard_of_online hc)) hxs (hqc.symm.trans he)
  · obtain ⟨hqr, hne⟩ := (hpeers q).mp hq
    obtain ⟨c, hc, hcq⟩ := (hendpoints _).mp (RawUdpRoom.mem_endpoints.mpr ⟨q, hqr, rfl⟩)
    refine ⟨c, (hothers c).mpr (Finset.mem_erase.mpr ⟨fun hcx => hne ?_, hc⟩), hcq.symm⟩
    rw [← hcq, hcx]
  · intro c _ q hq q' hq' hqc hqc'
    exact hdist q ((hpeers q).mp hq).1 q' ((hpeers q').mp hq').1 (hqc.trans hqc'.symm)

/-- **The two rooms are interchangeable.** Over every well-behaved sequence of packets, in
echo and in broadcast mode, where different clients have different endpoints: the TCP
server takes in the sequence and refuses nobody; and after any run that has read the
packets `h`, with write completions wherever they come, the next packet can be read, and
however it is, the packets delivered are those the UDP server sends on its datagram, one
by one, to the same clients. -/
theorem rooms_interchangeable (cfg : ServerConfig) (hw : WellBehaved xs)
    (hf : Set.InjOn f {c | ∃ x ∈ xs, x.client = c}) :
    (∃ S o, TcpServer.exec cfg (eventsOf xs) = some (S, o) ∧ ∀ c, TcpObs.refused c ∉ o) ∧
    ∀ h x, h ++ [x] <+: xs → ∀ es S o, TcpServer.reads es = eventsOf h → TcpServer.exec cfg es = some (S, o) →
      (∃ S' o', Lts.exec (TcpServer.step cfg) S (eventsAt h x) = some (S', o')) ∧
      ∀ es' S' o', TcpServer.reads es' = eventsAt h x → Lts.exec (TcpServer.step cfg) S es' = some (S', o') →
        List.Forall₂ (Alike f) (TcpServer.deliveries o')
          (sentAt cfg (h.map (Sent.datagram f)) (x.datagram f)) := by
  obtain ⟨S₀, o₀, hexec₀, -, href₀⟩ := TcpServer.exec_eventsOf cfg hw
  refine ⟨⟨S₀, o₀, hexec₀, href₀⟩, fun h x hx es S o hes hexec => ?_⟩
  -- the run without its write completions is the one that agrees with `h`
  have hS : TcpServer.Agrees h S := by
    obtain ⟨T, p, hT, hST, -⟩ := TcpServer.exec_reads hexec TcpServer.SameReads.rfl'
      (hes ▸ isRead_eventsOf h)
    obtain ⟨T', p', hT', hagree, -⟩ :=
      TcpServer.exec_eventsOf cfg (hw.of_prefix ((List.prefix_append h [x]).trans hx))
    rw [hes] at hT
    obtain ⟨rfl, -⟩ := Prod.mk.inj (Option.some.inj (hT.symm.trans hT'))
    exact hagree.of_sameReads hST.symm
  obtain ⟨T, p, ps, hT, -, -, hdel, hn, hps⟩ := TcpServer.agrees_concat cfg hw hx hS
  refine ⟨⟨T, p, hT⟩, fun es' S' o' hes' hexec' => ?_⟩
  obtain ⟨U, r, hU, -, hsame⟩ := TcpServer.exec_reads hexec' TcpServer.SameReads.rfl'
    (hes' ▸ isRead_eventsAt h x)
  rw [hes', hT] at hU
  cases hU
  rw [hsame, hdel, sentAt, onReceive_sends cfg _ (datagram_ne_nil f x), packet_datagram]
  obtain ⟨hself, -⟩ := RawUdpRoom.connect_spec (roomAfter cfg (h.map (Sent.datagram f))) (x.datagram f)
  have halike := replies_alike (R := fun (c : ℕ) (conn : RawUdpConnection E) => conn.remote_endpoint = f c)
    cfg x.uptime x.udp_uptime x.packet hself (others_alike cfg hw hf hx hn hps rfl)
  show List.Forall₂ (Alike f) _ (List.map _ _)
  rw [List.forall₂_map_right_iff]
  refine halike.imp fun d s hds => ⟨hds.1, s.2, rfl, hds.2.1, hds.2.2⟩

/-- A packet without a payload, from a client. -/
def sampleFrom (c : ℕ) (t : UInt8) (h : FixHeaderLength ≤ (sampleBytes t).length ∧ LengthOK (sampleBytes t)) : Sent :=
  ⟨c, ⟨sampleBytes t, h.1⟩, h.2, 0, 0, Allocator.bump⟩

/-- Two clients log in. -/
def sampleLogins : List Sent := [sampleFrom 1 3 (by decide), sampleFrom 2 3 (by decide)]

/-- The first of them speaks: both rooms give the packet to the second. -/
theorem rooms_interchangeable_call : ∃ S o S' o',
    TcpServer.exec RawUdpSpec.sampleConfig (eventsOf sampleLogins) = some (S, o) ∧
    Lts.exec (TcpServer.step RawUdpSpec.sampleConfig) S (eventsAt sampleLogins (sampleFrom 1 7 (by decide))) =
      some (S', o') ∧
    List.Forall₂ (Alike fun c => c) (TcpServer.deliveries o') [(2, sampleBytes 7)] := by
  have hprefix : ∀ g : List Sent, ∀ y, g ++ [y] <+: sampleLogins ++ [sampleFrom 1 7 (by decide)] →
      (g = [] ∧ y = sampleFrom 1 3 (by decide)) ∨ (g = sampleLogins.take 1 ∧ y = sampleFrom 2 3 (by decide)) ∨
        (g = sampleLogins ∧ y = sampleFrom 1 7 (by decide)) := by
    intro g y hg
    rcases g with _ | ⟨a, _ | ⟨b, _ | ⟨c, t⟩⟩⟩ <;> simp [sampleLogins] at hg ⊢
    · exact hg
    · exact hg
    · exact ⟨⟨hg.1, hg.2.1⟩, hg.2.2⟩
  have hw : WellBehaved (sampleLogins ++ [sampleFrom 1 7 (by decide)]) := by
    refine ⟨fun g y hg => ?_, fun g y hg => ?_, fun g hg => ?_⟩
    · rcases hprefix g y hg with ⟨rfl, rfl⟩ | ⟨rfl, rfl⟩ | ⟨rfl, rfl⟩ <;> decide
    · rcases hprefix g y hg with ⟨rfl, rfl⟩ | ⟨rfl, rfl⟩ | ⟨rfl, rfl⟩ <;> decide
    · revert g
      simp only [← List.mem_inits]
      decide
  have hall := rooms_interchangeable (f := fun c : ℕ => c) RawUdpSpec.sampleConfig hw fun _ _ _ _ he => he
  obtain ⟨⟨S', o', hexec'⟩, hsame⟩ := hall.2 sampleLogins _ (List.prefix_refl _) (eventsOf sampleLogins) _ _ rfl rfl
  exact ⟨_, _, S', o', rfl, hexec', hsame (eventsAt sampleLogins _) S' o' rfl hexec'⟩

end Both
end EasyVoiceCall
