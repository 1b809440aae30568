/-
# Who hears the call

The protocol document has a client log in before it sends audio and log out
after. No server looks at the logins: the UDP room takes in the sender of any
datagram, the TCP room a session at its connect, and only a `LogoutRequest` (or
an error on the connection) takes one out. So in broadcast mode a media packet
goes to other members only, members being defined by datagrams and connects
(`media_between_members`). Where the clients keep to the document's order, the
members are the clients logged in, and sender and receiver are.

Key theorems: `media_between_members`, `member_loggedIn`, `TcpServer.seats_exec`.
-/
import EasyVoiceCall.RawUdpSpec
import EasyVoiceCall.TcpServer

namespace EasyVoiceCall

open Buffer NetPacket

/-! ### Logins -/

section LoggedIn

variable {C : Type*}

/-- In the accepted packets `acc`, client `c` sent a `LoginRequest` and no
`LogoutRequest` since. -/
def LoggedIn (acc : List (C × NetPacket)) (c : C) : Prop :=
  ∃ pre p post, acc = pre ++ (c, p) :: post ∧ p.payloadType = .LoginRequest ∧
    ∀ q, (c, q) ∈ post → q.payloadType ≠ .LogoutRequest

theorem LoggedIn.concat {acc : List (C × NetPacket)} {c c' : C} {q : NetPacket} (h : LoggedIn acc c)
    (hq : c' = c → q.payloadType ≠ .LogoutRequest) : LoggedIn (acc ++ [(c', q)]) c := by
  obtain ⟨pre, p, post, rfl, hp, hpost⟩ := h
  refine ⟨pre, p, post ++ [(c', q)], by simp, hp, fun q' hq' => ?_⟩
  rcases List.mem_append.mp hq' with hq' | hq'
  · exact hpost q' hq'
  · obtain ⟨rfl, rfl⟩ := Prod.mk.inj (List.mem_singleton.mp hq')
    exact hq rfl

theorem loggedIn_login {acc : List (C × NetPacket)} {c : C} {p : NetPacket}
    (hp : p.payloadType = .LoginRequest) : LoggedIn (acc ++ [(c, p)]) c :=
  ⟨acc, p, [], rfl, hp, by simp⟩

theorem not_loggedIn_of_no_login {acc : List (C × NetPacket)} {c : C}
    (h : ∀ p, (c, p) ∈ acc → p.payloadType ≠ .LoginRequest) : ¬ LoggedIn acc c := by
  rintro ⟨pre, p, post, rfl, hp, -⟩
  exact h p (by simp) hp

end LoggedIn

theorem not_login_of_media {p : NetPacket} (hm : p.isMediaType = true) : p.payloadType ≠ .LoginRequest := by
  intro hl
  have h1 := (request_eq_media_iff p).mpr hm
  rw [(request_eq_login_iff p).mpr hl] at h1
  cases h1

/-! ### The UDP room -/

namespace RawUdpSpec

open RawUdpServer

variable {E : Type*} [DecidableEq E]

/-- The packets the server accepted, with their senders. -/
def accepted (cfg : ServerConfig) (rxs : List (Received E)) : List (E × NetPacket) :=
  rxs.filterMap fun rx => (rx.packet cfg).map fun p => (rx.endpoint, p)

/-- Every datagram is a `LoginRequest`, or comes from a client logged in. -/
def Orderly (cfg : ServerConfig) (rxs : List (Received E)) : Prop :=
  ∀ h rx, h ++ [rx] <+: rxs → (∃ p, rx.packet cfg = some p ∧ p.payloadType = .LoginRequest) ∨
    LoggedIn (accepted cfg h) rx.endpoint

omit [DecidableEq E] in
theorem accepted_concat (cfg : ServerConfig) (h : List (Received E)) (rx : Received E) :
    accepted cfg (h ++ [rx]) = accepted cfg h ++
      ((rx.packet cfg).map fun p => (rx.endpoint, p)).toList := by
  rcases hp : rx.packet cfg with _ | p <;> simp [accepted, List.filterMap_append, hp]

omit [DecidableEq E] in
theorem Orderly.of_prefix {cfg : ServerConfig} {h rxs : List (Received E)} (ho : Orderly cfg rxs)
    (hh : h <+: rxs) : Orderly cfg h := fun h' rx hr => ho h' rx (hr.trans hh)

omit [DecidableEq E] in
/-- A datagram that is no logout keeps its sender logged in, or logs it in. -/
theorem loggedIn_concat_of_orderly {cfg : ServerConfig} {h : List (Received E)} {rx : Received E}
    (ho : Orderly cfg (h ++ [rx])) (hl : rx.isLogout cfg = false) :
    LoggedIn (accepted cfg (h ++ [rx])) rx.endpoint := by
  rw [accepted_concat]
  rcases ho h rx (List.prefix_refl _) with ⟨p, hp, hlog⟩ | hin
  · rw [hp]
    exact loggedIn_login hlog
  · rcases hp : rx.packet cfg with _ | p
    · simpa using hin
    · refine LoggedIn.concat hin fun _ => ?_
      rw [Received.isLogout, hp] at hl
      simpa using hl

/-- In an orderly run the members are logged in. -/
theorem member_loggedIn (cfg : ServerConfig) (e : E) : ∀ rxs : List (Received E), Orderly cfg rxs →
    IsMember cfg rxs e → LoggedIn (accepted cfg rxs) e := by
  intro rxs
  induction rxs using List.reverseRecOn with
  | nil => exact fun _ hm => absurd hm (isMember_nil cfg e)
  | append_singleton h rx ih =>
    intro ho hm
    rw [isMember_concat] at hm
    split at hm
    · rename_i he
      subst he
      exact loggedIn_concat_of_orderly ho hm
    · rename_i he
      have hin := ih (ho.of_prefix (List.prefix_append _ _)) hm
      rw [accepted_concat]
      rcases rx.packet cfg with _ | p
      · simpa using hin
      · exact LoggedIn.concat hin fun hc => absurd hc he

/-- Where a relayed copy goes. -/
theorem mem_sends_media {cfg : ServerConfig} (hb : cfg.isEchoMode = false) {rxs : List (Received E)}
    {rx : Received E} {p : NetPacket} (hp : rx.packet cfg = some p) (hm : p.isMediaType = true)
    {r : E} {b : Bytes} (hr : (r, b) ∈ sends cfg rxs rx) :
    r ≠ rx.endpoint ∧ IsMember cfg rxs r := by
  have hreq : p.request = .media := (request_eq_media_iff p).mpr hm
  have h1 : p.payloadType ≠ .HeartBeatRequest := fun h => by
    rw [request, if_pos h] at hreq
    cases hreq
  have h2 : p.payloadType = .TextMessage ∨ p.payloadType = .AudioMessage ∨
      p.payloadType = .AudioMessage_CN := by
    by_contra h2
    rw [request, if_neg h1, if_neg h2] at hreq
    split_ifs at hreq
  rw [sends, hp] at hr
  simp only [h1, h2, hb, Bool.false_eq_true, ↓reduceIte, Multiset.mem_map, Finset.mem_val,
    Finset.mem_erase, Prod.mk.injEq] at hr
  obtain ⟨e, ⟨hne, he⟩, rfl, -⟩ := hr
  rw [mem_members, isMember_concat, if_neg (Ne.symm hne)] at he
  exact ⟨hne, he⟩

end RawUdpSpec

/-! ### The TCP room -/

namespace TcpServer

/-- The packets received, with their senders. -/
def accepted (o : List TcpObs) : List (ℕ × NetPacket) :=
  o.filterMap fun
    | .received c p => some (c, p)
    | _ => none

theorem accepted_append (a b : List TcpObs) : accepted (a ++ b) = accepted a ++ accepted b :=
  List.filterMap_append

/-- The document's order on a connection: the first packet is a `LoginRequest`,
none follows a `LogoutRequest`, and a client that connected has been heard
before anybody else is. -/
structure Orderly (o : List TcpObs) : Prop where
  login : ∀ h c p, h ++ [.received c p] <+: o →
    p.payloadType = .LoginRequest ∨ LoggedIn (accepted h) c
  first : ∀ h c p, h ++ [.received c p] <+: o → ∀ c', .joined c' ∈ h →
    c' = c ∨ ∃ p', TcpObs.received c' p' ∈ h

theorem Orderly.of_prefix {h o : List TcpObs} (ho : Orderly o) (hh : h <+: o) : Orderly h :=
  ⟨fun h' c p hp => ho.login h' c p (hp.trans hh), fun h' c p hp => ho.first h' c p (hp.trans hh)⟩

/-- A client heard of and not logged out is logged in. -/
theorem loggedIn_of_orderly (c : ℕ) : ∀ o : List TcpObs, Orderly o → (∃ p, TcpObs.received c p ∈ o) →
    (∀ p, TcpObs.received c p ∈ o → p.payloadType ≠ .LogoutRequest) → LoggedIn (accepted o) c := by
  intro o
  induction o using List.reverseRecOn with
  | nil => exact fun _ ⟨p, hp⟩ _ => absurd hp List.not_mem_nil
  | append_singleton h x ih =>
    intro ho hex hno
    have ho' : Orderly h := ho.of_prefix (List.prefix_append _ _)
    have hno' : ∀ p, TcpObs.received c p ∈ h → p.payloadType ≠ .LogoutRequest :=
      fun p hp => hno p (List.mem_append_left _ hp)
    rw [accepted_append]
    by_cases hx : ∃ p, x = .received c p
    · obtain ⟨p, rfl⟩ := hx
      rcases ho.login h c p (List.prefix_refl _) with hlog | hin
      · exact loggedIn_login hlog
      · exact hin.concat fun _ => hno p (by simp)
    · have hex' : ∃ p, TcpObs.received c p ∈ h := by
        obtain ⟨p, hp⟩ := hex
        rcases List.mem_append.mp hp with hp | hp
        · exact ⟨p, hp⟩
        · exact absurd ⟨p, (List.mem_singleton.mp hp).symm⟩ hx
      have hin := ih ho' hex' hno'
      cases x with
      | received c' q => exact hin.concat fun hc => absurd ⟨q, by rw [hc]⟩ hx
      | _ => simpa [accepted] using hin

/-- Who has a seat, and what is known of a session by what was seen of it. -/
structure Seats (S : TcpServer) (o : List TcpObs) : Prop where
  seat : ∀ c ∈ S.room, TcpObs.joined c ∈ o ∧
    ∀ p, TcpObs.received c p ∈ o → p.payloadType ≠ .LogoutRequest
  reader : ∀ c s, S.sessions c = some s → s.reading ≠ .nothing → TcpObs.joined c ∈ o
  unknown : ∀ c, S.sessions c = none → TcpObs.joined c ∉ o ∧ ∀ p, TcpObs.received c p ∉ o

theorem seats_start : Seats start [] :=
  ⟨fun c hc => absurd hc (PtrSet.not_mem_empty c), fun _ _ h => by simp [start] at h, fun _ _ => by simp⟩

/-- A step that seats nobody, receives nothing and starts no reader keeps the
seats. -/
theorem Seats.quiet {S S' : TcpServer} {o o' : List TcpObs} (h : Seats S o)
    (hroom : ∀ c ∈ S'.room, c ∈ S.room)
    (hread : ∀ c s, S'.sessions c = some s → s.reading ≠ .nothing →
      ∃ t, S.sessions c = some t ∧ t.reading ≠ .nothing)
    (hnone : ∀ c, S'.sessions c = none → S.sessions c = none)
    (ho : ∀ c, TcpObs.joined c ∉ o' ∧ ∀ p, TcpObs.received c p ∉ o') : Seats S' (o ++ o') := by
  have hrec : ∀ c p, TcpObs.received c p ∈ o ++ o' → TcpObs.received c p ∈ o := fun c p hp =>
    (List.mem_append.mp hp).resolve_right ((ho c).2 p)
  refine ⟨fun c hc => ?_, fun c s hs hr => ?_, fun c hc => ?_⟩
  · obtain ⟨hj, hp⟩ := h.seat c (hroom c hc)
    exact ⟨List.mem_append_left _ hj, fun p hm => hp p (hrec c p hm)⟩
  · obtain ⟨t, ht, hr'⟩ := hread c s hs hr
    exact List.mem_append_left _ (h.reader c t ht hr')
  · obtain ⟨hj, hp⟩ := h.unknown c (hnone c hc)
    exact ⟨fun hm => hj ((List.mem_append.mp hm).resolve_right (ho c).1), fun p hm => hp p (hrec c p hm)⟩

/-- What a session's own step leaves of the others. -/
theorem read_set {S : TcpServer} {id : ℕ} {s t : TcpSession} (hs : S.sessions id = some s)
    (hr : t.reading ≠ .nothing → s.reading ≠ .nothing) {c : ℕ} {u : TcpSession}
    (hc : (S.set id t).sessions c = some u) (hu : u.reading ≠ .nothing) :
    ∃ v, S.sessions c = some v ∧ v.reading ≠ .nothing := by
  rw [sessions_set] at hc
  split at hc
  · rename_i he
    cases hc
    exact ⟨s, he ▸ hs, hr hu⟩
  · exact ⟨u, hc, hu⟩

theorem none_of_set {S : TcpServer} {id c : ℕ} {t : TcpSession} (hc : (S.set id t).sessions c = none) :
    c ≠ id ∧ S.sessions c = none := by
  rw [sessions_set] at hc
  split at hc
  · cases hc
  · rename_i hne
    exact ⟨hne, hc⟩

/-- `deliver` seats nobody and receives nothing. -/
theorem quiet_deliverAll (id : ℕ) (ds : List (ℕ × NetPacket)) (S : TcpServer) (c : ℕ) :
    TcpObs.joined c ∉ (deliverAll id S ds).2 ∧ ∀ p, TcpObs.received c p ∉ (deliverAll id S ds).2 := by
  refine ⟨fun hx => ?_, fun p hx => ?_⟩
  all_goals rcases mem_deliverAll id ds S _ hx with ⟨d, -, hd⟩ | ⟨c', b, hd⟩ <;> cases hd

/-- A seat is kept through the switch, except that of the sender of a `LogoutRequest`. -/
theorem mem_processClientMessagePayload (cfg : ServerConfig) (up : UInt32) (msg : NetPacket) (id c : ℕ)
    (room : Room) : c ∈ (room.processClientMessagePayload cfg up msg id).1 ↔
      c ∈ room ∧ (msg.payloadType = .LogoutRequest → c ≠ id) := by
  dsimp only [Room.processClientMessagePayload, Room.leave]
  by_cases hl : msg.request = .logout
  · rw [if_pos hl, PtrSet.mem_erase]
    simp [(request_eq_logout_iff msg).mp hl]
  · rw [if_neg hl]
    exact ⟨fun hc => ⟨hc, fun hl' => absurd ((request_eq_logout_iff _).mpr hl') hl⟩, fun hc => hc.1⟩

/-- A packet received keeps the seats. -/
theorem Seats.payload {S : TcpServer} {o : List TcpObs} (h : Seats S o) (cfg : ServerConfig) {id : ℕ}
    {s : TcpSession} (hsome : S.sessions id = some s) (hread : s.reading = .payload) (bytes : Bytes) (up : UInt32)
    (ds : List (ℕ × NetPacket)) : Seats (deliverAll id (afterPayload cfg S id s bytes up) ds).1
      (o ++ .received id (s.onPayload bytes).read_msg ::
        (deliverAll id (afterPayload cfg S id s bytes up) ds).2) := by
  set S₁ := afterPayload cfg S id s bytes up with hS₁
  set msg := (s.onPayload bytes).read_msg with hmsg
  have hsame : SameReads S₁ (deliverAll id S₁ ds).1 := sameReads_deliverAll id ds S₁
  have hquiet := quiet_deliverAll id ds S₁
  have hreads : s.reading ≠ .nothing := by simp [hread]
  have hjoin : TcpObs.joined id ∈ o := h.reader id s hsome hreads
  have hrec : ∀ c p, TcpObs.received c p ∈ o ++ .received id msg :: (deliverAll id S₁ ds).2 →
      TcpObs.received c p ∈ o ∨ (c = id ∧ p = msg) := by
    intro c p hm
    rcases List.mem_append.mp hm with hm | hm
    · exact Or.inl hm
    · rcases List.mem_cons.mp hm with hm | hm
      · cases hm
        exact Or.inr ⟨rfl, rfl⟩
      · exact absurd hm ((hquiet c).2 p)
  refine ⟨fun c hc => ?_, fun c u hc hu => ?_, fun c hc => ?_⟩
  · rw [hsame.1] at hc
    obtain ⟨hroom, hout⟩ := (mem_processClientMessagePayload cfg up msg id c S.room).mp hc
    obtain ⟨h1, h2⟩ := h.seat c hroom
    refine ⟨List.mem_append_left _ h1, fun p hm => ?_⟩
    rcases hrec c p hm with hm | ⟨rfl, rfl⟩
    · exact h2 p hm
    · exact fun hl => hout hl rfl
  · obtain ⟨v, hv, -, hvr⟩ := hsame.of_some hc
    have hv' : (S.set id (s.onPayload bytes)).sessions c = some v := hv
    have hvu : v.reading ≠ .nothing := by
      rw [hvr]
      exact hu
    obtain ⟨w, hw, hwr⟩ := read_set hsome (fun _ => hreads) hv' hvu
    exact List.mem_append_left _ (h.reader c w hw hwr)
  · have hc' : (S.set id (s.onPayload bytes)).sessions c = none := (hsame.none_iff c).mp hc
    obtain ⟨hne, hnone⟩ := none_of_set hc'
    obtain ⟨h1, h2⟩ := h.unknown c hnone
    refine ⟨fun hm => ?_, fun p hm => ?_⟩
    · rcases List.mem_append.mp hm with hm | hm
      · exact h1 hm
      · exact (hquiet c).1 ((List.mem_cons.mp hm).resolve_left (by simp))
    · rcases hrec c p hm with hm | ⟨rfl, -⟩
      · exact h2 p hm
      · exact hne rfl

theorem seats_step {cfg : ServerConfig} {S S' : TcpServer} {e : TcpEvent} {o o' : List TcpObs}
    (h : Seats S o) (hs : Steps cfg S e S' o') : Seats S' (o ++ o') := by
  cases hs with
  | @refuse id up hn hr =>
    refine h.quiet (fun c hc => hc) (fun c s hc hu => ?_) (fun c hc => (none_of_set hc).2) (by simp)
    rw [sessions_set] at hc
    split at hc
    · cases hc
      exact absurd rfl hu
    · exact ⟨s, hc, hu⟩
  | @join id up hn hr =>
    obtain ⟨hj, hp⟩ := h.unknown id hn
    refine ⟨fun c hc => ?_, fun c s hc hu => ?_, fun c hc => ?_⟩
    · rcases PtrSet.mem_of_mem_insert hc with rfl | hc
      · exact ⟨by simp, fun p hm => absurd ((List.mem_append.mp hm).resolve_right (by simp)) (hp p)⟩
      · obtain ⟨h1, h2⟩ := h.seat c hc
        exact ⟨List.mem_append_left _ h1, fun p hm => h2 p ((List.mem_append.mp hm).resolve_right (by simp))⟩
    · have hc' : (S.set id ⟨ofType cfg.version up .Undefined 0, [], .header, false⟩).sessions c = some s := hc
      rw [sessions_set] at hc'
      split at hc'
      · rename_i he
        simp [he]
      · exact List.mem_append_left _ (h.reader c s hc' hu)
    · obtain ⟨hne, hc'⟩ := none_of_set (S := S) hc
      obtain ⟨h1, h2⟩ := h.unknown c hc'
      exact ⟨by simp [h1, hne], fun p hm => h2 p ((List.mem_append.mp hm).resolve_right (by simp))⟩
  | @header id bytes s hsome hread hlen =>
    exact h.quiet (fun c hc => hc)
      (fun c u hc hu => read_set hsome (fun _ => by simp [hread]) hc hu)
      (fun c hc => (none_of_set hc).2) (by simp)
  | payload hsome hread hlen => exact h.payload cfg hsome hread _ _ _
  | @readError id s hsome hread =>
    exact h.quiet (fun c hc => (PtrSet.mem_erase.mp hc).1)
      (fun c u hc hu => read_set (S := S) (t := { s with reading := .nothing }) hsome (fun _ => hread) hc hu)
      (fun c hc => (none_of_set (S := S) hc).2) (by simp)
  | @written id s hsome hw =>
    refine h.quiet (fun c hc => hc)
      (fun c u hc hu => read_set hsome (fun hr => (session_onWritten_reads s).2 ▸ hr) hc hu)
      (fun c hc => (none_of_set hc).2) fun c => ⟨by simp, by simp⟩
  | @writeError id s hsome hw =>
    exact h.quiet (fun c hc => (PtrSet.mem_erase.mp hc).1)
      (fun c u hc hu => read_set (S := S) (t := { s with writing := false }) hsome (fun hr => hr) hc hu)
      (fun c hc => (none_of_set (S := S) hc).2) (by simp)

/-- **Seats over runs.** -/
theorem seats_exec {cfg : ServerConfig} {es : List TcpEvent} {S : TcpServer} {o : List TcpObs}
    (h : exec cfg es = some (S, o)) : Seats S o :=
  Lts.history_rule (step cfg) (fun _ S o => Seats S o) seats_start
    (fun _ _ _ _ _ _ hS hs => seats_step hS (steps_of_step hs)) h

/-- A relayed copy goes from a session that joined to another that has a seat. -/
theorem mem_delivered {cfg : ServerConfig} (hb : cfg.isEchoMode = false) {S S' : TcpServer} {e : TcpEvent}
    {o o' : List TcpObs} (hS : Seats S o) (hs : Steps cfg S e S' o') {s r : ℕ} {q : NetPacket}
    (hd : .delivered s r q ∈ o') (hm : q.isMediaType = true) :
    r ≠ s ∧ TcpObs.joined s ∈ o ∧ r ∈ S.room ∧ ∃ x, o' = .received s q :: x := by
  cases hs with
  | @payload id bytes up t hsome hread hlen =>
    set msg := (t.onPayload bytes).read_msg with hmsg
    have hd' := (List.mem_cons.mp hd).resolve_left (by simp)
    rcases mem_deliverAll id _ _ _ hd' with ⟨d, hrep, he⟩ | ⟨c, b, he⟩
    · cases he
      obtain ⟨-, hmsg', hr, hne⟩ := mem_replies_media hb hrep hm
      exact ⟨hne, hS.reader _ t hsome (by simp [hread]), hr, _, by rw [hmsg']⟩
    · cases he
  | _ => simp at hd

end TcpServer

/-! ### Both servers -/

/-- **Media goes between members.** In broadcast mode, over every run: in the UDP
room the receiver of a relayed packet is not its sender, has sent a datagram,
and the last it sent is no accepted `LogoutRequest`; in the TCP room both
sessions joined at their connects, and no `LogoutRequest` was received from the
receiver. Where the run is orderly, sender and receiver are logged in. -/
theorem media_between_members {E : Type*} [DecidableEq E] (cfg : ServerConfig) (hb : cfg.isEchoMode = false) :
    (∀ (rxs : List (Received E)) (rx : Received E) (p : NetPacket) (r : E) (b : Bytes),
      (∀ x ∈ rxs ++ [rx], x.data ≠ []) → rx.packet cfg = some p → p.isMediaType = true →
      (r, b) ∈ RawUdpServer.sentAt cfg rxs rx →
        r ≠ rx.endpoint ∧ RawUdpSpec.IsMember cfg rxs r ∧
        (RawUdpSpec.Orderly cfg (rxs ++ [rx]) →
          LoggedIn (RawUdpSpec.accepted cfg rxs) rx.endpoint ∧ LoggedIn (RawUdpSpec.accepted cfg rxs) r)) ∧
    (∀ (es : List TcpEvent) (S : TcpServer) (o : List TcpObs) (e : TcpEvent) (S' : TcpServer)
      (o' : List TcpObs) (s r : ℕ) (q : NetPacket),
      TcpServer.exec cfg es = some (S, o) → TcpServer.step cfg S e = some (S', o') →
      .delivered s r q ∈ o' → q.isMediaType = true →
        r ≠ s ∧ TcpObs.joined s ∈ o ∧ TcpObs.joined r ∈ o ∧
        (∀ p, TcpObs.received r p ∈ o → p.payloadType ≠ .LogoutRequest) ∧
        (TcpServer.Orderly (o ++ o') →
          LoggedIn (TcpServer.accepted o) s ∧ LoggedIn (TcpServer.accepted o) r)) := by
  refine ⟨fun rxs rx p r b hne hp hm hr => ?_, fun es S o e S' o' s r q hexec hstep hd hm => ?_⟩
  · have hne' : ∀ x ∈ rxs, x.data ≠ [] := fun x hx => hne x (List.mem_append_left _ hx)
    have hr' : (r, b) ∈ RawUdpSpec.sends cfg rxs rx := by
      rw [← RawUdpSpec.sentAt_eq cfg rxs hne' (hne rx (by simp))]
      exact Multiset.mem_coe.mpr hr
    obtain ⟨hrs, hmem⟩ := RawUdpSpec.mem_sends_media hb hp hm hr'
    refine ⟨hrs, hmem, fun ho => ⟨?_, RawUdpSpec.member_loggedIn cfg r _
      (ho.of_prefix (List.prefix_append _ _)) hmem⟩⟩
    rcases ho rxs rx (List.prefix_refl _) with ⟨p', hp', hlog⟩ | hin
    · rw [hp] at hp'
      cases hp'
      exact absurd hlog (not_login_of_media hm)
    · exact hin
  · have hS := TcpServer.seats_exec hexec
    obtain ⟨hrs, hjoin, hseat, x, rfl⟩ :=
      TcpServer.mem_delivered hb hS (TcpServer.steps_of_step hstep) hd hm
    obtain ⟨hj, hno⟩ := hS.seat r hseat
    refine ⟨hrs, hjoin, hj, hno, fun ho => ⟨?_, ?_⟩⟩
    · rcases ho.login o s q ⟨x, by simp⟩ with hlog | hin
      · exact absurd hlog (not_login_of_media hm)
      · exact hin
    · have hheard := (ho.first o s q ⟨x, by simp⟩ r hj).resolve_left hrs
      exact TcpServer.loggedIn_of_orderly r o (ho.of_prefix (List.prefix_append _ _)) hheard hno

/-- Two clients log in before they speak: the second hears the first. -/
theorem media_between_members_call :
    LoggedIn (RawUdpSpec.accepted RawUdpSpec.sampleConfig
      [RawUdpSpec.sampleReceived 1 (sampleBytes 3), RawUdpSpec.sampleReceived 2 (sampleBytes 3)]) 2 := by
  refine (((media_between_members RawUdpSpec.sampleConfig rfl).1
    [RawUdpSpec.sampleReceived 1 (sampleBytes 3), RawUdpSpec.sampleReceived 2 (sampleBytes 3)]
    (RawUdpSpec.sampleReceived 1 (sampleBytes 7)) ⟨sampleBytes 7, by decide⟩ 2 (sampleBytes 7)
    (by decide) (by decide) (by decide) (by decide)).2.2 ?_).2
  have hframe : Framed (sampleBytes 3) ∧ sampleBytes 3 = frame (sampleBytes 3) := by decide
  have hlogin : ∀ e, ∃ p, (RawUdpSpec.sampleReceived e (sampleBytes 3)).packet RawUdpSpec.sampleConfig =
      some p ∧ p.payloadType = .LoginRequest := fun _ =>
    ⟨⟨sampleBytes 3, by decide⟩, (RawUdpConnection.makePacket_some_iff _ _ _ _).mpr hframe, by decide⟩
  intro h rx hpre
  rcases h with _ | ⟨x, _ | ⟨y, _ | ⟨z, t⟩⟩⟩ <;> simp at hpre
  · rw [hpre]
    exact Or.inl (hlogin 1)
  · rw [hpre.2]
    exact Or.inl (hlogin 2)
  · obtain ⟨rfl, rfl, rfl⟩ := hpre
    refine Or.inr ⟨[], ⟨sampleBytes 3, by decide⟩, [(2, ⟨sampleBytes 3, by decide⟩)], by decide, by decide, ?_⟩
    intro q hq
    simp [RawUdpSpec.sampleReceived] at hq

/-- Two sessions connect and the first sends an audio packet. -/
def sampleConnects : List TcpEvent :=
  [.accept 1 0, .accept 2 0, .readHeader 1 (sampleBytes 7)]

/-- Nobody needs to log in. UDP: a stranger's byte makes endpoint 2 a member,
and endpoint 1 is heard there. TCP: it is enough to connect. -/
theorem media_without_login :
    (¬ ∀ (cfg : ServerConfig) (rxs : List (Received ℕ)) (rx : Received ℕ) (p : NetPacket) (r : ℕ) (b : Bytes),
      cfg.isEchoMode = false → (∀ x ∈ rxs ++ [rx], x.data ≠ []) → rx.packet cfg = some p →
      p.isMediaType = true → (r, b) ∈ RawUdpServer.sentAt cfg rxs rx →
        LoggedIn (RawUdpSpec.accepted cfg (rxs ++ [rx])) rx.endpoint ∧
        LoggedIn (RawUdpSpec.accepted cfg (rxs ++ [rx])) r) ∧
    (¬ ∀ (cfg : ServerConfig) (es : List TcpEvent) (S : TcpServer) (o : List TcpObs) (e : TcpEvent)
      (S' : TcpServer) (o' : List TcpObs) (s r : ℕ) (q : NetPacket), cfg.isEchoMode = false →
      TcpServer.exec cfg es = some (S, o) → TcpServer.step cfg S e = some (S', o') →
      .delivered s r q ∈ o' → q.isMediaType = true →
        LoggedIn (TcpServer.accepted (o ++ o')) s ∧ LoggedIn (TcpServer.accepted (o ++ o')) r) := by
  refine ⟨fun h => ?_, fun h => ?_⟩
  · have h1 := (h RawUdpSpec.sampleConfig [RawUdpSpec.sampleReceived 2 [0]]
      (RawUdpSpec.sampleReceived 1 (sampleBytes 7)) ⟨sampleBytes 7, by decide⟩ 2 (sampleBytes 7)
      rfl (by decide) (by decide) (by decide) (by decide)).1
    have hno : ∀ a ∈ RawUdpSpec.accepted RawUdpSpec.sampleConfig
        ([RawUdpSpec.sampleReceived 2 [0]] ++ [RawUdpSpec.sampleReceived 1 (sampleBytes 7)]),
        a.2.payloadType ≠ .LoginRequest := by decide
    exact not_loggedIn_of_no_login (fun p hp => hno _ hp) h1
  · have h1 := (h RawUdpSpec.sampleConfig sampleConnects _ _ (.readPayload 1 [] 0) _ _ 1 2
      ⟨sampleBytes 7, by decide⟩ rfl rfl rfl (by decide) (by decide)).2
    have hno : ∀ {l : List (ℕ × NetPacket)}, (∀ a ∈ l, a.1 ≠ 2) → ¬ LoggedIn l 2 := fun hl =>
      not_loggedIn_of_no_login fun p hp => absurd rfl (hl _ hp)
    exact hno (by decide) h1

end EasyVoiceCall
