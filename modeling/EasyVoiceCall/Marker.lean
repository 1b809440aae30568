/-
# The marker of the packets the servers send

`NetPacket.hpp` documents the first four bytes of a packet as fixed, `'evc '`.
`checkHeader`, which both servers call on a header off the wire, returns true
whatever the header is, so what a client sends without the marker is relayed
without it. The length field is always right: the servers cut or fill a
packet to what its header announces. Over a run of either server, every packet
sent is in the documented format exactly when every media packet that had
somebody to go to carried the marker (`documented_iff`).

Key theorems: `documented_iff`, `RawUdpServer.documented_onReceive`,
`TcpServer.documented_exec`.
-/
import EasyVoiceCall.Discipline

namespace EasyVoiceCall

open Buffer NetPacket

/-- The documented format: the marker, and a length field that is the payload's
length. -/
def Documented (b : Bytes) : Prop := HasMarker b ∧ LengthOK b

instance (b : Bytes) : Decidable (Documented b) := by unfold Documented; infer_instance

theorem documented_ofType (v : Version) (up : UInt32) (t : PayloadType) (sn : UInt32) :
    Documented (ofType v up t sn).wholePacket :=
  format_ofType v up t sn

/-! ### The switch -/

/-- A relayed packet that had a receiver is the only one that can miss the
marker. -/
theorem documented_replies {P : Type*} [DecidableEq P] (cfg : ServerConfig) (up : UInt32) (msg : NetPacket)
    (sender : P) (ps : List P) (hl : LengthOK msg.wholePacket) :
    (∀ d ∈ replies cfg up msg sender ps, Documented d.2.wholePacket) ↔
      (msg.isMediaType = true → (cfg.isEchoMode = true ∨ ∃ q ∈ ps, q ≠ sender) →
        HasMarker msg.wholePacket) := by
  rw [← request_eq_media_iff]
  unfold replies
  split
  · rename_i hreq
    simp [hreq, documented_ofType]
  · rename_i hreq
    rcases Bool.eq_false_or_eq_true cfg.isEchoMode with he | he
    · simp [hreq, he, Documented, hl]
    · simp only [he, Bool.false_eq_true, ↓reduceIte, List.mem_map, List.mem_filter, ne_eq,
        decide_eq_true_eq, hreq, forall_const, false_or]
      constructor
      · rintro h ⟨q, hq, hne⟩
        exact (h (q, msg) ⟨q, ⟨hq, hne⟩, rfl⟩).1
      · rintro h d ⟨q, ⟨hq, hne⟩, rfl⟩
        exact ⟨h ⟨q, hq, hne⟩, hl⟩
  · rename_i hreq
    simp [hreq, documented_ofType]
  · rename_i hreq
    simp [hreq]
  · rename_i hreq
    simp [hreq]

theorem lengthOK_replies {P : Type*} [DecidableEq P] (cfg : ServerConfig) (up : UInt32) {msg : NetPacket}
    (sender : P) (ps : List P) (hl : LengthOK msg.wholePacket) :
    ∀ d ∈ replies cfg up msg sender ps, LengthOK d.2.wholePacket := by
  intro d hd
  unfold replies at hd
  split at hd
  · rw [List.mem_singleton.mp hd]
    exact (format_ofType ..).2
  · split at hd
    · rw [List.mem_singleton.mp hd]
      exact hl
    · obtain ⟨q, -, rfl⟩ := List.mem_map.mp hd
      exact hl
  · rw [List.mem_singleton.mp hd]
    exact (format_ofType ..).2
  · cases hd
  · cases hd

theorem mem_replies_fst {P : Type*} [DecidableEq P] {cfg : ServerConfig} {up : UInt32} {msg : NetPacket}
    {sender : P} {ps : List P} {d : P × NetPacket} (hd : d ∈ replies cfg up msg sender ps) :
    d.1 = sender ∨ d.1 ∈ ps := by
  unfold replies at hd
  split at hd
  · exact Or.inl (by rw [List.mem_singleton.mp hd])
  · split at hd
    · exact Or.inl (by rw [List.mem_singleton.mp hd])
    · obtain ⟨q, hq, rfl⟩ := List.mem_map.mp hd
      exact Or.inr (List.mem_filter.mp hq).1
  · exact Or.inl (by rw [List.mem_singleton.mp hd])
  · cases hd
  · cases hd

/-! ### The UDP server -/

theorem lengthOK_frame {d : Bytes} (h : Framed d) : LengthOK (frame d) := by
  have ht : (frame d).take FixHeaderLength = d.take FixHeaderLength := by
    rw [frame, List.take_take, Nat.min_eq_left (Nat.le_add_right _ _)]
  rw [LengthOK, length_frame h, lengthField_congr ht]

theorem hasMarker_frame (d : Bytes) : HasMarker (frame d) ↔ HasMarker d := by
  have h4 : min 4 (FixHeaderLength + (lengthField d).toNat) = 4 := by
    rw [FixHeaderLength_eq]
    omega
  rw [HasMarker, HasMarker, frame, List.take_take, h4]

namespace RawUdpServer

variable {E : Type*} [DecidableEq E]

/-- The datagram is a media packet, and there is somebody to relay it to. -/
def Relays (cfg : ServerConfig) (room : RawUdpRoom E) (rx : Received E) : Prop :=
  ∃ p, rx.packet cfg = some p ∧ p.isMediaType = true ∧
    (cfg.isEchoMode = true ∨ ∃ c ∈ room, c.remote_endpoint ≠ rx.endpoint)

theorem distinct_roomAfter (cfg : ServerConfig) (rxs : List (Received E)) : (roomAfter cfg rxs).Distinct :=
  Mealy.history_rule (onReceive cfg) (fun _ room => room.Distinct)
    (fun _ ha => absurd ha (PtrSet.not_mem_empty _))
    (fun _ _ rx h => distinct_onReceive cfg rx h) rxs

/-- What is sent is a reply to an accepted packet whose length field is right. -/
theorem onReceive_replies (cfg : ServerConfig) (room : RawUdpRoom E) (rx : Received E) :
    (rx.packet cfg = none ∧ (onReceive cfg room rx).2 = []) ∨
    ∃ p, rx.packet cfg = some p ∧ rx.data ≠ [] ∧ p.wholePacket = frame rx.data ∧ LengthOK p.wholePacket ∧
      (onReceive cfg room rx).2 =
        (replies cfg rx.uptime p (room.connect rx).1 (room.connect rx).2.toList).map
          fun s => s.1.send s.2 := by
  rcases hp : rx.packet cfg with _ | p
  · refine Or.inl ⟨rfl, ?_⟩
    by_cases hne : rx.data = []
    · rw [onReceive, if_neg (by simp [hne])]
    · rw [onReceive_sends cfg room hne, hp]
  · obtain ⟨hf, hb⟩ := (RawUdpConnection.makePacket_some_iff _ _ _ _).mp hp
    have hne : rx.data ≠ [] := by
      intro hnil
      have h20 := hf.1
      rw [hnil, FixHeaderLength_eq] at h20
      simp at h20
    refine Or.inr ⟨p, rfl, hne, hb, hb ▸ lengthOK_frame hf, ?_⟩
    rw [onReceive_sends cfg room hne, hp]

/-- **One datagram.** -/
theorem documented_onReceive (cfg : ServerConfig) {room : RawUdpRoom E} (hd : room.Distinct)
    (rx : Received E) : (∀ s ∈ (onReceive cfg room rx).2, Documented s.2) ↔
      (Relays cfg room rx → HasMarker rx.data) := by
  obtain ⟨hep, hself, hmem, hd'⟩ := RawUdpRoom.connect_spec room rx
  rcases onReceive_replies cfg room rx with ⟨hp, hout⟩ | ⟨p, hp, -, hb, hlen, hout⟩
  · simp [hout, Relays, hp]
  have hsent : (∀ s ∈ (replies cfg rx.uptime p (room.connect rx).1 (room.connect rx).2.toList).map
      (fun s => s.1.send s.2), Documented s.2) ↔
      ∀ d ∈ replies cfg rx.uptime p (room.connect rx).1 (room.connect rx).2.toList,
        Documented d.2.wholePacket := by
    simp only [List.mem_map, forall_exists_index, and_imp, forall_apply_eq_imp_iff₂]
    exact Iff.rfl
  -- the others are those at another endpoint
  have hothers : (∃ q ∈ (room.connect rx).2.toList, q ≠ (room.connect rx).1) ↔
      ∃ c ∈ room, c.remote_endpoint ≠ rx.endpoint := by
    constructor
    · rintro ⟨q, hq, hqne⟩
      refine ⟨q, ((hmem q).mp hq).resolve_left hqne, fun he => hqne ?_⟩
      exact hd' hd q hq _ hself (he.trans hep.symm)
    · rintro ⟨c, hc, hcne⟩
      exact ⟨c, (hmem c).mpr (Or.inr hc), fun he => hcne (he ▸ hep)⟩
  rw [hout, hsent, documented_replies cfg _ p _ _ hlen, hothers, hb, hasMarker_frame]
  simp [Relays, hp]

/-- Whatever a client sends, the length field of what the server sends is right. -/
theorem lengthOK_onReceive (cfg : ServerConfig) (room : RawUdpRoom E) (rx : Received E) :
    ∀ s ∈ (onReceive cfg room rx).2, LengthOK s.2 := by
  rcases onReceive_replies cfg room rx with ⟨-, hout⟩ | ⟨p, -, -, -, hlen, hout⟩
  · simp [hout]
  · intro s hs
    rw [hout] at hs
    obtain ⟨d, hd, rfl⟩ := List.mem_map.mp hs
    exact lengthOK_replies cfg _ _ _ hlen d hd

end RawUdpServer

/-! ### The TCP server -/

namespace TcpServer

/-- While a payload is read, the buffer is as long as its header says. -/
def ReadOK (S : TcpServer) : Prop :=
  ∀ c s, S.sessions c = some s → s.reading = .payload → LengthOK s.read_msg.wholePacket

/-- The completion is of the media packet `m`, and there is somebody to relay it to. -/
def Relays (cfg : ServerConfig) (S : TcpServer) (e : TcpEvent) (m : NetPacket) : Prop :=
  ∃ id bytes up s, e = .readPayload id bytes up ∧ S.sessions id = some s ∧ s.reading = .payload ∧
    m = (s.onPayload bytes).read_msg ∧ m.isMediaType = true ∧
    (cfg.isEchoMode = true ∨ ∃ q ∈ S.room, q ≠ id)

theorem readOK_set {S : TcpServer} (h : ReadOK S) {id : ℕ} {t : TcpSession}
    (ht : t.reading = .payload → LengthOK t.read_msg.wholePacket) : ReadOK (S.set id t) :=
  forall_set h ht

theorem readOK_step {cfg : ServerConfig} {S S' : TcpServer} {e : TcpEvent} {o' : List TcpObs}
    (h : ReadOK S) (hs : Steps cfg S e S' o') : ReadOK S' := by
  cases hs with
  | refuse hn hr => exact readOK_set h fun hr => by cases hr
  | join hn hr => exact readOK_set (S := S) h fun hr => by cases hr
  | header hsome hread hlen => exact readOK_set h fun _ => lengthOK_checkHeader _
  | @payload id bytes up s hsome hread hlen =>
    intro c t ht hr
    obtain ⟨u, hu, hmsg, hreading⟩ := (sameReads_deliverAll id _ _).of_some ht
    have h1 : ReadOK (S.set id (s.onPayload bytes)) := readOK_set h fun hr => by cases hr
    rw [← hmsg]
    exact h1 c u hu (hreading.trans hr)
  | readError hsome hread => exact readOK_set (S := S) h fun hr => by cases hr
  | @written id s hsome hw =>
    refine readOK_set h fun hr => ?_
    rw [(session_onWritten_reads s).1]
    exact h id s hsome ((session_onWritten_reads s).2 ▸ hr)
  | @writeError id s hsome hw => exact readOK_set (S := S) h fun hr => h id s hsome hr

/-- A relayed packet is delivered: where it misses the marker, so does a packet
the server sends. -/
theorem marker_of_documented {cfg : ServerConfig} {S S' : TcpServer} {e : TcpEvent} {o o' : List TcpObs}
    (hseat : Seats S o) (hread : ReadOK S) (hs : Steps cfg S e S' o')
    (hdoc : ∀ s r m, TcpObs.delivered s r m ∈ o' → Documented m.wholePacket) :
    ∀ m, Relays cfg S e m → HasMarker m.wholePacket := by
  rintro m ⟨id, bytes, up, s, rfl, hsome, hr, rfl, hm, hto⟩
  cases hs with
  | @payload _ _ _ s' hsome' hr' hlen =>
    obtain rfl : s = s' := Option.some.inj (hsome.symm.trans hsome')
    have hl : LengthOK (s.onPayload bytes).read_msg.wholePacket := lengthOK_setPayload (hread id s hsome hr) hlen
    refine (documented_replies cfg up _ id S.room.toList hl).mp (fun d hd => ?_) hm hto
    have hknown : S.sessions d.1 ≠ none := by
      rcases mem_replies_fst hd with h | h
      · rw [h, hsome]
        exact Option.some_ne_none s
      · exact fun hn => (hseat.unknown d.1 hn).1 (hseat.seat d.1 h).1
    have hknown' : (afterPayload cfg S id s bytes up).sessions d.1 ≠ none := fun hn =>
      hknown (none_of_set (S := S) hn).2
    exact hdoc _ _ _ (List.mem_cons_of_mem _ (delivered_mem_deliverAll id _ _ d hd hknown'))

/-- In a run, every packet that had somebody to go to carried the marker. -/
def Marked (cfg : ServerConfig) (es : List TcpEvent) : Prop :=
  ∀ pre e S o, pre ++ [e] <+: es → exec cfg pre = some (S, o) → ∀ m, Relays cfg S e m → HasMarker m.wholePacket

theorem readOK_exec {cfg : ServerConfig} {es : List TcpEvent} {S : TcpServer} {o : List TcpObs}
    (h : exec cfg es = some (S, o)) : ReadOK S :=
  Lts.invariant_rule (step cfg) ReadOK (fun _ _ h => by simp [start] at h)
    (fun _ _ _ _ hS hs => readOK_step hS (steps_of_step hs)) h

theorem lengthOK_onPayload {S : TcpServer} (hread : ReadOK S) {id : ℕ} {s : TcpSession} {bytes : Bytes}
    (hsome : S.sessions id = some s) (hr : s.reading = .payload)
    (hlen : bytes.length = s.read_msg.payloadLength) : LengthOK (s.onPayload bytes).read_msg.wholePacket :=
  lengthOK_setPayload (hread id s hsome hr) hlen

/-- The length field of what a run sends. -/
theorem lengthOK_exec {cfg : ServerConfig} {es : List TcpEvent} {S : TcpServer} {o : List TcpObs}
    (h : exec cfg es = some (S, o)) : AllSent (fun m => LengthOK m.wholePacket) o := by
  refine sent_exec h fun pre e T p _ hpre id bytes up s _ hsome hr hlen => ?_
  exact lengthOK_replies cfg up id _ (lengthOK_onPayload (readOK_exec hpre) hsome hr hlen)

theorem documented_of_marked {cfg : ServerConfig} {es : List TcpEvent} {S : TcpServer} {o : List TcpObs}
    (h : exec cfg es = some (S, o)) (hmark : Marked cfg es) : AllSent (fun m => Documented m.wholePacket) o := by
  refine sent_exec h fun pre e T p hes hpre id bytes up s he hsome hr hlen => ?_
  have hl := lengthOK_onPayload (readOK_exec hpre) hsome hr hlen
  refine (documented_replies cfg up _ id _ hl).mpr fun hm hto => ?_
  exact hmark pre e T p hes hpre _ ⟨id, bytes, up, s, he, hsome, hr, rfl, hm, hto⟩

theorem marked_of_documented {cfg : ServerConfig} {es : List TcpEvent} {S : TcpServer} {o : List TcpObs}
    (h : exec cfg es = some (S, o))
    (hdoc : ∀ s r m, TcpObs.delivered s r m ∈ o → Documented m.wholePacket) : Marked cfg es := by
  rintro pre e T p ⟨post, rfl⟩ hpre
  obtain ⟨S₁, o₁, o₂, h₁, -, rfl⟩ := (Lts.exec_append_iff (step cfg)).mp h
  obtain ⟨T', p', o', hpre', hstep, rfl⟩ := (Lts.exec_concat (step cfg)).mp h₁
  obtain ⟨rfl, rfl⟩ := Prod.mk.inj (Option.some.inj (hpre.symm.trans hpre'))
  refine marker_of_documented (seats_exec hpre) (readOK_exec hpre) (steps_of_step hstep) fun s r m hd => ?_
  exact hdoc s r m (List.mem_append_left _ (List.mem_append_right _ hd))

/-- **A run of the TCP server.** -/
theorem documented_exec {cfg : ServerConfig} {es : List TcpEvent} {S : TcpServer} {o : List TcpObs}
    (h : exec cfg es = some (S, o)) :
    ((∀ s r m, TcpObs.delivered s r m ∈ o → Documented m.wholePacket) ∧
      ∀ c b, TcpObs.wrote c b ∈ o → Documented b) ↔ Marked cfg es := by
  constructor
  · exact fun hdoc => marked_of_documented h hdoc.1
  · intro hm
    obtain ⟨hdel, hwrote⟩ := documented_of_marked h hm
    refine ⟨hdel, fun c b hb => ?_⟩
    obtain ⟨m, hm, rfl⟩ := hwrote c b hb
    exact hm

end TcpServer

/-! ### Both servers -/

/-- **The marker of what is sent.** Over every run of either server: each packet
it sends is in the documented format exactly when each media packet that had
somebody to go to carried the marker. The length field is right in any case. -/
theorem documented_iff {E : Type*} [DecidableEq E] (cfg : ServerConfig) :
    (∀ rxs : List (Received E),
      ((∀ pre rx, pre ++ [rx] <+: rxs → ∀ s ∈ RawUdpServer.sentAt cfg pre rx, Documented s.2) ↔
        ∀ pre rx, pre ++ [rx] <+: rxs → RawUdpServer.Relays cfg (RawUdpServer.roomAfter cfg pre) rx →
          HasMarker rx.data) ∧
      ∀ pre rx, pre ++ [rx] <+: rxs → ∀ s ∈ RawUdpServer.sentAt cfg pre rx, LengthOK s.2) ∧
    (∀ (es : List TcpEvent) (S : TcpServer) (o : List TcpObs), TcpServer.exec cfg es = some (S, o) →
      (((∀ s r m, TcpObs.delivered s r m ∈ o → Documented m.wholePacket) ∧
        ∀ c b, TcpObs.wrote c b ∈ o → Documented b) ↔ TcpServer.Marked cfg es) ∧
      (∀ s r m, TcpObs.delivered s r m ∈ o → LengthOK m.wholePacket) ∧
      ∀ c b, TcpObs.wrote c b ∈ o → LengthOK b) ∧
    ∀ (v : Version) (now : UInt32) (d : Bytes),
      (∀ p, RawUdpConnection.makePacket v now d = some p → HasMarker p.wholePacket) ↔
        (Framed d → HasMarker d) := by
  refine ⟨fun rxs => ⟨?_, fun pre rx _ => ?_⟩, fun es S o h => ⟨TcpServer.documented_exec h, ?_⟩,
    fun v now d => ?_⟩
  · refine forall_congr' fun pre => forall_congr' fun rx => imp_congr_right fun _ => ?_
    exact RawUdpServer.documented_onReceive cfg (RawUdpServer.distinct_roomAfter cfg pre) rx
  · exact RawUdpServer.lengthOK_onReceive cfg _ rx
  · obtain ⟨hdel, hwrote⟩ := TcpServer.lengthOK_exec h
    refine ⟨hdel, fun c b hb => ?_⟩
    obtain ⟨m, hm, rfl⟩ := hwrote c b hb
    exact hm
  · constructor
    · intro h hf
      have hp := RawUdpConnection.makePacket_of_framed v now hf
      exact (hasMarker_frame d).mp (h _ hp)
    · intro h p hp
      obtain ⟨hf, hb⟩ := (RawUdpConnection.makePacket_some_iff v now d p).mp hp
      rw [hb, hasMarker_frame]
      exact h hf

/-- A marked packet is relayed as it is, by UDP to the endpoint that sent a byte
and by TCP to the other session. -/
theorem documented_iff_call :
    (∀ s ∈ RawUdpServer.sentAt RawUdpSpec.sampleConfig [RawUdpSpec.sampleReceived 2 [0]]
      (RawUdpSpec.sampleReceived 1 (sampleBytes 7)), Documented s.2) ∧
    LengthOK (sampleBytes 7) := by
  have hframed : ∀ pre rx, pre ++ [rx] <+: [RawUdpSpec.sampleReceived 2 [0],
      RawUdpSpec.sampleReceived 1 (sampleBytes 7)] →
      RawUdpServer.Relays RawUdpSpec.sampleConfig (RawUdpServer.roomAfter RawUdpSpec.sampleConfig pre) rx →
        HasMarker rx.data := by
    rintro pre rx hpre ⟨p, hp, -⟩
    rcases pre with _ | ⟨x, _ | ⟨y, t⟩⟩ <;> simp at hpre
    · rw [hpre] at hp
      exact absurd ((RawUdpConnection.makePacket_some_iff _ _ _ _).mp hp).1 (by decide)
    · rw [hpre.2]
      decide
  refine ⟨?_, ?_⟩
  · exact ((documented_iff RawUdpSpec.sampleConfig).1 _).1.mpr hframed [RawUdpSpec.sampleReceived 2 [0]] _
      (by simp)
  · exact ((documented_iff (E := ℕ) RawUdpSpec.sampleConfig).2.1
      (sampleConnects ++ [.readPayload 1 [] 0]) _ _ rfl).2.1 1 2 ⟨sampleBytes 7, by decide⟩ (by decide)

/-- An audio packet whose first byte is not the marker's. -/
def sampleUnmarked : Bytes := 0x78 :: (sampleBytes 7).tail

/-- Both servers relay a packet without the marker. -/
theorem documented_unmarked :
    (¬ ∀ (cfg : ServerConfig) (rxs : List (Received ℕ)) (rx : Received ℕ),
      ∀ s ∈ RawUdpServer.sentAt cfg rxs rx, Documented s.2) ∧
    (¬ ∀ (cfg : ServerConfig) (es : List TcpEvent) (S : TcpServer) (o : List TcpObs) (s r : ℕ) (m : NetPacket),
      TcpServer.exec cfg es = some (S, o) → TcpObs.delivered s r m ∈ o → Documented m.wholePacket) ∧
    (¬ ∀ (v : Version) (now : UInt32) (d : Bytes) (p : NetPacket),
      RawUdpConnection.makePacket v now d = some p → HasMarker p.wholePacket) := by
  refine ⟨fun h => ?_, fun h => ?_, fun h => ?_⟩
  · have h1 := h RawUdpSpec.sampleConfig [RawUdpSpec.sampleReceived 2 (sampleBytes 3)]
      (RawUdpSpec.sampleReceived 1 sampleUnmarked) (2, sampleUnmarked) (by decide)
    exact absurd h1 (by decide)
  · have h1 := h RawUdpSpec.sampleConfig
      [.accept 1 0, .accept 2 0, .readHeader 1 sampleUnmarked, .readPayload 1 [] 0] _ _ 1 2
      ⟨sampleUnmarked, by decide⟩ rfl (by decide)
    exact absurd h1 (by decide)
  · have h1 := h sampleVersion 0 sampleUnmarked _ (RawUdpConnection.makePacket_of_framed _ _ (by decide))
    exact absurd h1 (by decide)

end EasyVoiceCall
