/-
# The two slots of the TCP room

A session takes a slot when it joins and gives it back where a handler calls `leave`:
after a read error, after a write error and on a `LogoutRequest`. It may read and write
on after that, but it is not let in again. So who holds a slot can be told from what was
seen (`Slots.member_iff`), and has a read outstanding.

Key definitions: `HasLeft`, `Slots`.
Key theorems: `Slots.step`, `no_dead_slot`.
-/
import EasyVoiceCall.Discipline

namespace EasyVoiceCall

open Buffer NetPacket

namespace TcpServer

/-- A handler of session `c` called `leave`. -/
def HasLeft (o : List TcpObs) (c : ℕ) : Prop :=
  TcpObs.left c ∈ o ∨ ∃ p, TcpObs.received c p ∈ o ∧ p.payloadType = .LogoutRequest

theorem not_hasLeft_nil (c : ℕ) : ¬ HasLeft [] c := by
  simp [HasLeft]

theorem hasLeft_append {o o' : List TcpObs} {c : ℕ} : HasLeft (o ++ o') c ↔ HasLeft o c ∨ HasLeft o' c := by
  simp only [HasLeft, List.mem_append, or_and_right, exists_or]
  exact or_or_or_comm

theorem hasLeft_left (id c : ℕ) : HasLeft [.left id] c ↔ c = id := by
  simp [HasLeft]

theorem not_hasLeft_wrote (id : ℕ) (bs : List Bytes) (c : ℕ) : ¬ HasLeft (bs.map (.wrote id)) c := by
  simp [HasLeft]

/-- Of what a packet leads to, only the packet makes anybody leave. -/
theorem hasLeft_received (id : ℕ) (msg : NetPacket) (S : TcpServer) (ds : List (ℕ × NetPacket)) (c : ℕ) :
    HasLeft (.received id msg :: (deliverAll id S ds).2) c ↔ c = id ∧ msg.payloadType = .LogoutRequest := by
  have hquiet := (quiet_deliverAll id ds S c).2
  have hleft : TcpObs.left c ∉ (deliverAll id S ds).2 := by
    intro hm
    rcases mem_deliverAll id ds S _ hm with ⟨d, -, hd⟩ | ⟨c', b, hd⟩ <;> cases hd
  constructor
  · rintro (hm | ⟨p, hm, hp⟩)
    · exact absurd ((List.mem_cons.mp hm).resolve_left (by simp)) hleft
    · rcases List.mem_cons.mp hm with heq | hm
      · cases heq
        exact ⟨rfl, hp⟩
      · exact absurd hm (hquiet p)
  · rintro ⟨rfl, hp⟩
    exact Or.inr ⟨msg, List.mem_cons_self, hp⟩

/-- A read of session `c` is outstanding. -/
def Reads (S : TcpServer) (c : ℕ) : Prop := ∃ s, S.sessions c = some s ∧ s.reading ≠ .nothing

/-- Who holds a slot. -/
structure Slots (S : TcpServer) (o : List TcpObs) : Prop where
  member_iff : ∀ c, c ∈ S.room ↔ TcpObs.joined c ∈ o ∧ ¬ HasLeft o c
  reads : ∀ c ∈ S.room, Reads S c
  two : S.room.toList.length ≤ 2
  unknown : ∀ c, S.sessions c = none → TcpObs.joined c ∉ o ∧ ¬ HasLeft o c

namespace Slots

variable {S S' : TcpServer} {o o' : List TcpObs}

theorem start : Slots start [] where
  member_iff c := iff_of_false (PtrSet.not_mem_empty c) fun h => absurd h.1 List.not_mem_nil
  reads c hc := absurd hc (PtrSet.not_mem_empty c)
  two := Nat.zero_le 2
  unknown c _ := ⟨List.not_mem_nil, not_hasLeft_nil c⟩

/-- A step that lets nobody in: those who leave, and no others, lose their slot, and the
others go on reading. -/
theorem keep (h : Slots S o) (hroom : ∀ c, c ∈ S'.room ↔ c ∈ S.room ∧ ¬ HasLeft o' c)
    (hlen : S'.room.toList.length ≤ S.room.toList.length) (hjoin : ∀ c, TcpObs.joined c ∉ o')
    (hleft : ∀ c, HasLeft o' c → S.sessions c ≠ none) (hreads : ∀ c ∈ S'.room, Reads S c → Reads S' c)
    (hnone : ∀ c, S'.sessions c = none → S.sessions c = none) : Slots S' (o ++ o') where
  member_iff c := by
    have hjoined : TcpObs.joined c ∈ o ++ o' ↔ TcpObs.joined c ∈ o := by
      rw [List.mem_append]
      exact or_iff_left (hjoin c)
    rw [hroom, h.member_iff, hasLeft_append, hjoined, not_or, and_assoc]
  reads c hc := hreads c hc (h.reads c ((hroom c).mp hc).1)
  two := hlen.trans h.two
  unknown c hc := by
    have hc' := hnone c hc
    obtain ⟨hj, hl⟩ := h.unknown c hc'
    refine ⟨fun hm => ?_, fun hm => ?_⟩
    · exact (List.mem_append.mp hm).elim hj (hjoin c)
    · exact (hasLeft_append.mp hm).elim hl fun hl' => hleft c hl' hc'

/-- The others read on where session `id` changes. -/
theorem reads_set {id c : ℕ} {t : TcpSession} (h : Reads S c) (ht : c = id → t.reading ≠ .nothing) :
    Reads (S.set id t) c := by
  by_cases hc : c = id
  · exact ⟨t, by rw [sessions_set, if_pos hc], ht hc⟩
  · obtain ⟨s, hs, hr⟩ := h
    exact ⟨s, by rw [sessions_set, if_neg hc, hs], hr⟩

theorem length_leave (room : Room) (id : ℕ) : (room.leave id).toList.length ≤ room.toList.length :=
  List.length_filter_le _ _

theorem mem_leave {room : Room} {id c : ℕ} : c ∈ room.leave id ↔ c ∈ room ∧ c ≠ id := PtrSet.mem_erase

/-- A session that gives up. -/
theorem left (h : Slots S o) {id : ℕ} {s : TcpSession} (hsome : S.sessions id = some s) (t : TcpSession) :
    Slots { S.set id t with room := S.room.leave id } (o ++ [.left id]) := by
  refine h.keep (fun c => ?_) (length_leave _ _) (by simp) (fun c hc => ?_) (fun c hc hreads => ?_)
    fun c hc => (none_of_set (S := S) hc).2
  · rw [hasLeft_left]
    exact mem_leave
  · rw [(hasLeft_left id c).mp hc, hsome]
    exact Option.some_ne_none s
  · exact reads_set (S := S) hreads fun he => absurd he (mem_leave.mp hc).2

/-- A session that nobody knew of, and that is let in. -/
theorem joined (h : Slots S o) {id : ℕ} {t : TcpSession} (hn : S.sessions id = none) (ht : t.reading ≠ .nothing)
    (hfree : S.room.toList.length < 2) :
    Slots { S.set id t with room := PtrSet.insert id S.room } (o ++ [.joined id]) := by
  obtain ⟨hj, hl⟩ := h.unknown id hn
  have hfresh : id ∉ PtrSet.keys S.room := by
    rw [PtrSet.keys, List.map_id]
    exact fun hm => hj ((h.member_iff id).mp hm).1
  have hno : ∀ c, ¬ HasLeft [.joined id] c := fun c => by simp [HasLeft]
  have hleft : ∀ c, HasLeft (o ++ [.joined id]) c ↔ HasLeft o c := fun c => by
    rw [hasLeft_append]
    exact or_iff_left (hno c)
  have hjoined : ∀ c, TcpObs.joined c ∈ o ++ [.joined id] ↔ c = id ∨ TcpObs.joined c ∈ o := fun c => by
    rw [List.mem_append, List.mem_singleton, TcpObs.joined.injEq, or_comm]
  have hmem : ∀ c, c ∈ PtrSet.insert id S.room ↔ c = id ∨ c ∈ S.room := fun c => PtrSet.mem_insert_of_fresh hfresh
  refine ⟨fun c => ?_, fun c hc => ?_, ?_, fun c hc => ?_⟩
  · rw [hjoined, hleft]
    show c ∈ PtrSet.insert id S.room ↔ _
    rw [hmem, h.member_iff]
    by_cases he : c = id
    · subst he
      exact iff_of_true (Or.inl rfl) ⟨Or.inl rfl, hl⟩
    · rw [or_iff_right he, or_iff_right he]
  · rcases (hmem c).mp hc with rfl | hc'
    · exact ⟨t, (sessions_set S c t c).trans (if_pos rfl), ht⟩
    · exact reads_set (S := S) (h.reads c hc') fun _ => ht
  · show (PtrSet.insert id S.room).toList.length ≤ 2
    rw [(PtrSet.perm_insert_of_fresh hfresh).length_eq]
    exact hfree
  · obtain ⟨hne, hc'⟩ := none_of_set (S := S) hc
    obtain ⟨hj', hl'⟩ := h.unknown c hc'
    exact ⟨fun hm => ((hjoined c).mp hm).elim hne hj', fun hm => hl' ((hleft c).mp hm)⟩

/-- A packet received: a `LogoutRequest` makes its sender leave. -/
theorem payload (h : Slots S o) (cfg : ServerConfig) {id : ℕ} {s : TcpSession} (hsome : S.sessions id = some s)
    (bytes : Bytes) (up : UInt32) (ds : List (ℕ × NetPacket)) :
    Slots (deliverAll id (afterPayload cfg S id s bytes up) ds).1
      (o ++ .received id (s.onPayload bytes).read_msg :: (deliverAll id (afterPayload cfg S id s bytes up) ds).2) := by
  set S₁ := afterPayload cfg S id s bytes up with hS₁
  have hsame : SameReads S₁ (deliverAll id S₁ ds).1 := sameReads_deliverAll id ds S₁
  have hroom : ∀ c, c ∈ (deliverAll id S₁ ds).1.room ↔
      c ∈ S.room ∧ ((s.onPayload bytes).read_msg.payloadType = .LogoutRequest → c ≠ id) := fun c => by
    rw [hsame.1]
    exact mem_processClientMessagePayload cfg up _ id c S.room
  refine h.keep (fun c => ?_) ?_ (fun c hm => ?_) (fun c hc => ?_) (fun c hc hreads => ?_) fun c hc => ?_
  · rw [hroom, hasLeft_received, not_and', imp_not_comm]
  · rw [hsame.1]
    show (if (s.onPayload bytes).read_msg.request = .logout then S.room.leave id else S.room).toList.length ≤ _
    split
    · exact length_leave _ _
    · exact le_rfl
  · exact (quiet_deliverAll id ds S₁ c).1 ((List.mem_cons.mp hm).resolve_left (by simp))
  · rw [((hasLeft_received id _ S₁ ds c).mp hc).1, hsome]
    exact Option.some_ne_none s
  · obtain ⟨t, ht, hr⟩ : Reads S₁ c := reads_set (S := S) hreads fun _ => by simp [TcpSession.onPayload]
    have hc := hsame.2 c
    rw [ht, Option.map_some] at hc
    obtain ⟨u, hu, heq⟩ := Option.map_eq_some_iff.mp hc
    exact ⟨u, hu, by rwa [(Prod.mk.inj heq).2]⟩
  · exact (none_of_set (S := S) ((hsame.none_iff c).mp hc)).2

/-- **One completion.** -/
theorem step {cfg : ServerConfig} {e : TcpEvent} (h : Slots S o) (hs : Steps cfg S e S' o') : Slots S' (o ++ o') := by
  cases hs with
  | @refuse id up hn hr =>
    have hno : ∀ c, ¬ HasLeft [.refused id] c := fun c => by simp [HasLeft]
    refine h.keep (fun c => (and_iff_left (hno c)).symm) le_rfl (by simp) (fun c hc => absurd hc (hno c))
      (fun c hc hreads => reads_set hreads fun he => ?_) fun c hc => (none_of_set hc).2
    obtain ⟨s, hs, -⟩ := hreads
    rw [he, hn] at hs
    cases hs
  | join hn hr => exact h.joined hn (by simp) hr
  | @header id bytes s hsome hread hlen =>
    exact h.keep (fun c => (and_iff_left (not_hasLeft_nil c)).symm) le_rfl (by simp)
      (fun c hc => absurd hc (not_hasLeft_nil c))
      (fun c hc hreads => reads_set hreads fun _ => by simp [TcpSession.onHeader])
      fun c hc => (none_of_set hc).2
  | payload hsome hread hlen => exact h.payload cfg hsome _ _ _
  | readError hsome hread => exact h.left hsome _
  | @written id s hsome hw =>
    have hno := not_hasLeft_wrote id s.onWritten.2
    refine h.keep (fun c => (and_iff_left (hno c)).symm) le_rfl (by simp) (fun c hc => absurd hc (hno c))
      (fun c hc hreads => reads_set hreads fun he => ?_) fun c hc => (none_of_set hc).2
    obtain ⟨t, ht, hr⟩ := hreads
    rw [he, hsome] at ht
    cases ht
    rwa [(session_onWritten_reads s).2]
  | writeError hsome hw => exact h.left hsome _

/-- **Slots over runs.** -/
theorem exec {cfg : ServerConfig} {es : List TcpEvent} (h : TcpServer.exec cfg es = some (S, o)) : Slots S o :=
  Lts.history_rule (TcpServer.step cfg) (fun _ S o => Slots S o) start
    (fun _ _ _ _ _ _ hS hs => hS.step (steps_of_step hs)) h

end Slots

/-! ### A session is let in once -/

/-- A session that is known stays known, and is not let in. -/
theorem known_step {cfg : ServerConfig} {S S' : TcpServer} {e : TcpEvent} {o : List TcpObs} {c : ℕ}
    (hs : Steps cfg S e S' o) (hc : S.sessions c ≠ none) : S'.sessions c ≠ none ∧ TcpObs.joined c ∉ o := by
  cases hs with
  | refuse hn hr => exact ⟨fun h => hc (none_of_set h).2, by simp⟩
  | @join id up hn hr =>
    refine ⟨fun h => hc (none_of_set (S := S) h).2, fun hm => ?_⟩
    cases List.mem_singleton.mp hm
    exact hc hn
  | header hsome hread hlen => exact ⟨fun h => hc (none_of_set h).2, by simp⟩
  | @payload id bytes up s hsome hread hlen =>
    have hsame := sameReads_deliverAll id (replies cfg up (s.onPayload bytes).read_msg id S.room.toList)
      (afterPayload cfg S id s bytes up)
    refine ⟨fun h => hc (none_of_set (S := S) ((hsame.none_iff c).mp h)).2, fun hm => ?_⟩
    exact (quiet_deliverAll id _ _ c).1 ((List.mem_cons.mp hm).resolve_left (by simp))
  | readError hsome hread => exact ⟨fun h => hc (none_of_set (S := S) h).2, by simp⟩
  | written hsome hw => exact ⟨fun h => hc (none_of_set h).2, by simp⟩
  | writeError hsome hw => exact ⟨fun h => hc (none_of_set (S := S) h).2, by simp⟩

theorem known_exec {cfg : ServerConfig} {S S' : TcpServer} {es : List TcpEvent} {o : List TcpObs} {c : ℕ}
    (hc : S.sessions c ≠ none) (h : Lts.exec (TcpServer.step cfg) S es = some (S', o)) : TcpObs.joined c ∉ o := by
  have hrun := Lts.history_rule (TcpServer.step cfg) (fun _ S o => S.sessions c ≠ none ∧ TcpObs.joined c ∉ o)
    ⟨hc, List.not_mem_nil⟩ ?_ h
  · exact hrun.2
  · rintro _ S o e S' o' ⟨hknown, hno⟩ hstep
    obtain ⟨hknown', hno'⟩ := known_step (steps_of_step hstep) hknown
    exact ⟨hknown', fun hm => (List.mem_append.mp hm).elim hno hno'⟩

/-- Who is refused came while two were in the room. -/
theorem refused_step {cfg : ServerConfig} {S S' : TcpServer} {e : TcpEvent} {o : List TcpObs} {c : ℕ}
    (hs : Steps cfg S e S' o) (hm : TcpObs.refused c ∈ o) : 2 ≤ S.room.toList.length := by
  cases hs with
  | refuse hn hr => exact hr
  | @payload id bytes up s hsome hread hlen =>
    have hm' := (List.mem_cons.mp hm).resolve_left (by simp)
    rcases mem_deliverAll id _ _ _ hm' with ⟨d, -, hd⟩ | ⟨c', b, hd⟩ <;> cases hd
  | _ => simp at hm

end TcpServer

open TcpServer

/-- **No dead session keeps a slot.** After any run: the room has two members at most, and
they are the sessions that joined and have not left, each with a read outstanding. Whatever
comes after, a session that left is neither let in nor a member. And where a connection is
refused next, two such sessions are in the room. -/
theorem no_dead_slot (cfg : ServerConfig) (es : List TcpEvent) (S : TcpServer) (o : List TcpObs)
    (h : TcpServer.exec cfg es = some (S, o)) :
    S.room.toList.length ≤ 2 ∧
    (∀ c, c ∈ S.room ↔ TcpObs.joined c ∈ o ∧ ¬ HasLeft o c) ∧ (∀ c ∈ S.room, Reads S c) ∧
    (∀ es' S' o', Lts.exec (TcpServer.step cfg) S es' = some (S', o') →
      ∀ c, HasLeft o c → TcpObs.joined c ∉ o' ∧ c ∉ S'.room) ∧
    ∀ e S' o' c, TcpServer.step cfg S e = some (S', o') → TcpObs.refused c ∈ o' →
      ∃ a b, a ≠ b ∧ ∀ x, x ∈ S.room ↔ x = a ∨ x = b := by
  have hS := Slots.exec h
  refine ⟨hS.two, hS.member_iff, hS.reads, fun es' S' o' h' c hc => ?_, fun e S' o' c hstep hm => ?_⟩
  · have hknown : S.sessions c ≠ none := fun hn => (hS.unknown c hn).2 hc
    have hboth := Slots.exec (Lts.exec_append_iff _ |>.mpr ⟨S, o, o', h, h', rfl⟩)
    refine ⟨known_exec hknown h', fun hm => ?_⟩
    exact ((hboth.member_iff c).mp hm).2 (hasLeft_append.mpr (Or.inl hc))
  · have htwo : S.room.toList.length = 2 := le_antisymm hS.two (refused_step (steps_of_step hstep) hm)
    obtain ⟨a, b, hab⟩ := List.length_eq_two.mp htwo
    have hnodup := PtrSet.nodup S.room
    rw [hab] at hnodup
    refine ⟨a, b, ?_, fun x => ?_⟩
    · simpa using hnodup
    · rw [← PtrSet.mem_toList, hab]
      simp

/-- Two connect, and the connection of the first breaks. -/
theorem no_dead_slot_error : ∃ S o,
    TcpServer.exec RawUdpSpec.sampleConfig [.accept 1 0, .accept 2 0, .readError 1] = some (S, o) ∧
      S.room.toList = [2] ∧ HasLeft o 1 ∧ Reads S 2 := by
  have hrun : ∃ S o, TcpServer.exec RawUdpSpec.sampleConfig [.accept 1 0, .accept 2 0, .readError 1] = some (S, o) ∧
      S.room.toList = [2] ∧ TcpObs.left 1 ∈ o := ⟨_, _, rfl, rfl, by decide⟩
  obtain ⟨S, o, h, hroom, hleft⟩ := hrun
  have hmem : 2 ∈ S.room.toList := by
    rw [hroom]
    exact List.mem_singleton_self 2
  exact ⟨S, o, h, hroom, Or.inl hleft, (no_dead_slot _ _ S o h).2.2.1 2 hmem⟩

end EasyVoiceCall
