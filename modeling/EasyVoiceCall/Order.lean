/-
# The order in which packets are played

The test plan wants disordered packets not to be tolerated. `append` looks at
timestamps and serial numbers and writes to the log, nothing else: the jitter
buffer is filled in the order of arrival, so that is the order of playing. The
serial numbers played are strictly increasing, however many fetches follow,
exactly when those of the packets that found room in the buffer arrived so
(`disordered_iff`).

Key theorems: `disordered_iff`, `Playout.Inv.playedPackets_eq`, `Playout.Inv.playedItems_all`,
`Playout.admitted_eq`.
-/
import EasyVoiceCall.Playout
import EasyVoiceCall.Uplink

namespace EasyVoiceCall

namespace Playout

/-- The packets that arrive while fewer than 100 segments wait, where `q` wait at
first. -/
def admitted : ℕ → List DownOp → List NetPacket
  | _, [] => []
  | q, .append p _ :: ops => if q < 100 then p :: admitted (q + 1) ops else admitted q ops
  | q, .fetch :: ops => admitted (q - 1) ops

theorem mem_admitted {p : NetPacket} : ∀ {q : ℕ} {ops : List DownOp}, p ∈ admitted q ops →
    ∃ beyond, DownOp.append p beyond ∈ ops
  | q, .append p' beyond :: ops, h => by
    rw [admitted] at h
    split at h
    · rcases List.mem_cons.mp h with rfl | h
      · exact ⟨beyond, List.mem_cons_self⟩
      · obtain ⟨b, hb⟩ := mem_admitted h
        exact ⟨b, List.mem_cons_of_mem _ hb⟩
    · obtain ⟨b, hb⟩ := mem_admitted h
      exact ⟨b, List.mem_cons_of_mem _ hb⟩
  | q, .fetch :: ops, h => by
    obtain ⟨b, hb⟩ := mem_admitted (q := q - 1) h
    exact ⟨b, List.mem_cons_of_mem _ hb⟩

/-- The serial number of a received item. -/
def serialOf (outs : List DownObs) (it : Item) : Option UInt32 :=
  ((keptOf outs).find? fun a => a.item = it).map (·.packet.serialNumber)

/-- The serial numbers of the received segments, in the order they are played. -/
def playedSerials (outs : List DownObs) : List UInt32 :=
  ((fetches outs).filterMap (·.played)).filterMap (serialOf outs)

/-- The packet of a received item. -/
def packetOf (outs : List DownObs) (it : Item) : Option NetPacket :=
  ((keptOf outs).find? fun a => a.item = it).map (·.packet)

/-- The packets of the received segments, in the order they are played. -/
def playedPackets (outs : List DownObs) : List NetPacket :=
  ((fetches outs).filterMap (·.played)).filterMap (packetOf outs)

section

variable {D N K : Type} [Field K] [LinearOrder K] [FloorRing K]
variable {c : FadeCurve K} {outs : List DownObs} {s : DownstreamProcessor D N}

theorem keptOf_append (a b : List DownObs) : keptOf (a ++ b) = keptOf a ++ keptOf b := by
  rw [keptOf, appends_append, List.filter_append]
  rfl

theorem playedSerials_eq_map (outs : List DownObs) :
    playedSerials outs = (playedPackets outs).map (·.serialNumber) := by
  rw [playedSerials, playedPackets, List.map_filterMap]
  refine List.filterMap_congr fun it _ => ?_
  rw [serialOf, packetOf, Option.map_map]
  rfl

theorem Inv.packetOf_kept (h : Inv c outs s) {a : Appended} (ha : a ∈ keptOf outs) :
    packetOf outs a.item = some a.packet := by
  rcases hf : (keptOf outs).find? fun b => b.item = a.item with _ | b
  · exact absurd (decide_eq_true rfl) (List.find?_eq_none.mp hf a ha)
  · have hb : b.item = a.item := by simpa using List.find?_some hf
    have hba : b = a :=
      List.inj_on_of_nodup_map h.keptNodup (List.mem_of_find?_eq_some hf) ha (congrArg Item.segment hb)
    rw [packetOf, hf, hba]
    rfl

theorem packetOf_eq_none {it : Item} (hit : it ∉ (keptOf outs).map (·.item)) : packetOf outs it = none := by
  rw [packetOf, Option.map_eq_none_iff, List.find?_eq_none]
  intro a ha he
  exact hit (List.mem_map.mpr ⟨a, ha, by simpa using he⟩)

/-- The packets whose segments are played are the first ones kept. -/
theorem Inv.playedPackets_eq (h : Inv c outs s) : playedPackets outs =
    ((keptOf outs).take (playedItems outs).length).map (·.packet) := by
  have hskip : ∀ l : List Item, l.filterMap (packetOf outs) =
      (l.filter fun it => it ∈ (keptOf outs).map (·.item)).filterMap (packetOf outs) := by
    intro l
    induction l with
    | nil => rfl
    | cons it l ih =>
      by_cases hit : it ∈ (keptOf outs).map (·.item)
      · rw [List.filter_cons_of_pos (by simpa using hit), List.filterMap_cons, List.filterMap_cons, ih]
      · rw [List.filter_cons_of_neg (by simpa using hit), List.filterMap_cons, packetOf_eq_none hit, ih]
  have htake : playedItems outs = ((keptOf outs).take (playedItems outs).length).map (·.item) := by
    rw [List.map_take]
    exact List.prefix_iff_eq_take.mp h.order
  have hpackets : ∀ l : List Appended, (∀ a ∈ l, a ∈ keptOf outs) →
      (l.map (·.item)).filterMap (packetOf outs) = l.map (·.packet) := by
    intro l hl
    induction l with
    | nil => rfl
    | cons a l ih =>
      rw [List.map_cons, List.filterMap_cons, h.packetOf_kept (hl a List.mem_cons_self),
        ih fun b hb => hl b (List.mem_cons_of_mem _ hb)]
      rfl
  calc playedPackets outs = (playedItems outs).filterMap (packetOf outs) := hskip _
    _ = (((keptOf outs).take (playedItems outs).length).map (·.item)).filterMap (packetOf outs) := by
        rw [← htake]
    _ = ((keptOf outs).take (playedItems outs).length).map (·.packet) :=
        hpackets _ fun a ha => List.mem_of_mem_take ha

theorem Inv.playedSerials_eq (h : Inv c outs s) : playedSerials outs =
    ((keptOf outs).take (playedItems outs).length).map (·.packet.serialNumber) := by
  rw [playedSerials_eq_map, h.playedPackets_eq, List.map_map]
  rfl

/-- 101 fetches with nothing kept among them: everything kept has been played. -/
theorem Inv.playedItems_all (h : Inv c outs s) {o₁ o₂ : List DownObs} (hsplit : outs = o₁ ++ o₂)
    (hnone : keptOf o₂ = []) (hmany : 101 ≤ (fetches o₂).length) : playedItems outs = (keptOf outs).map (·.item) := by
  have hkept : keptOf outs = keptOf o₁ := by rw [hsplit, keptOf_append, hnone, List.append_nil]
  have hall : ∀ a ∈ keptOf outs, a.item ∈ playedItems outs := by
    intro a ha
    have hmem := (mem_keptOf.mp (hkept ▸ ha)).1
    obtain ⟨x, hx, hxa⟩ := List.mem_filterMap.mp hmem
    obtain ⟨pre, post, hpost⟩ := List.append_of_mem hx
    have hxa' : x = .appended a := by
      cases x with
      | appended b => exact congrArg DownObs.appended (Option.some.inj hxa)
      | fetched f => cases hxa
    have hlong : 101 ≤ (fetches (post ++ o₂)).length := by
      rw [fetches_append, List.length_append]
      omega
    have hat : outs = pre ++ .appended a :: (post ++ o₂) := by
      rw [hsplit, hpost, hxa']
      simp
    obtain ⟨k, -, f, hf, hplayed⟩ := h.delay hat (mem_keptOf.mp ha).2 hlong
    have hfo : f ∈ fetches outs := by
      rw [hsplit, hpost, List.append_assoc, fetches_append]
      refine List.mem_append_right _ ?_
      rw [hxa']
      exact List.mem_of_getElem? hf
    exact List.mem_filter.mpr ⟨List.mem_filterMap.mpr ⟨f, hfo, hplayed⟩,
      decide_eq_true (List.mem_map_of_mem ha)⟩
  -- a prefix of a list without repetitions that has all its elements is the list
  obtain ⟨rest, hrest⟩ := h.order
  have hnd : ((keptOf outs).map (·.item)).Nodup := by
    have hmap : (keptOf outs).map (·.item.segment) = ((keptOf outs).map (·.item)).map (·.segment) :=
      List.map_map.symm
    exact List.Nodup.of_map _ (hmap ▸ h.keptNodup)
  rcases rest with _ | ⟨it, rest⟩
  · rw [← hrest, List.append_nil]
  · rw [← hrest, List.nodup_append] at hnd
    have hit : it ∈ (keptOf outs).map (·.item) := by rw [← hrest]; simp
    obtain ⟨a, ha, hait⟩ := List.mem_map.mp hit
    exact absurd rfl (hnd.2.2 it (hait ▸ hall a ha) it List.mem_cons_self)

/-- Fetches alone: each is one, and none keeps a packet. -/
theorem exec_fetches {dec : Decoders D N} : ∀ (k : ℕ) {outs : List DownObs} {s s' : DownstreamProcessor D N},
    Lts.exec (DownstreamProcessor.step dec c) s (List.replicate k .fetch) = some (s', outs) →
    (fetches outs).length = k ∧ keptOf outs = []
  | 0, _, _, _, hexec => by
    cases hexec
    exact ⟨rfl, rfl⟩
  | k + 1, outs, s, s', hexec => by
    rw [List.replicate_succ] at hexec
    obtain ⟨s₁, o₁, o₂, hstep, hrest, rfl⟩ := (Lts.exec_cons_iff _).mp hexec
    obtain ⟨hk, hkept⟩ := exec_fetches k hrest
    rw [DownstreamProcessor.step] at hstep
    split at hstep
    · cases hstep
      exact ⟨congrArg (· + 1) hk, by rw [keptOf_append, hkept]; rfl⟩
    · cases hstep

end

section

variable {D N K : Type} [Field K] [LinearOrder K] [IsStrictOrderedRing K] [FloorRing K]
variable {c : FadeCurve K} {dec : Decoders D N}

/-- The packets that found room are those the count says. -/
theorem admitted_eq : ∀ (ops : List DownOp) {pre outs : List DownObs} {s s' : DownstreamProcessor D N},
    Inv c pre s → Lts.exec (DownstreamProcessor.step dec c) s ops = some (s', outs) →
    (keptOf outs).map (·.packet) = admitted s.jitterBuffer_.length ops
  | [], _, _, _, _, _, hexec => by
    cases hexec
    rfl
  | .append p beyond :: ops, pre, outs, s, s', h, hexec => by
    obtain ⟨s₁, o₁, o₂, hstep, hrest, rfl⟩ := (Lts.exec_cons_iff _).mp hexec
    cases hstep
    have ih := admitted_eq ops (h.appended dec p beyond) hrest
    obtain ⟨-, -, -, hbuf, hkept, -, hp⟩ := s.append_spec dec p beyond
    have hk : (s.append dec p beyond).2.kept = true ↔ s.jitterBuffer_.length < 100 := by
      rw [hkept]
      exact Fifo.push_snd
    have hlen : (s.append dec p beyond).1.jitterBuffer_.length =
        if s.jitterBuffer_.length < 100 then s.jitterBuffer_.length + 1 else s.jitterBuffer_.length := by
      rw [hbuf]
      exact Fifo.length_push
    rw [keptOf_append, List.map_append, ih, hlen, admitted]
    by_cases hroom : s.jitterBuffer_.length < 100
    · have hone : keptOf [DownObs.appended (s.append dec p beyond).2] = [(s.append dec p beyond).2] :=
        List.filter_cons_of_pos (hk.mpr hroom)
      rw [if_pos hroom, if_pos hroom, hone, List.map_cons, hp]
      rfl
    · have hnone : keptOf [DownObs.appended (s.append dec p beyond).2] = [] :=
        List.filter_cons_of_neg (mt hk.mp hroom)
      rw [if_neg hroom, if_neg hroom, hnone]
      rfl
  | .fetch :: ops, pre, outs, s, s', h, hexec => by
    obtain ⟨s₁, o₁, o₂, hstep, hrest, rfl⟩ := (Lts.exec_cons_iff _).mp hexec
    obtain ⟨r, hr, hinv⟩ := h.fetched dec
    rw [DownstreamProcessor.step, hr] at hstep
    cases hstep
    have ih := admitted_eq ops hinv hrest
    have hlen : r.1.jitterBuffer_.length = s.jitterBuffer_.length - 1 := by
      rw [(pop_of_fetch (DownstreamProcessor.spec_of_fetch h.valid hr)).1]
      exact Fifo.length_pop _
    rw [keptOf_append, List.map_append, ih, hlen, admitted]
    rfl

end

/-- Of two packets a worker sent, the first was sent before the second. -/
def SentBefore (sent : List NetPacket) (p q : NetPacket) : Prop :=
  ∃ i j : ℕ, i < j ∧ sent[i]? = some p ∧ sent[j]? = some q

/-- For a worker's packets, the order of the serial numbers is that of sending. -/
theorem pairwise_serial_iff {v : Version} {needAec : Bool} {us : List UplinkOp} {w : Uplink}
    {sent : List NetPacket} (h : Uplink.exec v needAec us = some (w, sent)) (hlt : sent.length < 2 ^ 32)
    {l : List NetPacket} (hl : ∀ p ∈ l, p ∈ sent) :
    (l.map (·.serialNumber)).Pairwise (· < ·) ↔ l.Pairwise (SentBefore sent) := by
  rw [List.pairwise_map]
  constructor
  · refine fun hp => hp.imp_of_mem fun {p q} hpl hql hpq => ?_
    obtain ⟨i, hi⟩ := List.mem_iff_getElem?.mp (hl p hpl)
    obtain ⟨j, hj⟩ := List.mem_iff_getElem?.mp (hl q hql)
    exact ⟨i, j, (Uplink.serial_lt_iff h hlt hi hj).mp hpq, hi, hj⟩
  · refine fun hp => hp.imp fun {p q} hpq => ?_
    obtain ⟨i, j, hij, hi, hj⟩ := hpq
    exact (Uplink.serial_lt_iff h hlt hi hj).mpr hij

section

variable {D N K : Type} [Field K] [LinearOrder K] [IsStrictOrderedRing K] [FloorRing K]
variable {c : FadeCurve K} {dec : Decoders D N} {d : D} {n : N}

/-- The packets kept in a run with fetches after it are those kept in the run. -/
theorem kept_of_exec {ops : List DownOp} {k : ℕ} {s : DownstreamProcessor D N} {outs : List DownObs}
    (hexec : DownstreamProcessor.exec dec c d n (ops ++ List.replicate k .fetch) = some (s, outs)) :
    Inv c outs s ∧ (keptOf outs).map (·.packet) = admitted 0 ops ∧
      ∃ o₁ o₂, outs = o₁ ++ o₂ ∧ keptOf o₂ = [] ∧ (fetches o₂).length = k := by
  obtain ⟨s', outs', hexec', hinv⟩ := inv_exec dec c d n (ops ++ List.replicate k .fetch)
  cases hexec.symm.trans hexec'
  obtain ⟨s₁, o₁, o₂, h₁, h₂, rfl⟩ := (Lts.exec_append_iff _).mp hexec
  obtain ⟨hk, hnil⟩ := exec_fetches k h₂
  refine ⟨hinv, ?_, o₁, o₂, rfl, hnil, hk⟩
  rw [keptOf_append, hnil, List.append_nil]
  exact admitted_eq ops (inv_create c d n) h₁

end

end Playout

open Playout

/-- **When disordered packets are not played.** A worker sent fewer than 2³² audio
packets, and some of them arrive in whatever order and number, between fetches.
Their serial numbers are played in strictly increasing order, whenever the
playing goes on, exactly when the packets that arrive while fewer than 100
segments wait arrive in the order they were sent, none twice. -/
theorem disordered_iff {D N K : Type} [Field K] [LinearOrder K] [IsStrictOrderedRing K] [FloorRing K]
    {v : Version} {needAec : Bool} {us : List UplinkOp} {w : Uplink} {sent : List NetPacket}
    (hsent : Uplink.exec v needAec us = some (w, sent)) (hlt : sent.length < 2 ^ 32)
    (dec : Decoders D N) (c : FadeCurve K) (d : D) (n : N) (ops : List DownOp)
    (hops : ∀ p beyond, DownOp.append p beyond ∈ ops → p ∈ sent) :
    (∀ k s outs, DownstreamProcessor.exec dec c d n (ops ++ List.replicate k .fetch) = some (s, outs) →
      (playedSerials outs).Pairwise (· < ·)) ↔ (admitted 0 ops).Pairwise (SentBefore sent) := by
  have hmem : ∀ p ∈ admitted 0 ops, p ∈ sent := by
    intro p hp
    obtain ⟨beyond, hb⟩ := mem_admitted hp
    exact hops p beyond hb
  rw [← pairwise_serial_iff hsent hlt hmem]
  have hserials : ∀ outs : List DownObs, (keptOf outs).map (·.packet) = admitted 0 ops →
      (keptOf outs).map (·.packet.serialNumber) = (admitted 0 ops).map (·.serialNumber) := by
    intro outs hkept
    rw [← hkept, List.map_map]
    rfl
  constructor
  · intro h
    obtain ⟨s, outs, hexec, -⟩ := inv_exec dec c d n (ops ++ List.replicate 101 .fetch)
    obtain ⟨hinv, hkept, o₁, o₂, hsplit, hnone, hmany⟩ := kept_of_exec hexec
    have hp := h 101 s outs hexec
    rw [hinv.playedSerials_eq, hinv.playedItems_all hsplit hnone hmany.ge, List.length_map, List.take_length,
      hserials outs hkept] at hp
    exact hp
  · intro h k s outs hexec
    obtain ⟨hinv, hkept, -⟩ := kept_of_exec hexec
    rw [hinv.playedSerials_eq, List.map_take, hserials outs hkept]
    exact h.sublist (List.take_sublist _ _)

/-- A worker that spoke in three blocks. -/
def sampleSpeech : List UplinkOp :=
  List.replicate 3 (.frame ⟨false, true, 0, 0, 0, some [0x78], [], 0⟩)

/-- Its packets. -/
def sampleSent : List NetPacket := ((Uplink.exec sampleVersion false sampleSpeech).map Prod.snd).getD []

theorem sampleSent_exec : Uplink.exec sampleVersion false sampleSpeech =
    some (⟨false, false, 3, true, some 0, 3⟩, sampleSent) := by
  rfl

/-- The three arrive in order. -/
theorem disordered_iff_speech : sampleSent.length = 3 ∧ ∀ k s outs,
    DownstreamProcessor.exec sampleDecoders sampleCurve () ()
      (sampleSent.map (fun p => DownOp.append p PcmSegment.silence) ++ List.replicate k .fetch) =
        some (s, outs) → (playedSerials outs).Pairwise (· < ·) := by
  refine ⟨rfl, (disordered_iff sampleSent_exec (by decide) sampleDecoders sampleCurve () ()
    (sampleSent.map fun p => DownOp.append p PcmSegment.silence) ?_).mpr ?_⟩
  · intro p beyond hp
    obtain ⟨q, hq, he⟩ := List.mem_map.mp hp
    cases he
    exact hq
  · have hmem : ∀ p ∈ admitted 0 (sampleSent.map fun p => DownOp.append p PcmSegment.silence),
        p ∈ sampleSent := by decide
    exact (pairwise_serial_iff sampleSent_exec (by decide) hmem).mp (by decide)

/-- The three arrive in reverse, and are played as they arrived. -/
theorem disordered_played : ¬ ∀ (us : List UplinkOp) (w : Uplink) (sent : List NetPacket) (ops : List DownOp)
    (s : DownstreamProcessor Unit Unit) (outs : List DownObs),
    Uplink.exec sampleVersion false us = some (w, sent) → sent.length < 2 ^ 32 →
    (∀ p beyond, DownOp.append p beyond ∈ ops → p ∈ sent) →
    DownstreamProcessor.exec sampleDecoders sampleCurve () () ops = some (s, outs) →
    (playedSerials outs).Pairwise (· < ·) := by
  intro h
  have h1 := h sampleSpeech _ sampleSent
    (sampleSent.reverse.map (fun p => DownOp.append p PcmSegment.silence) ++ List.replicate 3 .fetch) _ _
    sampleSent_exec (by decide) ?_ rfl
  · exact absurd h1 (by decide)
  · intro p beyond hp
    rcases List.mem_append.mp hp with hp | hp
    · obtain ⟨q, hq, he⟩ := List.mem_map.mp hp
      cases he
      exact List.mem_reverse.mp hq
    · cases List.eq_of_mem_replicate hp

end EasyVoiceCall
