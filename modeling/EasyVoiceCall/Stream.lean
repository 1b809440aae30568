/-
# What the read loops hand on

`readHeader` and `readPayload` of the server's `TcpSession` and of the client's
`BoostAsioTcpClient` read a header into the one buffer they have, make room for what it
announces, read that, hand the buffer on and start again. What they hand on are the
packets of the stream, as `Framing.divide` cuts it: the buffer was a longer packet's
before, or a shorter one's, and the stream may end anywhere.

A step of either program is for one read loop a `ReadStep`; `Handing` is the invariant of
a loop, whatever else goes on around it.

Key definitions: `NetPacket.framing`, `ReadStep`, `Handing`.
Key theorems: `Handing.step`, `Handed.divide`, `frames_handed_on`.
-/
import EasyVoiceCall.Connection
import EasyVoiceCall.Lib.Framing

namespace EasyVoiceCall

open Buffer NetPacket

/-! ### Packets in a stream -/

theorem FixHeaderLength_pos : 0 < FixHeaderLength := by decide

/-- A header, and as many bytes as its length field says. -/
def NetPacket.framing : Framing UInt8 :=
  Framing.headed FixHeaderLength (fun h => (lengthField h).toNat) FixHeaderLength_pos

theorem whole_iff (p : NetPacket) : framing.Whole p.header ↔ LengthOK p.wholePacket := by
  have hlong : ¬ p.wholePacket.length < FixHeaderLength := not_lt.mpr p.header_le
  show (if p.wholePacket.length < FixHeaderLength then _ else _ + (lengthField (p.wholePacket.take _)).toNat) = _ ↔ _
  rw [if_neg hlong, lengthField_take, eq_comm]
  rfl

/-- A header and less than it announces. -/
theorem partial_header {h rest : Bytes} (hh : h.length = FixHeaderLength)
    (hrest : rest.length < (lengthField h).toNat) : framing.Partial (h ++ rest) := by
  have hlong : ¬ (h ++ rest).length < FixHeaderLength := by
    rw [List.length_append]
    omega
  show (h ++ rest).length < if (h ++ rest).length < FixHeaderLength then _ else
    _ + (lengthField ((h ++ rest).take FixHeaderLength)).toNat
  rw [if_neg hlong, List.take_append_of_le_length hh.ge, List.take_of_length_le hh.le, List.length_append]
  omega

theorem partial_short {b : Bytes} (h : b.length < FixHeaderLength) : framing.Partial b := by
  show b.length < if b.length < FixHeaderLength then _ else _
  rwa [if_pos h]

/-! ### A read loop -/

/-- The loop of `s` has read `bytes` and handed `ps` on. -/
structure Handed (s : TcpSession) (bytes : Bytes) (ps : List NetPacket) : Prop where
  whole : ∀ p ∈ ps, LengthOK p.wholePacket
  sized : s.reading = .payload → LengthOK s.read_msg.wholePacket
  stream : bytes = (ps.map header).flatten ++
    if s.reading = .payload then s.read_msg.header.take FixHeaderLength else []

namespace Handed

variable {s t : TcpSession} {bytes b : Bytes} {ps : List NetPacket}

theorem start (h : s.reading ≠ .payload) : Handed s [] [] :=
  ⟨fun p hp => absurd hp List.not_mem_nil, fun hr => absurd hr h, by rw [if_neg h]; rfl⟩

theorem congr (h : Handed s bytes ps) (hm : t.read_msg = s.read_msg) (hr : t.reading = s.reading) :
    Handed t bytes ps := by
  refine ⟨h.whole, ?_, ?_⟩
  · rw [hm, hr]
    exact h.sized
  · rw [hm, hr]
    exact h.stream

theorem onHeader (h : Handed s bytes ps) (hr : s.reading = .header) (hb : b.length = FixHeaderLength) :
    Handed (s.onHeader b) (bytes ++ b) ps := by
  refine ⟨h.whole, fun _ => lengthOK_checkHeader _, ?_⟩
  have hstream := h.stream
  rw [hr, if_neg (by decide), List.append_nil] at hstream
  have hyes : (s.onHeader b).reading = .payload := rfl
  rw [if_pos hyes, TcpSession.take_onHeader hb, hstream]

theorem onPayload (h : Handed s bytes ps) (hr : s.reading = .payload) (hb : b.length = s.read_msg.payloadLength) :
    Handed (s.onPayload b) (bytes ++ b) (ps ++ [(s.onPayload b).read_msg]) := by
  have hno : ¬ (s.onPayload b).reading = .payload := by simp [TcpSession.onPayload]
  refine ⟨fun p hp => ?_, fun hc => absurd hc hno, ?_⟩
  · rcases List.mem_append.mp hp with hp | hp
    · exact h.whole p hp
    · rw [List.mem_singleton.mp hp]
      exact lengthOK_setPayload (h.sized hr) hb
  · have hstream := h.stream
    rw [if_pos hr] at hstream
    rw [if_neg hno, List.append_nil, List.map_append, List.flatten_append, List.map_singleton, List.flatten_singleton,
      TcpSession.header_onPayload hb, hstream, List.append_assoc]

/-- **The packets handed on** are those of the stream, if it ends before the outstanding read
has what it wants. -/
theorem divide (h : Handed s bytes ps) {rest : Bytes} (hrest : rest.length < s.want) :
    (framing.divide (bytes ++ rest)).1 = ps.map header := by
  have hwhole : ∀ f ∈ ps.map header, framing.Whole f := by
    intro f hf
    obtain ⟨p, hp, rfl⟩ := List.mem_map.mp hf
    exact (whole_iff p).mpr (h.whole p hp)
  have hpartial : framing.Partial
      ((if s.reading = .payload then s.read_msg.header.take FixHeaderLength else []) ++ rest) := by
    rcases hr : s.reading with _ | _ | _
    · exact absurd hr (TcpSession.reading_of_lt_want hrest)
    · rw [TcpSession.want, hr] at hrest
      rw [if_neg (by decide), List.nil_append]
      exact partial_short hrest
    · rw [TcpSession.want, hr] at hrest
      rw [if_pos rfl]
      refine partial_header ?_ ?_
      · rw [List.length_take]
        exact Nat.min_eq_left s.read_msg.header_le
      · rwa [← payloadLength_of_lengthOK (h.sized hr)]
  rw [h.stream, List.append_assoc]
  exact congrArg Prod.fst (Framing.divide_eq_iff.mpr ⟨rfl, hwhole, hpartial⟩)

end Handed

/-- What a step of the program is for one read loop, which is there or not yet: it reads
`bytes` and hands `ps` on. -/
inductive ReadStep : Option TcpSession → Bytes → List NetPacket → Option TcpSession → Prop
  | none : ReadStep none [] [] none
  | opened {t} : t.reading ≠ .payload → ReadStep none [] [] (some t)
  | same {s t} : t.read_msg = s.read_msg → t.reading = s.reading → ReadStep (some s) [] [] (some t)
  | header {s bytes} : s.reading = .header → bytes.length = FixHeaderLength →
      ReadStep (some s) bytes [] (some (s.onHeader bytes))
  | payload {s t bytes} : s.reading = .payload → bytes.length = s.read_msg.payloadLength →
      t.read_msg = (s.onPayload bytes).read_msg → t.reading = .header →
      ReadStep (some s) bytes [(s.onPayload bytes).read_msg] (some t)
  | ended {s t} : t.reading = .nothing → ReadStep (some s) [] [] (some t)

/-- The invariant of a read loop that is there or not yet: it holds until a read fails. -/
def Handing (x : Option TcpSession) (bytes : Bytes) (ps : List NetPacket) : Prop :=
  match x with
  | none => bytes = [] ∧ ps = []
  | some s => s.reading ≠ .nothing → Handed s bytes ps

/-- **One step.** -/
theorem Handing.step {x y : Option TcpSession} {bytes b : Bytes} {ps qs : List NetPacket} (h : Handing x bytes ps)
    (hs : ReadStep x b qs y) : Handing y (bytes ++ b) (ps ++ qs) := by
  cases hs with
  | none =>
    rw [List.append_nil, List.append_nil]
    exact h
  | opened ht =>
    obtain ⟨rfl, rfl⟩ := h
    exact fun _ => Handed.start ht
  | same hm hr =>
    rw [List.append_nil, List.append_nil]
    exact fun ht => (h (hr ▸ ht)).congr hm hr
  | header hr hb =>
    rw [List.append_nil]
    exact fun _ => (h (by rw [hr]; decide)).onHeader hr hb
  | payload hr hb hm hr' => exact fun _ => ((h (by rw [hr]; decide)).onPayload hr hb).congr hm hr'
  | ended ht => exact fun hne => absurd ht hne

/-- A loop whose read failed hands nothing on. -/
theorem ReadStep.after_end {s : TcpSession} {y : Option TcpSession} {b : Bytes} {qs : List NetPacket}
    (hs : ReadStep (some s) b qs y) (h : s.reading = .nothing) : qs = [] ∧ ∃ t, y = some t ∧ t.reading = .nothing := by
  cases hs with
  | same hm hr => exact ⟨rfl, _, rfl, hr.trans h⟩
  | header hr hb =>
    rw [h] at hr
    cases hr
  | payload hr hb hm hr' =>
    rw [h] at hr
    cases hr
  | ended ht => exact ⟨rfl, _, rfl, ht⟩

theorem ReadStep.of_map {x y : Option TcpSession}
    (h : y.map (fun s => (s.read_msg, s.reading)) = x.map fun s => (s.read_msg, s.reading)) : ReadStep x [] [] y := by
  rcases x with _ | s <;> rcases y with _ | t
  · exact .none
  · cases h
  · cases h
  · obtain ⟨hm, hr⟩ := Prod.mk.inj (Option.some.inj h)
    exact .same hm hr

theorem ReadStep.refl (x : Option TcpSession) : ReadStep x [] [] x := .of_map rfl

/-! ### A program with a read loop -/

theorem want_pos {t : TcpSession} (h : t.reading = .header) : 0 < t.want := by
  rw [TcpSession.want, h]
  exact FixHeaderLength_pos

section Program

variable {S A O : Type*} (step : S → A → Option (S × List O)) (start : S) (loop : S → Option TcpSession)
  (readError : A) (bytes : A → Bytes) (handed : List O → List NetPacket)

/-- In every run the packets handed on are those of the stream, wherever it ends before the
outstanding read has what it wants; after a failed read there are no more. And every stream
is read to less than is wanted. -/
def HandsOn : Prop :=
  (∀ as s o t rest, Lts.exec step start as = some (s, o) → loop s = some t → rest.length < t.want →
    (handed o).map header = (framing.divide ((as.map bytes).flatten ++ rest)).1 ∧
    ∀ as' s' o', Lts.exec step s (readError :: as') = some (s', o') → handed o' = []) ∧
  ∀ stream : Bytes, ∃ as s o t rest, Lts.exec step start as = some (s, o) ∧ loop s = some t ∧ rest.length < t.want ∧
    (as.map bytes).flatten ++ rest = stream

/-- What makes a program hand on the packets: for its loop each step is a `ReadStep`, a failed
read ends the loop, and the loop is opened and may read what it wants. -/
structure Loops (Inv : S → Prop) : Prop where
  first : Inv start
  empty : loop start = none
  inv : ∀ s a s' o, Inv s → step s a = some (s', o) → Inv s'
  reads : ∀ s a s' o, Inv s → step s a = some (s', o) → ReadStep (loop s) (bytes a) (handed o) (loop s')
  handed_nil : handed [] = []
  handed_append : ∀ o o', handed (o ++ o') = handed o ++ handed o'
  fails : ∀ s s' o, Inv s → step s readError = some (s', o) →
    handed o = [] ∧ ∃ t, loop s' = some t ∧ t.reading = .nothing
  opens : ∃ a s o t, step start a = some (s, o) ∧ loop s = some t ∧ t.reading = .header ∧ bytes a = []
  goes_on : ∀ s t b, Inv s → loop s = some t → t.reading ≠ .nothing → b.length = t.want →
    ∃ a s' o t', step s a = some (s', o) ∧ bytes a = b ∧ loop s' = some t' ∧
      t'.reading = if t.reading = .header then .payload else .header

variable {step start loop readError bytes handed}

namespace Loops

variable {Inv : S → Prop} (L : Loops step start loop readError bytes handed Inv)

include L

theorem handing {as : List A} {s : S} {o : List O} (h : Lts.exec step start as = some (s, o)) :
    Inv s ∧ Handing (loop s) (as.map bytes).flatten (handed o) := by
  refine Lts.history_rule step (fun as s o => Inv s ∧ Handing (loop s) (as.map bytes).flatten (handed o)) ?_ ?_ h
  · refine ⟨L.first, ?_⟩
    rw [L.empty, L.handed_nil]
    exact ⟨rfl, rfl⟩
  · rintro as s o a s' o' ⟨hinv, hs⟩ hstep
    refine ⟨L.inv s a s' o' hinv hstep, ?_⟩
    rw [L.handed_append, List.map_append, List.flatten_append, List.map_singleton, List.flatten_singleton]
    exact hs.step (L.reads s a s' o' hinv hstep)

/-- A loop that has ended stays so. -/
theorem ended {as : List A} {s s' : S} {o : List O} (hinv : Inv s) (hend : ∃ t, loop s = some t ∧ t.reading = .nothing)
    (h : Lts.exec step s as = some (s', o)) : handed o = [] := by
  have hrun := Lts.history_rule step
    (fun _ s o => Inv s ∧ (∃ t, loop s = some t ∧ t.reading = .nothing) ∧ handed o = [])
    ⟨hinv, hend, L.handed_nil⟩ ?_ h
  · exact hrun.2.2
  · rintro as s o a s' o' ⟨hinv, ⟨t, ht, hr⟩, ho⟩ hstep
    have hread := L.reads s a s' o' hinv hstep
    rw [ht] at hread
    obtain ⟨ho', t', ht', hr'⟩ := hread.after_end hr
    refine ⟨L.inv s a s' o' hinv hstep, ⟨t', ht', hr'⟩, ?_⟩
    rw [L.handed_append, ho, ho', List.append_nil]

/-- **The rule.** -/
theorem handsOn : HandsOn step start loop readError bytes handed := by
  refine ⟨fun as s o t rest h ht hrest => ?_, fun stream => ?_⟩
  · obtain ⟨hinv, hs⟩ := L.handing h
    rw [ht] at hs
    have hne : t.reading ≠ .nothing := TcpSession.reading_of_lt_want hrest
    refine ⟨((hs hne).divide hrest).symm, fun as' s' o' h' => ?_⟩
    obtain ⟨s₁, o₁, o₂, hstep, hexec, rfl⟩ := (Lts.exec_cons_iff step).mp h'
    obtain ⟨ho₁, hend⟩ := L.fails s s₁ o₁ hinv hstep
    rw [L.handed_append, ho₁, List.nil_append]
    exact L.ended (L.inv s readError s₁ o₁ hinv hstep) hend hexec
  · obtain ⟨a, s, o, t, hstep, ht, hr, hb⟩ := L.opens
    have hlive : Inv s ∧ ∃ t, loop s = some t ∧ t.reading ≠ .nothing :=
      ⟨L.inv _ a s o L.first hstep, t, ht, by rw [hr]; decide⟩
    have hrun := Lts.consume_rule step
      (fun s => Inv s ∧ ∃ t, loop s = some t ∧ t.reading ≠ .nothing) (fun s => (loop s).elim 0 TcpSession.want) bytes
      ?_ stream hlive
    · obtain ⟨as, s', o', rest, hexec, ⟨-, t', ht', -⟩, hrest, hstream⟩ := hrun
      rw [ht', Option.elim] at hrest
      refine ⟨a :: as, s', o ++ o', t', rest, ?_, ht', hrest, ?_⟩
      · exact (Lts.exec_cons_iff step).mpr ⟨s, o, o', hstep, hexec, rfl⟩
      · rw [List.map_cons, hb, List.flatten_cons, List.nil_append, hstream]
    · rintro s stream ⟨hinv, t, ht, hr⟩ hlong
      rw [ht, Option.elim] at hlong ⊢
      obtain ⟨a, s', o, t', hstep, hb, ht', hr'⟩ := L.goes_on s t (stream.take t.want) hinv ht hr
        (by rw [List.length_take, Nat.min_eq_left hlong])
      refine ⟨a, s', o, hstep, ⟨L.inv s a s' o hinv hstep, t', ht', ?_⟩, hb, fun hzero => ?_⟩
      · rw [hr']
        split <;> decide
      · have hpayload : t.reading ≠ .header := fun hc => absurd hzero (want_pos hc).ne'
        rw [if_neg hpayload] at hr'
        rw [ht', Option.elim]
        exact want_pos hr'

end Loops

end Program

/-! ### The server -/

namespace TcpServer

/-- What session `id` reads. -/
def readBy (id : ℕ) : TcpEvent → Bytes
  | .readHeader c bytes => if c = id then bytes else []
  | .readPayload c bytes _ => if c = id then bytes else []
  | _ => []

/-- The packets that session `id` gives to `processClientMessagePayload`. -/
def handedBy (id : ℕ) (o : List TcpObs) : List NetPacket :=
  o.filterMap fun
    | .received c p => if c = id then some p else none
    | _ => none

theorem handedBy_append (id : ℕ) (o o' : List TcpObs) : handedBy id (o ++ o') = handedBy id o ++ handedBy id o' :=
  List.filterMap_append

theorem handedBy_received (c id : ℕ) (p : NetPacket) : handedBy c [.received id p] = if id = c then [p] else [] := by
  by_cases h : id = c <;> simp [handedBy, h]

theorem handedBy_deliverAll (id c : ℕ) (S : TcpServer) (ds : List (ℕ × NetPacket)) :
    handedBy c (deliverAll id S ds).2 = [] := by
  refine List.filterMap_eq_nil_iff.mpr fun x hx => ?_
  rcases mem_deliverAll id ds S x hx with ⟨d, -, rfl⟩ | ⟨c', b, rfl⟩ <;> rfl

theorem handedBy_wrote (id c : ℕ) (bs : List Bytes) : handedBy c (bs.map (.wrote id)) = [] := by
  refine List.filterMap_eq_nil_iff.mpr fun x hx => ?_
  obtain ⟨b, -, rfl⟩ := List.mem_map.mp hx
  rfl

/-- A session that changes, for itself and for the others. -/
theorem readStep_set {S : TcpServer} {id c : ℕ} {t : TcpSession} {b : Bytes} {ps : List NetPacket}
    (hid : c = id → ReadStep (S.sessions id) b ps (some t)) (hother : c ≠ id → b = [] ∧ ps = []) :
    ReadStep (S.sessions c) b ps ((S.set id t).sessions c) := by
  rw [sessions_set]
  by_cases hc : c = id
  · rw [if_pos hc, hc]
    exact hid hc
  · obtain ⟨rfl, rfl⟩ := hother hc
    rw [if_neg hc]
    exact .refl _

/-- The sessions once session `id` has read a payload and the answers are delivered. -/
theorem view_afterPayload (cfg : ServerConfig) (S : TcpServer) (id : ℕ) (s : TcpSession) (bytes : Bytes) (up : UInt32)
    (ds : List (ℕ × NetPacket)) (c : ℕ) :
    ((deliverAll id (afterPayload cfg S id s bytes up) ds).1.sessions c).map (fun t => (t.read_msg, t.reading)) =
      (if c = id then some (s.onPayload bytes) else S.sessions c).map fun t => (t.read_msg, t.reading) := by
  have hsession : (afterPayload cfg S id s bytes up).sessions c =
      if c = id then some (s.onPayload bytes) else S.sessions c := sessions_set ..
  rw [(sameReads_deliverAll id ds _).2 c, hsession]

/-- What a step is for the loop of session `c`. -/
theorem readStep_of_steps {cfg : ServerConfig} {S S' : TcpServer} {e : TcpEvent} {o : List TcpObs}
    (hs : Steps cfg S e S' o) (c : ℕ) : ReadStep (S.sessions c) (readBy c e) (handedBy c o) (S'.sessions c) := by
  cases hs with
  | refuse hn hr => exact readStep_set (fun _ => hn ▸ .opened (by simp)) fun _ => ⟨rfl, rfl⟩
  | join hn hr => exact readStep_set (S := S) (fun _ => hn ▸ .opened (by simp)) fun _ => ⟨rfl, rfl⟩
  | @header id bytes s hsome hread hlen =>
    refine readStep_set (fun hc => ?_) fun hc => ⟨if_neg (Ne.symm hc), rfl⟩
    rw [hsome, hc]
    show ReadStep (some s) (if id = id then bytes else []) [] _
    rw [if_pos rfl]
    exact .header hread hlen
  | @payload id bytes up s hsome hread hlen =>
    set S₁ := afterPayload cfg S id s bytes up
    set ds := replies cfg up (s.onPayload bytes).read_msg id S.room.toList
    have hview := view_afterPayload cfg S id s bytes up ds c
    have hhanded : handedBy c (.received id (s.onPayload bytes).read_msg :: (deliverAll id S₁ ds).2) =
        if id = c then [(s.onPayload bytes).read_msg] else [] := by
      rw [← List.singleton_append, handedBy_append, handedBy_deliverAll, handedBy_received, List.append_nil]
    rw [hhanded]
    by_cases hc : c = id
    · rw [if_pos hc] at hview
      obtain ⟨t, ht, heq⟩ := Option.map_eq_some_iff.mp hview
      obtain ⟨hm, hr⟩ := Prod.mk.inj heq
      rw [if_pos hc.symm, ht, hc, hsome]
      show ReadStep (some s) (if id = id then bytes else []) _ _
      rw [if_pos rfl]
      exact .payload hread hlen hm hr
    · rw [if_neg hc] at hview
      rw [if_neg (Ne.symm hc)]
      show ReadStep _ (if id = c then bytes else []) _ _
      rw [if_neg (Ne.symm hc)]
      exact .of_map hview
  | readError hsome hread => exact readStep_set (S := S) (fun _ => hsome ▸ .ended rfl) fun _ => ⟨rfl, rfl⟩
  | @written id s hsome hw =>
    rw [handedBy_wrote]
    obtain ⟨hm, hr⟩ := session_onWritten_reads s
    exact readStep_set (fun _ => hsome ▸ .same hm hr) fun _ => ⟨rfl, rfl⟩
  | writeError hsome hw => exact readStep_set (S := S) (fun _ => hsome ▸ .same rfl rfl) fun _ => ⟨rfl, rfl⟩

/-- The read loop of session `id`. -/
theorem loops (cfg : ServerConfig) (id : ℕ) :
    Loops (step cfg) start (fun S => S.sessions id) (.readError id) (readBy id) (handedBy id) fun _ => True where
  first := trivial
  empty := rfl
  inv _ _ _ _ _ _ := trivial
  reads S e S' o _ h := readStep_of_steps (steps_of_step h) id
  handed_nil := rfl
  handed_append := handedBy_append id
  fails S S' o _ h := by
    cases steps_of_step h with
    | @readError _ s hsome hread =>
      exact ⟨rfl, _, (sessions_set S id { s with reading := .nothing } id).trans (if_pos rfl), rfl⟩
  opens := ⟨.accept id 0, _, _, _, rfl, (sessions_set start id _ id).trans (if_pos rfl), rfl, rfl⟩
  goes_on S t b _ ht hr hb := by
    rcases hread : t.reading with _ | _ | _
    · exact absurd hread hr
    · rw [TcpSession.want, hread] at hb
      refine ⟨.readHeader id b, S.set id (t.onHeader b), [], t.onHeader b, ?_, if_pos rfl,
        (sessions_set S id _ id).trans (if_pos rfl), rfl⟩
      simp only [step, ht]
      rw [if_pos ⟨hread, hb⟩]
    · rw [TcpSession.want, hread] at hb
      set ds := replies cfg 0 (t.onPayload b).read_msg id S.room.toList with hds
      have hstep : step cfg S (.readPayload id b 0) = some ((deliverAll id (afterPayload cfg S id t b 0) ds).1,
          .received id (t.onPayload b).read_msg :: (deliverAll id (afterPayload cfg S id t b 0) ds).2) := by
        simp only [step, ht]
        rw [if_pos ⟨hread, hb⟩]
        rfl
      have hview := view_afterPayload cfg S id t b 0 ds id
      rw [if_pos rfl] at hview
      obtain ⟨t', ht', heq⟩ := Option.map_eq_some_iff.mp hview
      exact ⟨_, _, _, t', hstep, if_pos rfl, ht', (Prod.mk.inj heq).2⟩

end TcpServer

/-! ### The client -/

namespace TcpClient

/-- The read loop, once the connection is made or has failed. -/
def readLoop (c : TcpClient) : Option TcpSession := if c.connecting then none else some c.client.toTcpSession

/-- What the client reads. -/
def readBy : ClientEvent → Bytes
  | .readHeader bytes => bytes
  | .readPayload bytes => bytes
  | _ => []

/-- The packets that `onDataReceived_` is called with. -/
def handedBy (o : List ClientObs) : List NetPacket :=
  o.filterMap fun | .received p => some p | _ => none

theorem handedBy_append (o o' : List ClientObs) : handedBy (o ++ o') = handedBy o ++ handedBy o' :=
  List.filterMap_append

theorem handedBy_wrote (bs : List Bytes) : handedBy (bs.map .wrote) = [] := by
  refine List.filterMap_eq_nil_iff.mpr fun x hx => ?_
  obtain ⟨b, -, rfl⟩ := List.mem_map.mp hx
  rfl

/-- Nothing is read before the connection is made. -/
def Unread (c : TcpClient) : Prop := c.connecting = true → c.client.reading = .nothing

theorem connecting_of_reading {c : TcpClient} (hc : Unread c) (hr : c.client.reading ≠ .nothing) :
    c.connecting = false := by
  by_contra h
  exact hr (hc (by simpa using h))

/-- A step of the loop itself. -/
theorem readStep_reading {c c' : TcpClient} {b : Bytes} {ps : List NetPacket} (hc : Unread c)
    (hr : c.client.reading ≠ .nothing) (h : c'.connecting = c.connecting)
    (hs : ReadStep (some c.client.toTcpSession) b ps (some c'.client.toTcpSession)) :
    Unread c' ∧ ReadStep (readLoop c) b ps (readLoop c') := by
  have hmade := connecting_of_reading hc hr
  have hmade' : c'.connecting = false := h.trans hmade
  refine ⟨fun hno => absurd (hmade'.symm.trans hno) Bool.false_ne_true, ?_⟩
  simp only [readLoop, hmade, hmade']
  exact hs

/-- A step that leaves the loop alone. -/
theorem readStep_same {c c' : TcpClient} (hc : Unread c) (h : c'.connecting = c.connecting)
    (hm : c'.client.read_msg = c.client.read_msg) (hr : c'.client.reading = c.client.reading) :
    Unread c' ∧ ReadStep (readLoop c) [] [] (readLoop c') := by
  refine ⟨fun hno => hr.trans (hc (h.symm.trans hno)), .of_map ?_⟩
  rw [readLoop, readLoop, h]
  split
  · rfl
  · rw [Option.map_some, Option.map_some, hm, hr]

/-- What a step is for the client's loop. -/
theorem readStep_of_steps {c c' : TcpClient} {e : ClientEvent} {o : List ClientObs} (hc : Unread c)
    (hs : Steps c e c' o) : Unread c' ∧ ReadStep (readLoop c) (readBy e) (handedBy o) (readLoop c') := by
  cases hs with
  | connected h =>
    refine ⟨fun hno => absurd hno Bool.false_ne_true, ?_⟩
    rw [readLoop, if_pos h]
    exact .opened (by simp)
  | connectError h =>
    refine ⟨fun hno => absurd hno Bool.false_ne_true, ?_⟩
    rw [readLoop, if_pos h]
    exact .opened (by rw [hc h]; decide)
  | header hr hlen => exact readStep_reading hc (by rw [hr]; decide) rfl (.header hr hlen)
  | payload hr hlen => exact readStep_reading hc (by rw [hr]; decide) rfl (.payload hr hlen rfl rfl)
  | readError hr => exact readStep_reading hc hr rfl (.ended rfl)
  | send => exact readStep_same hc rfl rfl rfl
  | @posted msg rest hp =>
    obtain ⟨hm, hr, -⟩ := TcpServer.session_deliver_reads c.client.toTcpSession msg
    rw [handedBy_wrote]
    exact readStep_same hc rfl hm hr
  | written hw =>
    obtain ⟨hm, hr⟩ := TcpServer.session_onWritten_reads c.client.toTcpSession
    rw [handedBy_wrote]
    exact readStep_same hc rfl hm hr
  | writeError hw => exact readStep_same hc rfl rfl rfl
  | close => exact readStep_same hc rfl rfl rfl
  | closePosted h => exact readStep_same hc rfl rfl rfl

/-- The read loop of the client. -/
theorem loops (v : Version) (upTime : UInt32) :
    Loops step (init v upTime) readLoop .readError readBy handedBy Unread where
  first _ := rfl
  empty := rfl
  inv _ _ _ _ hc h := (readStep_of_steps hc (steps_of_step h)).1
  reads _ _ _ _ hc h := (readStep_of_steps hc (steps_of_step h)).2
  handed_nil := rfl
  handed_append := handedBy_append
  fails c c' o hc h := by
    cases steps_of_step h with
    | readError hr =>
      refine ⟨rfl, ⟨c.client.read_msg, c.client.write_msgs, .nothing, c.client.writing⟩, ?_, rfl⟩
      rw [readLoop, connecting_of_reading hc hr]
      rfl
  opens := ⟨.connected, _, _, _, rfl, rfl, rfl, rfl⟩
  goes_on c t b hc ht hr hb := by
    have hconnecting : c.connecting = false := by
      by_contra h
      rw [readLoop, if_pos (by simpa using h)] at ht
      cases ht
    rw [readLoop, hconnecting] at ht
    cases ht
    rcases hread : c.client.reading with _ | _ | _
    · exact absurd hread hr
    · rw [TcpSession.want, hread] at hb
      refine ⟨.readHeader b, _, _, c.client.toTcpSession.onHeader b, if_pos ⟨hread, hb⟩, rfl, ?_, rfl⟩
      simp only [readLoop, hconnecting]
      rfl
    · rw [TcpSession.want, hread] at hb
      refine ⟨.readPayload b, _, _, c.client.toTcpSession.onPayload b, if_pos ⟨hread, hb⟩, rfl, ?_, rfl⟩
      simp only [readLoop, hconnecting]
      rfl

end TcpClient

/-- **What is handed on.** In every run of the server and for each of its sessions, and in every
run of the client: the packets given to `processClientMessagePayload` and to
`onDataReceived_` are those of the stream read, cut by the headers, byte for byte and in
order, wherever the stream ends; none is after a read has failed; and every stream is read
to less than a packet. -/
theorem frames_handed_on :
    (∀ (cfg : ServerConfig) (id : ℕ), HandsOn (TcpServer.step cfg) TcpServer.start (fun S => S.sessions id)
      (.readError id) (TcpServer.readBy id) (TcpServer.handedBy id)) ∧
    ∀ (v : Version) (upTime : UInt32), HandsOn TcpClient.step (TcpClient.init v upTime) TcpClient.readLoop
      .readError TcpClient.readBy TcpClient.handedBy :=
  ⟨fun cfg id => (TcpServer.loops cfg id).handsOn, fun v upTime => (TcpClient.loops v upTime).handsOn⟩

end EasyVoiceCall
