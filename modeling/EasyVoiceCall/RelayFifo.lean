/-
# The relay is a queue

What two clients and a server in broadcast mode do between them
(`EasyVoiceCall.Relay`) is what two queues of media packets would do: whatever
the order of their handlers and wherever the byte streams are split, the packets
handed to one client are a prefix of those the other sent, and all of them once
no step remains.

Key theorems: `Relay.links_quiet`, `Relay.relay_fifo`.
-/
import EasyVoiceCall.Relay

namespace EasyVoiceCall

open Buffer NetPacket

namespace Relay

variable {cfg : RelayConfig} {s : Relay} {o : List RelayObs}

/-- What is handed over besides responses is media. -/
theorem filter_handed {ps : List NetPacket} (h : ∀ p ∈ ps, p.isMediaType = true ∨ isResponse p = true) :
    ps.filter (fun p => !isResponse p) = media ps := by
  refine List.filter_congr fun p hp => ?_
  rcases hr : isResponse p with _ | _
  · have hm := (h p hp).resolve_right (by simp [hr])
    simp [hm]
  · have hm : p.isMediaType = false := by
      simp only [isResponse, Bool.or_eq_true, decide_eq_true_eq] at hr
      unfold isMediaType
      rcases hr with hr | hr <;> rw [hr] <;> decide
    simp [hm]

/-- The side that writes to a hop. -/
def writerEnd (cl t : Peer → TcpSession) : Hop → TcpSession
  | .up c => cl c
  | .down c => t c

/-- The side that reads from a hop. -/
def readerEnd (cl t : Peer → TcpSession) : Hop → TcpSession
  | .up c => t c
  | .down c => cl c

section Quiet

variable {t : Peer → TcpSession} {P : Hop → List NetPacket}
variable (hl : Links cfg s.server s.ends s.line t P) (k : Hop)
include hl

theorem linked : Linked (writerEnd s.ends t k) (readerEnd s.ends t k) (s.line k) (P k) := by
  rcases k with c | c
  · exact hl.up c
  · exact hl.down c

theorem reader_eq : s.reader cfg k = some (readerEnd s.ends t k) := by
  rcases k with c | c
  · exact hl.session c
  · rfl

/-- A write that is over can complete. -/
theorem written_enabled {i : ℕ} (hb : (s.line k).writes[i]? = some [])
    (hw : (writerEnd s.ends t k).writing = true) : step cfg s (.written k i) ≠ none := by
  rcases k with c | c
  · have hw' : (s.client c).writing = true := hw
    simp [step, hb, hw']
  · have hw' : (t c).writing = true := hw
    simp only [step, hb, if_true]
    apply serve_ne_none
    simp [TcpServer.step, setLine, hl.session c, hw']

/-- A read that has what it asked for can complete. -/
theorem read_enabled (hr : (readerEnd s.ends t k).reading ≠ .nothing)
    (hgot : (s.line k).got.length = (readerEnd s.ends t k).want) :
    step cfg s (.readHeader k) ≠ none ∨ step cfg s (.readPayload k 0) ≠ none := by
  unfold TcpSession.want at hgot
  rcases hreading : (readerEnd s.ends t k).reading with _ | _ | _
  · exact absurd hreading hr
  · left
    rw [hreading] at hgot
    rcases k with c | c
    · have ht : (t c).reading = .header := hreading
      apply serve_ne_none
      simp [TcpServer.step, setLine, hl.session c, ht, hgot]
    · have hc : (s.client c).reading = .header := hreading
      simp [step, hc, hgot]
  · right
    rw [hreading] at hgot
    rcases k with c | c
    · have ht : (t c).reading = .payload := hreading
      have hgot' : (s.line (.up c)).got.length = (t c).read_msg.payloadLength := hgot
      apply serve_ne_none
      simp [TcpServer.step, setLine, hl.session c, ht, hgot']
    · have hc : (s.client c).reading = .payload := hreading
      have hgot' : (s.line (.down c)).got.length = (s.client c).read_msg.payloadLength := hgot
      simp [step, hc, hgot']

end Quiet

/-- Where no step remains, nothing is under way. -/
theorem links_quiet {t : Peer → TcpSession} {P : Hop → List NetPacket}
    (h : Links cfg s.server s.ends s.line t P) (hq : Quiet cfg s) (k : Hop) : P k = [] := by
  have hlink := linked h k
  -- A write outstanding could go on or be over.
  have hqueue : (writerEnd s.ends t k).write_msgs = [] := by
    by_contra hne
    have hone : (s.line k).writes.length = if (writerEnd s.ends t k).write_msgs = [] then 0 else 1 :=
      hlink.holds.one
    rw [if_neg hne] at hone
    obtain ⟨b, hb⟩ := List.length_eq_one_iff.mp hone
    have hget : (s.line k).writes[0]? = some b := by rw [hb]; rfl
    rcases b with _ | ⟨x, b⟩
    · refine written_enabled h k hget ?_ (hq (.written k 0) rfl)
      rw [hlink.writing]
      simpa using hne
    · have hnone := hq (.transmit k 0 1) rfl
      simp [step, hget] at hnone
  have hle : (s.line k).got.length ≤ (readerEnd s.ends t k).want := by
    rw [← hlink.want_pipe]
    exact hlink.holds.got_le
  have hne : (s.line k).got.length ≠ (readerEnd s.ends t k).want := by
    intro heq
    rcases read_enabled h k hlink.reading heq with hread | hread
    · exact hread (hq (.readHeader k) rfl)
    · exact hread (hq (.readPayload k 0) rfl)
  have hlt : (s.line k).got.length < (readerEnd s.ends t k).want := lt_of_le_of_ne hle hne
  have hwire : (s.line k).wire = [] := by
    rcases hwire : (s.line k).wire with _ | ⟨x, wire⟩
    · rfl
    · have hnone := hq (.arrive k 1) rfl
      simp only [step, reader_eq h k] at hnone
      rw [if_pos ⟨Nat.zero_lt_one, by simp [hwire], hlt⟩] at hnone
      cases hnone
  exact hlink.drained hqueue hwire hlt

theorem pending_quiet (hq : Quiet cfg s) (c : Peer) : s.pending c = [] := by
  have hp := hq (.posted c) rfl
  unfold pending
  rcases hposted : (s.client c).posted with _ | ⟨m, rest⟩
  · rfl
  · simp [step, BoostAsioTcpClient.onPosted, hposted] at hp

/-- **The relay is a queue.** At every moment the packets that a client's
`onDataReceived` was called with, other than server responses, are a prefix of the
media that the other client's `send` was called with, and all of it once no step
remains. -/
theorem relay_fifo (cfg : RelayConfig) {es : List RelayEvent} {s : Relay} {o : List RelayObs}
    (h : exec cfg es = some (s, o)) (c : Peer) :
    (handedTo c.other o).filter (fun p => !isResponse p) <+: (sentBy c o).filter isMediaType ∧
    (Quiet cfg s → (handedTo c.other o).filter (fun p => !isResponse p) = (sentBy c o).filter isMediaType) := by
  obtain ⟨t, P, hl, ha⟩ := inv_exec h
  have hanswers : ∀ p ∈ handedTo c.other o, p.isMediaType = true ∨ isResponse p = true :=
    fun p hp => ha.down c.other p (List.mem_append_left _ hp)
  have hcons := ha.conserved c
  rw [media_append, List.append_assoc] at hcons
  rw [filter_handed hanswers]
  refine ⟨⟨_, hcons.symm⟩, fun hq => ?_⟩
  rw [links_quiet hl hq, links_quiet hl hq, pending_quiet hq] at hcons
  simpa [media] using hcons.symm

/-- With no bytes and no handlers anywhere and all reads at a header, no step remains. -/
theorem quiet_of_idle (hpending : ∀ c, s.pending c = []) (hline : ∀ k, s.line k = .idle)
    (hread : ∀ k, (s.reader cfg k).map (·.reading) = some .header) : Quiet cfg s := by
  have hsession : ∀ c, ∃ x, s.server.sessions (cfg.id c) = some x ∧ x.reading = .header :=
    fun c => Option.map_eq_some_iff.mp (hread (.up c))
  intro e he
  cases e with
  | send c msg => cases he
  | posted c =>
    have hp : (s.client c).posted = [] := hpending c
    simp [step, BoostAsioTcpClient.onPosted, hp]
  | transmit k i n => simp [step, hline, Pipe.Line.idle]
  | arrive k n =>
    simp only [step, hline, Pipe.Line.idle]
    split
    · rfl
    · rw [if_neg]
      simp only [List.length_nil]
      omega
  | written k i => simp [step, hline, Pipe.Line.idle]
  | readHeader k =>
    rcases k with c | c
    · obtain ⟨x, hx, hr⟩ := hsession c
      simp [step, serve, TcpServer.step, setLine, hline, Pipe.Line.idle, hx, FixHeaderLength]
    · simp [step, hline, Pipe.Line.idle, FixHeaderLength]
  | readPayload k up =>
    rcases k with c | c
    · obtain ⟨x, hx, hr⟩ := hsession c
      simp [step, serve, TcpServer.step, setLine, hx, hr]
    · have hr : (s.client c).reading = .header := by simpa [reader] using hread (.down c)
      simp [step, hr]

/-- A text message of two bytes, serial number 1. -/
def sampleText : Message where
  packet := ⟨headMarker ++ sampleVersion.bytes ++ [0, 0, 0, 0] ++ [6, 0] ++ [1, 0, 0, 0] ++ [2, 0] ++
    [0x68, 0x69], by decide⟩
  lengthOK := by decide
  stays := by decide

/-- A server whose sessions are 2, of client A, and 1. -/
def sampleRelay : RelayConfig where
  version := sampleVersion
  isEchoMode := false
  broadcast := rfl
  id | .A => 2 | .B => 1
  id_ne := by decide
  first := .A
  built _ := 0

/-- Client A sends a text, which is split on its way. -/
def sampleTalk : List RelayEvent :=
  [.send .A sampleText, .posted .A, .transmit (.up .A) 0 5, .arrive (.up .A) 5, .transmit (.up .A) 0 17,
    .arrive (.up .A) 15, .readHeader (.up .A), .written (.up .A) 0, .arrive (.up .A) 2, .readPayload (.up .A) 0,
    .transmit (.down .B) 0 22, .arrive (.down .B) 20, .readHeader (.down .B), .arrive (.down .B) 2,
    .readPayload (.down .B) 0, .written (.down .B) 0]

theorem relay_fifo_text : ∃ s o, exec sampleRelay sampleTalk = some (s, o) ∧
    sentBy .A o = [sampleText.packet] ∧ (handedTo .B o).filter (fun p => !isResponse p) = [sampleText.packet] := by
  have hrun : ((exec sampleRelay sampleTalk).map fun r => sentBy .A r.2) = some [sampleText.packet] := by decide
  obtain ⟨⟨s, o⟩, hexec, hsent⟩ := Option.map_eq_some_iff.mp hrun
  have hlines : ∀ k, ((exec sampleRelay sampleTalk).map fun r => r.1.line k) = some .idle := by
    rintro (c | c) <;> cases c <;> rfl
  have hpending : ∀ c, ((exec sampleRelay sampleTalk).map fun r => r.1.pending c) = some [] := by
    intro c
    cases c <;> rfl
  have hreads : ∀ k, ((exec sampleRelay sampleTalk).map fun r => (r.1.reader sampleRelay k).map (·.reading)) =
      some (some .header) := by
    rintro (c | c) <;> cases c <;> rfl
  rw [hexec] at hlines hpending hreads
  have hq : Quiet sampleRelay s := quiet_of_idle (fun c => Option.some_injective _ (hpending c))
    (fun k => Option.some_injective _ (hlines k)) fun k => Option.some_injective _ (hreads k)
  refine ⟨s, o, hexec, hsent, ?_⟩
  have hall := (relay_fifo sampleRelay hexec .A).2 hq
  rw [hsent] at hall
  exact hall

end Relay
end EasyVoiceCall
