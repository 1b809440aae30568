/-
# One write at a time

`deliver` and `write` of the server's `TcpSession`, `write(msg)` and `write` of the client's
`BoostAsioTcpClient`. Whether a write is outstanding is written nowhere: `deliver` starts
one if it finds the queue empty, the handler of a write the next if it leaves the queue
not empty, and the handler of a failed write leaves its message in the queue. Here every
`async_write` is kept until its handler runs, in any number (`WriteLoop`); each holds the
bytes it was given and which of the messages enqueued they are of.

That there is never more than one, and what it refers to, is `OneWrite`. The flag `writing`
of the session says whether there is one (`WriteLoop.Inv`).

Key definitions: `WriteLoop.step`, `ClientWrites.step`, `OneWrite`.
Key theorems: `WriteLoop.inv_exec`, `ClientWrites.exec_loop`, `one_write`.
-/
import EasyVoiceCall.Connection

namespace EasyVoiceCall

open Buffer NetPacket

/-- An `async_write`: the number of messages enqueued before the one it refers to, and that
one's bytes. -/
structure Write where
  place : ℕ
  bytes : Bytes
  deriving DecidableEq

/-- What an observer sees of a queue. -/
inductive WriteObs
  | enqueued (msg : NetPacket)
  | begun (w : Write)
  | completed (w : Write)
  | failed (w : Write)
  deriving DecidableEq

/-- The messages enqueued. -/
def enqueued (o : List WriteObs) : List NetPacket :=
  o.filterMap fun | .enqueued msg => some msg | _ => none

/-- The writes that completed. -/
def completed (o : List WriteObs) : List Write :=
  o.filterMap fun | .completed w => some w | _ => none

/-- The writes that failed. -/
def failed (o : List WriteObs) : List Write :=
  o.filterMap fun | .failed w => some w | _ => none

/-! ### The server's session -/

/-- A session, how many messages it has taken out of its queue, and the writes outstanding. -/
structure WriteLoop where
  session : TcpSession
  popped : ℕ
  outstanding : List Write

/-- A call of `deliver`, or the handler of one of the writes. -/
inductive WriteEvent
  | deliver (msg : NetPacket)
  | written (i : ℕ)
  | writeError (i : ℕ)

namespace WriteLoop

/-- A session that has sent nothing yet. -/
def start (session : TcpSession) : WriteLoop := ⟨{ session with write_msgs := [], writing := false }, 0, []⟩

/-- The buffers given to `async_write` refer to the front of the queue. -/
def writes (place : ℕ) (buffers : List Bytes) : List Write := buffers.map fun b => ⟨place, b⟩

/-- One handler or call; `none` where there is no such write. -/
def step (s : WriteLoop) : WriteEvent → Option (WriteLoop × List WriteObs)
  | .deliver msg =>
    let r := s.session.deliver msg
    let begun := writes s.popped r.2
    some (⟨r.1, s.popped, s.outstanding ++ begun⟩, .enqueued msg :: begun.map .begun)
  | .written i =>
    s.outstanding[i]?.map fun w =>
      let r := s.session.onWritten
      let begun := writes (s.popped + 1) r.2
      (⟨r.1, s.popped + 1, s.outstanding.eraseIdx i ++ begun⟩, .completed w :: begun.map .begun)
  | .writeError i =>
    s.outstanding[i]?.map fun w =>
      (⟨{ s.session with writing := false }, s.popped, s.outstanding.eraseIdx i⟩, [.failed w])

end WriteLoop

/-! ### The client -/

/-- A client, how many messages it has taken out of its queue, and the writes outstanding. -/
structure ClientWrites where
  client : BoostAsioTcpClient
  popped : ℕ
  outstanding : List Write

/-- A call of `write(msg)`, the handler it posted, or that of one of the writes. -/
inductive ClientWriteEvent
  | write (msg : NetPacket)
  | posted
  | written (i : ℕ)
  | writeError (i : ℕ)

namespace ClientWrites

def start (client : BoostAsioTcpClient) : ClientWrites :=
  ⟨{ client with write_msgs := [], writing := false, posted := [] }, 0, []⟩

/-- One handler or call; `none` where there is nothing to handle. -/
def step (c : ClientWrites) : ClientWriteEvent → Option (ClientWrites × List WriteObs)
  | .write msg => some ({ c with client := c.client.write msg }, [])
  | .posted =>
    match c.client.posted.head?, c.client.onPosted with
    | some msg, some r =>
      let begun := WriteLoop.writes c.popped r.2
      some (⟨r.1, c.popped, c.outstanding ++ begun⟩, .enqueued msg :: begun.map .begun)
    | _, _ => none
  | .written i =>
    c.outstanding[i]?.map fun w =>
      let r := c.client.onWritten
      let begun := WriteLoop.writes (c.popped + 1) r.2
      (⟨r.1, c.popped + 1, c.outstanding.eraseIdx i ++ begun⟩, .completed w :: begun.map .begun)
  | .writeError i =>
    c.outstanding[i]?.map fun w =>
      (⟨{ c.client with writing := false }, c.popped, c.outstanding.eraseIdx i⟩, [.failed w])

end ClientWrites

/-! ### The law of the queue -/

@[simp] theorem enqueued_append (o o' : List WriteObs) : enqueued (o ++ o') = enqueued o ++ enqueued o' :=
  List.filterMap_append

@[simp] theorem completed_append (o o' : List WriteObs) : completed (o ++ o') = completed o ++ completed o' :=
  List.filterMap_append

@[simp] theorem failed_append (o o' : List WriteObs) : failed (o ++ o') = failed o ++ failed o' :=
  List.filterMap_append

theorem enqueued_begun (ws : List Write) : enqueued (ws.map .begun) = [] := by
  refine List.filterMap_eq_nil_iff.mpr fun x hx => ?_
  obtain ⟨w, -, rfl⟩ := List.mem_map.mp hx
  rfl

theorem length_completed (o : List WriteObs) (w : Write) (bs : List Write) :
    (completed (o ++ .completed w :: bs.map .begun)).length = (completed o).length + 1 := by
  have hbegun : completed (bs.map .begun) = [] := by simp [completed]
  rw [← List.singleton_append, completed_append, completed_append, hbegun, List.append_nil, List.length_append]
  rfl

/-- A queue whose writes do not overlap. -/
structure OneWrite (queue : List NetPacket) (outstanding : List Write) (o : List WriteObs) : Prop where
  single : outstanding.length ≤ 1
  front : ∀ w ∈ outstanding, w.place = (completed o).length ∧ queue.head?.map header = some w.bytes
  order : (enqueued o).map header = (completed o).map Write.bytes ++ queue.map header
  busy : failed o = [] → (outstanding ≠ [] ↔ queue ≠ [])
  stuck : failed o ≠ [] → outstanding = [] ∧ queue ≠ []
  ended : o.Pairwise fun a b => ∀ w w', a = .failed w → b ≠ .begun w'

namespace OneWrite

variable {queue : List NetPacket} {outstanding : List Write} {o : List WriteObs}

theorem start : OneWrite [] [] [] where
  single := Nat.zero_le 1
  front w hw := absurd hw List.not_mem_nil
  order := rfl
  busy _ := iff_of_false (by simp) (by simp)
  stuck h := absurd rfl h
  ended := .nil

/-- Where nothing is queued nothing is outstanding, and nothing has failed. -/
theorem of_nil (h : OneWrite [] outstanding o) : outstanding = [] ∧ failed o = [] := by
  constructor
  · rcases outstanding with _ | ⟨w, ws⟩
    · rfl
    · have hfront := (h.front w List.mem_cons_self).2
      cases hfront
  · by_contra hf
    exact (h.stuck hf).2 rfl

/-- A write that failed was the last one. -/
theorem none_failed (h : OneWrite queue outstanding o) (hw : outstanding ≠ []) : failed o = [] := by
  by_contra hf
  exact hw (h.stuck hf).1

/-- The write outstanding is the only one, its message is at the front, and none has failed. -/
theorem of_outstanding (h : OneWrite queue outstanding o) {i : ℕ} {w : Write} (hw : outstanding[i]? = some w) :
    outstanding = [w] ∧ i = 0 ∧ failed o = [] ∧ ∃ msg rest, queue = msg :: rest ∧ w.bytes = msg.header := by
  obtain ⟨hi, hget⟩ := List.getElem?_eq_some_iff.mp hw
  have hsingle := h.single
  have hlen : outstanding.length = 1 := by omega
  have hzero : i = 0 := by omega
  subst hzero
  obtain ⟨v, rfl⟩ := List.length_eq_one_iff.mp hlen
  obtain rfl : v = w := hget
  have hfront := (h.front v List.mem_cons_self).2
  obtain ⟨msg, hmsg, hbytes⟩ := Option.map_eq_some_iff.mp hfront
  obtain ⟨rest, rfl⟩ := List.head?_eq_some_iff.mp hmsg
  exact ⟨rfl, rfl, h.none_failed (List.cons_ne_nil _ _), msg, rest, rfl, hbytes.symm⟩

/-- What is seen of a step that begins no write. -/
theorem ended_concat (h : OneWrite queue outstanding o) {x : WriteObs} (hx : ∀ w, x ≠ .begun w) :
    (o ++ [x]).Pairwise fun a b => ∀ w w', a = .failed w → b ≠ .begun w' := by
  refine List.pairwise_append.mpr ⟨h.ended, List.pairwise_singleton _ _, fun a _ b hb w w' _ => ?_⟩
  rw [List.mem_singleton.mp hb]
  exact hx w'

/-- What is seen of a step that begins a write, where none has failed. -/
theorem ended_append {o' : List WriteObs} (h : OneWrite queue outstanding o) (hf : failed o = [])
    (ho' : ∀ w, .failed w ∉ o') : (o ++ o').Pairwise fun a b => ∀ w w', a = .failed w → b ≠ .begun w' := by
  refine List.pairwise_append.mpr ⟨h.ended, ?_, fun a ha b _ w w' hw => ?_⟩
  · exact List.pairwise_of_forall_mem_list fun a ha b _ w w' hw => absurd (hw ▸ ha) (ho' w)
  · have hmem : w ∈ failed o := List.mem_filterMap.mpr ⟨a, ha, by rw [hw]⟩
    rw [hf] at hmem
    exact absurd hmem List.not_mem_nil

/-- A message behind others. -/
theorem enqueue (h : OneWrite queue outstanding o) (hq : queue ≠ []) (msg : NetPacket) :
    OneWrite (queue ++ [msg]) outstanding (o ++ [.enqueued msg]) := by
  have hhead : (queue ++ [msg]).head? = queue.head? := List.head?_append_of_ne_nil _ hq
  have hfailed : failed (o ++ [.enqueued msg]) = failed o := by
    rw [failed_append]
    exact List.append_nil _
  refine ⟨h.single, fun w hw => ?_, ?_, fun hf => ?_, fun hf => ?_, ?_⟩
  · rw [completed_append, hhead]
    exact ⟨(h.front w hw).1.trans (by simp [completed]), (h.front w hw).2⟩
  · rw [enqueued_append, completed_append, List.map_append, h.order]
    simp [enqueued, completed]
  · rw [hfailed] at hf
    exact iff_of_true ((h.busy hf).mpr hq) (by simp)
  · rw [hfailed] at hf
    exact ⟨(h.stuck hf).1, by simp⟩
  · apply h.ended_concat
    simp

/-- A message alone in the queue. -/
theorem first (h : OneWrite [] outstanding o) (msg : NetPacket) :
    OneWrite [msg] [⟨(completed o).length, msg.header⟩]
      (o ++ [.enqueued msg, .begun ⟨(completed o).length, msg.header⟩]) := by
  obtain ⟨-, hf⟩ := h.of_nil
  have hcompleted : completed (o ++ [.enqueued msg, .begun ⟨(completed o).length, msg.header⟩]) = completed o := by
    rw [completed_append]
    exact List.append_nil _
  have hfailed : failed (o ++ [.enqueued msg, .begun ⟨(completed o).length, msg.header⟩]) = [] := by
    rw [failed_append, hf]
    rfl
  refine ⟨le_rfl, fun w hw => ?_, ?_, fun _ => iff_of_true (by simp) (by simp), fun hne => absurd hfailed hne, ?_⟩
  · rw [hcompleted, List.mem_singleton.mp hw]
    exact ⟨rfl, rfl⟩
  · rw [hcompleted, enqueued_append, List.map_append, h.order]
    simp [enqueued]
  · exact h.ended_append hf (by simp)

/-- The write is over, and the next one begins if there is a message. -/
theorem written {msg : NetPacket} {rest : List NetPacket} {w : Write} (h : OneWrite (msg :: rest) [w] o) :
    OneWrite rest (rest.head?.map fun m => ⟨(completed o).length + 1, m.header⟩).toList
      (o ++ .completed w :: (rest.head?.map fun m => WriteObs.begun ⟨(completed o).length + 1, m.header⟩).toList) := by
  have hf : failed o = [] := h.none_failed (List.cons_ne_nil _ _)
  obtain ⟨-, hbytes⟩ := h.front w List.mem_cons_self
  have hmsg : msg.header = w.bytes := Option.some.inj hbytes
  have horder : (enqueued o).map header = ((completed o).map Write.bytes ++ [w.bytes]) ++ rest.map header := by
    rw [h.order, List.map_cons, hmsg, List.append_assoc, List.singleton_append]
  set o' := WriteObs.completed w ::
    (rest.head?.map fun m => WriteObs.begun ⟨(completed o).length + 1, m.header⟩).toList with ho'
  have hobs : enqueued o' = [] ∧ completed o' = [w] ∧ failed o' = [] ∧ ∀ v, WriteObs.failed v ∉ o' := by
    rcases rest with _ | ⟨m, rest⟩
    · exact ⟨rfl, rfl, rfl, by simp [ho']⟩
    · exact ⟨rfl, rfl, rfl, by simp [ho']⟩
  obtain ⟨henqueued, hcompleted, hfailed, hno⟩ := hobs
  refine ⟨?_, fun v hv => ?_, ?_, fun _ => ?_, fun hne => ?_, h.ended_append hf hno⟩
  · rw [Option.length_toList]
    split <;> omega
  · rw [completed_append, hcompleted, List.length_append, List.length_singleton]
    rcases rest with _ | ⟨m, rest⟩
    · exact absurd hv List.not_mem_nil
    · rw [List.mem_singleton.mp hv]
      exact ⟨rfl, rfl⟩
  · rw [enqueued_append, henqueued, List.append_nil, completed_append, hcompleted, List.map_append]
    exact horder
  · rcases rest with _ | ⟨m, rest⟩ <;> simp
  · rw [failed_append, hf, hfailed] at hne
    exact absurd rfl hne

/-- The write fails. -/
theorem writeError {w : Write} (h : OneWrite queue [w] o) : OneWrite queue [] (o ++ [.failed w]) := by
  have hf : failed o = [] := h.none_failed (List.cons_ne_nil _ _)
  have hfailed : failed (o ++ [.failed w]) = [w] := by
    rw [failed_append, hf]
    rfl
  have hq : queue ≠ [] := (h.busy hf).mp (by simp)
  refine ⟨Nat.zero_le 1, fun v hv => absurd hv List.not_mem_nil, ?_, fun hnil => ?_, fun _ => ⟨rfl, hq⟩, ?_⟩
  · rw [enqueued_append, completed_append, List.map_append, h.order]
    simp [enqueued, completed]
  · rw [hfailed] at hnil
    cases hnil
  · apply h.ended_concat
    simp

end OneWrite

namespace WriteLoop

/-- The law of the queue, and what the session's flag says. -/
structure Inv (s : WriteLoop) (o : List WriteObs) : Prop where
  queue : OneWrite s.session.write_msgs s.outstanding o
  popped : s.popped = (completed o).length
  writing : s.session.writing = !s.outstanding.isEmpty

theorem inv_start (session : TcpSession) : Inv (start session) [] := ⟨OneWrite.start, rfl, rfl⟩

/-- **One handler.** -/
theorem Inv.step {s s' : WriteLoop} {e : WriteEvent} {o o' : List WriteObs} (h : Inv s o)
    (hs : step s e = some (s', o')) : Inv s' (o ++ o') := by
  have hpopped := h.popped
  cases e with
  | deliver msg =>
    cases hs
    rw [deliver_eq]
    rcases hq : s.session.write_msgs with _ | ⟨front, rest⟩
    · have hqueue := h.queue
      rw [hq] at hqueue
      have hfirst := hqueue.first msg
      rw [hqueue.of_nil.1, hpopped]
      refine ⟨hfirst, ?_, rfl⟩
      simp [writes, completed]
    · have hne : s.session.write_msgs ≠ [] := by simp [hq]
      have hbehind := h.queue.enqueue hne msg
      rw [hq] at hbehind
      refine ⟨?_, ?_, ?_⟩
      · simpa [writes] using hbehind
      · simp [writes, completed, hpopped]
      · simpa [writes] using h.writing
  | written i =>
    obtain ⟨w, hw, heq⟩ := Option.map_eq_some_iff.mp hs
    cases heq
    obtain ⟨hout, rfl, -, msg, rest, hq, -⟩ := h.queue.of_outstanding hw
    have hqueue := h.queue
    rw [hq, hout] at hqueue
    have hnext := hqueue.written
    rw [onWritten_eq, hq, hout, hpopped]
    have hcount := (length_completed o w (writes ((completed o).length + 1) (rest.head?.map header).toList)).symm
    rcases rest with _ | ⟨m, rest⟩
    · exact ⟨hnext, hcount, rfl⟩
    · exact ⟨hnext, hcount, rfl⟩
  | writeError i =>
    obtain ⟨w, hw, heq⟩ := Option.map_eq_some_iff.mp hs
    cases heq
    obtain ⟨hout, rfl, -, -⟩ := h.queue.of_outstanding hw
    have hqueue := h.queue
    rw [hout] at hqueue
    rw [hout]
    refine ⟨hqueue.writeError, ?_, rfl⟩
    simp [completed, hpopped]

/-- **The law over runs.** -/
theorem inv_exec {session : TcpSession} {es : List WriteEvent} {s : WriteLoop} {o : List WriteObs}
    (h : Lts.exec step (start session) es = some (s, o)) : Inv s o :=
  Lts.history_rule step (fun _ s o => Inv s o) (inv_start session) (fun _ _ _ _ _ _ hs hstep => hs.step hstep) h

end WriteLoop

namespace ClientWrites

/-- The client's queue as a session's. -/
def loop (c : ClientWrites) : WriteLoop := ⟨c.client.toTcpSession, c.popped, c.outstanding⟩

/-- The messages given to `write(msg)`. -/
def sent (es : List ClientWriteEvent) : List NetPacket :=
  es.filterMap fun | .write msg => some msg | _ => none

/-- What a step of the client is for the queue: nothing, or a step of it. -/
theorem step_loop {c c' : ClientWrites} {e : ClientWriteEvent} {o : List WriteObs} (h : step c e = some (c', o)) :
    (loop c' = loop c ∧ o = [] ∧ c'.client.posted = c.client.posted ++ sent [e]) ∨
    ((∃ e', WriteLoop.step (loop c) e' = some (loop c', o)) ∧ sent [e] = [] ∧
      c.client.posted = enqueued o ++ c'.client.posted) := by
  cases e with
  | write msg =>
    cases h
    exact Or.inl ⟨rfl, rfl, rfl⟩
  | posted =>
    right
    rcases hp : c.client.posted with _ | ⟨msg, rest⟩
    · simp [step, hp] at h
    · have hposted : c.client.onPosted = some (⟨(c.client.toTcpSession.deliver msg).1, rest⟩,
          (c.client.toTcpSession.deliver msg).2) := by
        rw [BoostAsioTcpClient.onPosted, hp]
      simp only [step, hp, hposted, List.head?_cons, Option.some.injEq, Prod.mk.injEq] at h
      obtain ⟨rfl, rfl⟩ := h
      refine ⟨⟨.deliver msg, rfl⟩, rfl, ?_⟩
      show msg :: rest = (msg :: enqueued (List.map .begun _)) ++ rest
      rw [enqueued_begun]
      rfl
  | written i =>
    obtain ⟨w, hw, heq⟩ := Option.map_eq_some_iff.mp h
    cases heq
    refine Or.inr ⟨⟨.written i, Option.map_eq_some_iff.mpr ⟨w, hw, rfl⟩⟩, rfl, ?_⟩
    show c.client.posted = enqueued (List.map .begun _) ++ c.client.posted
    rw [enqueued_begun]
    rfl
  | writeError i =>
    obtain ⟨w, hw, heq⟩ := Option.map_eq_some_iff.mp h
    cases heq
    exact Or.inr ⟨⟨.writeError i, Option.map_eq_some_iff.mpr ⟨w, hw, rfl⟩⟩, rfl, rfl⟩

/-- **A run of the client** is one of the queue, and what was given to `write(msg)` is in it or
posted. -/
theorem exec_loop {client : BoostAsioTcpClient} {es : List ClientWriteEvent} {c : ClientWrites} {o : List WriteObs}
    (h : Lts.exec step (start client) es = some (c, o)) :
    (∃ es', Lts.exec WriteLoop.step (WriteLoop.start client.toTcpSession) es' = some (loop c, o)) ∧
      sent es = enqueued o ++ c.client.posted := by
  refine Lts.history_rule step (fun es c o =>
    (∃ es', Lts.exec WriteLoop.step (WriteLoop.start client.toTcpSession) es' = some (loop c, o)) ∧
      sent es = enqueued o ++ c.client.posted) ⟨⟨[], rfl⟩, rfl⟩ ?_ h
  rintro es c o e c' o' ⟨⟨es', hexec⟩, hsent⟩ hstep
  have hcat : sent (es ++ [e]) = sent es ++ sent [e] := List.filterMap_append
  rw [hcat, hsent]
  rcases step_loop hstep with ⟨hloop, rfl, hposted⟩ | ⟨⟨e', hstep'⟩, hnone, hposted⟩
  · rw [hloop, List.append_nil, hposted, List.append_assoc]
    exact ⟨⟨es', hexec⟩, rfl⟩
  · rw [hnone, hposted, enqueued_append, List.append_nil, List.append_assoc]
    exact ⟨⟨es' ++ [e'], (Lts.exec_concat _).mpr ⟨loop c, o, o', hexec, hstep', rfl⟩⟩, rfl⟩

end ClientWrites

/-! ### The queues of the programs -/

/-- The queue of `s`, and its flag, come of a run of a queue. -/
def Queued (s : TcpSession) : Prop :=
  ∃ t es w o, Lts.exec WriteLoop.step (WriteLoop.start t) es = some (w, o) ∧
    w.session.write_msgs = s.write_msgs ∧ w.session.writing = s.writing

namespace Queued

variable {s t : TcpSession}

theorem start (hq : s.write_msgs = []) (hw : s.writing = false) : Queued s :=
  ⟨s, [], WriteLoop.start s, [], rfl, hq.symm, hw.symm⟩

theorem congr (h : Queued s) (hq : t.write_msgs = s.write_msgs) (hw : t.writing = s.writing) : Queued t := by
  obtain ⟨u, es, w, o, hexec, hqueue, hflag⟩ := h
  exact ⟨u, es, w, o, hexec, hqueue.trans hq.symm, hflag.trans hw.symm⟩

/-- Writes of it do not overlap, and its flag says whether one is outstanding. -/
theorem oneWrite (h : Queued s) :
    ∃ outstanding o, OneWrite s.write_msgs outstanding o ∧ (s.writing = true ↔ outstanding ≠ []) := by
  obtain ⟨u, es, w, o, hexec, hqueue, hflag⟩ := h
  have hinv := WriteLoop.inv_exec hexec
  refine ⟨w.outstanding, o, hqueue ▸ hinv.queue, ?_⟩
  rw [← hflag, hinv.writing]
  simp

theorem deliver (h : Queued s) (msg : NetPacket) : Queued (s.deliver msg).1 := by
  obtain ⟨u, es, w, o, hexec, hqueue, hflag⟩ := h
  refine ⟨u, es ++ [.deliver msg], _, _, (Lts.exec_concat _).mpr ⟨w, o, _, hexec, rfl, rfl⟩, ?_, ?_⟩
  · simp only [deliver_eq, hqueue]
  · simp only [deliver_eq, hqueue, hflag]

/-- Where the flag is set there is a write that may be over. -/
theorem outstanding {w : WriteLoop} {o : List WriteObs} (h : WriteLoop.Inv w o) (hw : w.session.writing = true) :
    ∃ v, w.outstanding[0]? = some v := by
  rw [h.writing] at hw
  rcases hout : w.outstanding with _ | ⟨v, vs⟩
  · rw [hout] at hw
    cases hw
  · exact ⟨v, rfl⟩

theorem written (h : Queued s) (hw : s.writing = true) : Queued s.onWritten.1 := by
  obtain ⟨u, es, w, o, hexec, hqueue, hflag⟩ := h
  obtain ⟨v, hv⟩ := outstanding (WriteLoop.inv_exec hexec) (hflag.trans hw)
  have hstep : WriteLoop.step w (.written 0) = some (_, _) := Option.map_eq_some_iff.mpr ⟨v, hv, rfl⟩
  refine ⟨u, es ++ [.written 0], _, _, (Lts.exec_concat _).mpr ⟨w, o, _, hexec, hstep, rfl⟩, ?_, ?_⟩
  · simp only [onWritten_eq, hqueue]
  · simp only [onWritten_eq, hqueue]

theorem writeError (h : Queued s) (hw : s.writing = true) : Queued { s with writing := false } := by
  obtain ⟨u, es, w, o, hexec, hqueue, hflag⟩ := h
  obtain ⟨v, hv⟩ := outstanding (WriteLoop.inv_exec hexec) (hflag.trans hw)
  have hstep : WriteLoop.step w (.writeError 0) = some (_, _) := Option.map_eq_some_iff.mpr ⟨v, hv, rfl⟩
  refine ⟨u, es ++ [.writeError 0], _, _, (Lts.exec_concat _).mpr ⟨w, o, _, hexec, hstep, rfl⟩, ?_, ?_⟩
  · exact hqueue
  · rfl

end Queued

namespace TcpServer

/-- The queues of all sessions. -/
def AllQueues (S : TcpServer) : Prop := ∀ c s, S.sessions c = some s → Queued s

theorem AllQueues.set {S : TcpServer} (h : AllQueues S) {c : ℕ} {t : TcpSession} (ht : Queued t) :
    AllQueues (S.set c t) :=
  forall_set h ht

theorem AllQueues.deliverAll (sender : ℕ) : ∀ (ds : List (ℕ × NetPacket)) {S : TcpServer}, AllQueues S →
    AllQueues (TcpServer.deliverAll sender S ds).1
  | [], _, h => h
  | d :: ds, S, h => by
    refine AllQueues.deliverAll sender ds ?_
    unfold deliver
    split
    · exact h
    · rename_i s hs
      exact h.set ((h d.1 s hs).deliver d.2)

/-- **The server's queues** are such queues. -/
theorem queues_exec {cfg : ServerConfig} {es : List TcpEvent} {S : TcpServer} {o : List TcpObs}
    (h : exec cfg es = some (S, o)) : AllQueues S := by
  refine Lts.invariant_rule (step cfg) AllQueues (fun c s hs => by simp [start] at hs) ?_ h
  intro S e S' o hS hstep
  cases steps_of_step hstep with
  | refuse hn hr => exact hS.set (.start rfl rfl)
  | join hn hr => exact AllQueues.set (S := S) hS (.start rfl rfl)
  | header hsome hread hlen => exact hS.set ((hS _ _ hsome).congr rfl rfl)
  | @payload id bytes up s hsome hread hlen =>
    have hpayload : AllQueues (afterPayload cfg S id s bytes up) :=
      AllQueues.set (S := S) hS ((hS id s hsome).congr rfl rfl)
    exact hpayload.deliverAll id _
  | readError hsome hread => exact AllQueues.set (S := S) hS ((hS _ _ hsome).congr rfl rfl)
  | written hsome hw => exact hS.set ((hS _ _ hsome).written hw)
  | writeError hsome hw => exact AllQueues.set (S := S) hS ((hS _ _ hsome).writeError hw)

end TcpServer

/-- **The client's queue** is one too. -/
theorem TcpClient.queue_exec {v : Version} {upTime : UInt32} {es : List ClientEvent} {c : TcpClient}
    {o : List ClientObs} (h : TcpClient.exec v upTime es = some (c, o)) : Queued c.client.toTcpSession := by
  refine Lts.invariant_rule TcpClient.step (fun c => Queued c.client.toTcpSession) (.start rfl rfl) ?_ h
  intro c e c' o hc hstep
  cases steps_of_step hstep with
  | posted hp => exact hc.deliver _
  | written hw => exact hc.written hw
  | writeError hw => exact hc.writeError hw
  | _ => exact hc.congr rfl rfl

/-- **Writes do not overlap.** For the session and for the client, over every run of calls and
handlers, in whatever order and with whatever errors: at most one write is outstanding, and
it refers to the front of the queue, which is the first of the messages enqueued whose
write has not completed; those completed are the ones before it, in order. Until a write
fails one is outstanding exactly while the queue is not empty, and after that none is begun.
In every run of the server and of the client their queues are such queues, and the flag says
whether a write is outstanding. -/
theorem one_write :
    (∀ (session : TcpSession) es s o, Lts.exec WriteLoop.step (WriteLoop.start session) es = some (s, o) →
      OneWrite s.session.write_msgs s.outstanding o) ∧
    (∀ (client : BoostAsioTcpClient) es c o, Lts.exec ClientWrites.step (ClientWrites.start client) es = some (c, o) →
      OneWrite c.client.write_msgs c.outstanding o ∧ ClientWrites.sent es = enqueued o ++ c.client.posted) ∧
    (∀ cfg es S o, TcpServer.exec cfg es = some (S, o) → ∀ id s, S.sessions id = some s →
      ∃ outstanding o', OneWrite s.write_msgs outstanding o' ∧ (s.writing = true ↔ outstanding ≠ [])) ∧
    ∀ v upTime es c o, TcpClient.exec v upTime es = some (c, o) →
      ∃ outstanding o', OneWrite c.client.write_msgs outstanding o' ∧ (c.client.writing = true ↔ outstanding ≠ []) := by
  refine ⟨fun session es s o h => (WriteLoop.inv_exec h).queue, fun client es c o h => ?_,
    fun cfg es S o h id s hs => (TcpServer.queues_exec h id s hs).oneWrite,
    fun v upTime es c o h => (TcpClient.queue_exec h).oneWrite⟩
  obtain ⟨⟨es', hexec⟩, hsent⟩ := ClientWrites.exec_loop h
  exact ⟨(WriteLoop.inv_exec hexec).queue, hsent⟩

/-- A session before its first message. -/
def sampleSession : TcpSession := ⟨ofType sampleVersion 0 .Undefined 0, [], .header, false⟩

/-- Two messages for it. -/
def sampleMessage (sn : UInt32) : NetPacket := ofType sampleVersion 0 .TextMessage sn

/-- Two messages, the second while the first is being written: the first is written, and the write
of the second, begun then, fails and leaves it in the queue. -/
theorem one_write_failed : ∃ s o c o',
    Lts.exec WriteLoop.step (WriteLoop.start sampleSession)
      [.deliver (sampleMessage 1), .deliver (sampleMessage 2), .written 0, .writeError 0] = some (s, o) ∧
    Lts.exec ClientWrites.step (ClientWrites.start ⟨sampleSession, []⟩)
      [.write (sampleMessage 1), .write (sampleMessage 2), .posted, .posted, .written 0, .writeError 0] = some (c, o') ∧
    (completed o).map Write.bytes = [(sampleMessage 1).header] ∧ s.session.write_msgs = [sampleMessage 2] ∧
    (failed o').map Write.place = [1] ∧
    OneWrite s.session.write_msgs s.outstanding o ∧ OneWrite c.client.write_msgs c.outstanding o' := by
  have hserver : Lts.exec WriteLoop.step (WriteLoop.start sampleSession)
    [.deliver (sampleMessage 1), .deliver (sampleMessage 2), .written 0, .writeError 0] = some (_, _) := rfl
  have hclient : Lts.exec ClientWrites.step (ClientWrites.start ⟨sampleSession, []⟩)
    [.write (sampleMessage 1), .write (sampleMessage 2), .posted, .posted, .written 0, .writeError 0] = some (_, _) := rfl
  exact ⟨_, _, _, _, hserver, hclient, rfl, rfl, rfl, one_write.1 _ _ _ _ hserver, (one_write.2.1 _ _ _ _ hclient).1⟩

end EasyVoiceCall
