/-
# Frames over a byte stream

A sender keeps a queue of frames and has the bytes of the first of them written
to a stream; when that write is complete, the next. A receiver reads a header
of a fixed size and then as many bytes as the header announces. The stream
(`Line`) may split what is written, and what is read, at any byte.

A `Pipe` is both ends and the line between them. `Holds P` says that it holds
the frames `P`, from the one being read to the last in the queue, that it has
one write outstanding at most, and that no read is longer than asked for. Each
operation keeps it: an enqueued frame goes to the back of `P`, a complete read
takes the first off, and where nothing is left to do `P` is empty.

Key definitions: `Pipe.Line`, `Pipe.Codec`, `Pipe.Holds`.
Key theorems: `Pipe.Holds.enqueue`, `Pipe.Holds.transmit`, `Pipe.Holds.written`,
`Pipe.Holds.arrive`, `Pipe.Holds.readHead`, `Pipe.Holds.readBody`, `Pipe.Holds.drained`.
-/
import Mathlib.Data.List.Basic
import Mathlib.Data.List.Flatten

/-! ### The stream -/

/-- One direction of a stream: what is left of each write outstanding, the bytes on
the way, and what has been read by the read outstanding. -/
structure Pipe.Line (β : Type*) where
  writes : List (List β)
  wire : List β
  got : List β

namespace Pipe.Line

variable {β : Type*}

/-- Nothing written. -/
def idle : Line β := ⟨[], [], []⟩

/-- Writes are begun. -/
def write (l : Line β) (bs : List (List β)) : Line β := { l with writes := l.writes ++ bs }

/-- `n` bytes of the write `i` go on their way. -/
def transmit (l : Line β) (i n : ℕ) : Line β :=
  { l with writes := l.writes.modify i (List.drop n), wire := l.wire ++ (l.writes[i]?.getD []).take n }

/-- The write `i` is over. -/
def endWrite (l : Line β) (i : ℕ) : Line β := { l with writes := l.writes.eraseIdx i }

/-- `n` bytes are read. -/
def arrive (l : Line β) (n : ℕ) : Line β :=
  { l with wire := l.wire.drop n, got := l.got ++ l.wire.take n }

/-- The read is over. -/
def endRead (l : Line β) : Line β := { l with got := [] }

end Pipe.Line

/-! ### Frames on it -/

/-- How a frame is bytes: a header of `size` bytes, which says how many follow it. -/
structure Pipe.Codec (F β : Type*) where
  bytes : F → List β
  size : ℕ
  need : List β → ℕ
  size_pos : 0 < size

/-- As many bytes follow the header as it says. -/
def Pipe.Codec.Framed {F β : Type*} (c : Pipe.Codec F β) (f : F) : Prop :=
  (c.bytes f).length = c.size + c.need ((c.bytes f).take c.size)

/-- A line, the queue of its writer and, where its reader is at a body, the header that
was read before. -/
structure Pipe (F β : Type*) where
  queue : List F
  head : Option (List β)
  line : Pipe.Line β

namespace Pipe

variable {F β : Type*} (c : Codec F β)

/-- How many bytes are asked for. -/
def want (p : Pipe F β) : ℕ :=
  match p.head with
  | none => c.size
  | some h => c.need h

/-- A frame is put in the queue, and written if it is the only one. -/
def enqueue (p : Pipe F β) (f : F) : Pipe F β :=
  { p with
    queue := p.queue ++ [f]
    line := p.line.write (if p.queue = [] then [c.bytes f] else []) }

/-- The write `i` is complete: the first frame leaves the queue, the next is written. -/
def written (p : Pipe F β) (i : ℕ) : Pipe F β :=
  { p with
    queue := p.queue.tail
    line := (p.line.endWrite i).write (p.queue.tail.head?.map c.bytes).toList }

/-- A header is complete. -/
def readHead (p : Pipe F β) : Pipe F β := { p with head := some p.line.got, line := p.line.endRead }

/-- A body is complete. -/
def readBody (p : Pipe F β) : Pipe F β := { p with head := none, line := p.line.endRead }

/-- The frames `P` are under way, the first of them first. -/
structure Holds (p : Pipe F β) (P : List F) : Prop where
  framed : ∀ f ∈ P, c.Framed f
  bytes : P.flatMap c.bytes = p.head.getD [] ++ p.line.got ++ p.line.wire ++ p.line.writes.flatten ++
    p.queue.tail.flatMap c.bytes
  one : p.line.writes.length = if p.queue = [] then 0 else 1
  head_length : ∀ h, p.head = some h → h.length = c.size
  got_le : p.line.got.length ≤ p.want c

variable {c} {p : Pipe F β} {P : List F}

/-- Nothing is under way at the start. -/
theorem holds_nil : Holds c (⟨[], none, .idle⟩ : Pipe F β) [] :=
  ⟨by simp, rfl, rfl, by simp, Nat.zero_le _⟩

namespace Holds

/-- A write outstanding is the only one. -/
theorem eq_singleton (h : Holds c p P) {i : ℕ} {w : List β} (hw : p.line.writes[i]? = some w) :
    i = 0 ∧ p.line.writes = [w] ∧ p.queue ≠ [] := by
  have hone := h.one
  have hlt : i < p.line.writes.length := (List.getElem?_eq_some_iff.mp hw).1
  split at hone
  · omega
  · rename_i hq
    obtain ⟨x, hx⟩ := List.length_eq_one_iff.mp hone
    have hi : i = 0 := by omega
    rw [hx, hi] at hw
    cases hw
    exact ⟨hi, hx, hq⟩

theorem enqueue (h : Holds c p P) {f : F} (hf : c.Framed f) : Holds c (p.enqueue c f) (P ++ [f]) := by
  have hone := h.one
  refine ⟨?_, ?_, ?_, h.head_length, h.got_le⟩
  · intro g hg
    rcases List.mem_append.mp hg with hg | hg
    · exact h.framed g hg
    · rw [List.mem_singleton.mp hg]
      exact hf
  · -- The frame is behind all other bytes, in a write of its own or in the queue.
    rw [List.flatMap_append, h.bytes]
    rcases hq : p.queue with _ | ⟨g, q⟩
    · rw [if_pos hq, List.length_eq_zero_iff] at hone
      simp [Pipe.enqueue, Line.write, hq, hone]
    · simp [Pipe.enqueue, Line.write, hq]
  · rcases hq : p.queue with _ | ⟨g, q⟩
    · rw [if_pos hq] at hone
      simp [Pipe.enqueue, Line.write, hq, hone]
    · rw [if_neg (by simp [hq])] at hone
      simp [Pipe.enqueue, Line.write, hq, hone]

theorem transmit (h : Holds c p P) {i n : ℕ} {w : List β} (hw : p.line.writes[i]? = some w) :
    Holds c { p with line := p.line.transmit i n } P := by
  obtain ⟨hi, hx, hq⟩ := h.eq_singleton hw
  have hb := h.bytes
  rw [hx, List.flatten_singleton] at hb
  refine ⟨h.framed, ?_, ?_, h.head_length, h.got_le⟩
  · rw [hb]
    simp [Line.transmit, hi, hx]
  · rw [if_neg hq]
    simp [Line.transmit, hx]

theorem written (h : Holds c p P) {i : ℕ} (hw : p.line.writes[i]? = some []) :
    Holds c (p.written c i) P := by
  obtain ⟨hi, hx, hq⟩ := h.eq_singleton hw
  have hb := h.bytes
  rw [hx] at hb
  refine ⟨h.framed, ?_, ?_, h.head_length, h.got_le⟩
  · rw [hb]
    rcases ht : p.queue.tail with _ | ⟨g, q⟩ <;>
      simp [Pipe.written, Line.write, Line.endWrite, hi, hx, ht]
  · rcases ht : p.queue.tail with _ | ⟨g, q⟩ <;>
      simp [Pipe.written, Line.write, Line.endWrite, hi, hx, ht]

theorem arrive (h : Holds c p P) {n : ℕ} (hn : p.line.got.length + n ≤ p.want c) :
    Holds c { p with line := p.line.arrive n } P := by
  refine ⟨h.framed, ?_, h.one, h.head_length, ?_⟩
  · rw [h.bytes]
    simp [Line.arrive]
  · show (p.line.got ++ p.line.wire.take n).length ≤ p.want c
    rw [List.length_append, List.length_take]
    omega

theorem readHead (h : Holds c p P) (hhead : p.head = none) (hgot : p.line.got.length = c.size) :
    Holds c p.readHead P := by
  refine ⟨h.framed, ?_, h.one, ?_, Nat.zero_le _⟩
  · rw [h.bytes, hhead]
    simp [Pipe.readHead, Line.endRead]
  · intro x hx
    cases hx
    exact hgot

/-- The first frame under way has the length that the header read before says. -/
theorem first (h : Holds c p P) {x : List β} (hhead : p.head = some x) :
    ∃ f P', P = f :: P' ∧ (c.bytes f).length = c.size + c.need x := by
  have hlen := h.head_length x hhead
  have hpos := c.size_pos
  have hb := h.bytes
  rw [hhead, Option.getD_some, List.append_assoc, List.append_assoc, List.append_assoc] at hb
  rcases P with _ | ⟨f, P'⟩
  · have hnil := congrArg List.length hb
    simp only [List.flatMap_nil, List.length_nil, List.length_append] at hnil
    omega
  · have hf := h.framed f List.mem_cons_self
    have htake : (c.bytes f).take c.size = x := by
      have ht := congrArg (List.take c.size) hb
      rw [List.flatMap_cons, List.take_append_of_le_length (by rw [hf]; omega), ← hlen,
        List.take_left, hlen] at ht
      exact ht
    rw [Codec.Framed, htake] at hf
    exact ⟨f, P', rfl, hf⟩

/-- **A complete body.** The header and the body are the first frame under way. -/
theorem readBody (h : Holds c p P) {x : List β} (hhead : p.head = some x)
    (hgot : p.line.got.length = c.need x) :
    ∃ f P', P = f :: P' ∧ c.bytes f = x ++ p.line.got ∧ Holds c p.readBody P' := by
  obtain ⟨f, P', rfl, hflen⟩ := h.first hhead
  have hb : c.bytes f ++ P'.flatMap c.bytes =
      (x ++ p.line.got) ++ (p.line.wire ++ p.line.writes.flatten ++ p.queue.tail.flatMap c.bytes) := by
    have hbytes := h.bytes
    rw [hhead, Option.getD_some, List.flatMap_cons] at hbytes
    simpa only [List.append_assoc] using hbytes
  have hlen : (c.bytes f).length = (x ++ p.line.got).length := by
    rw [hflen, List.length_append, h.head_length x hhead, hgot]
  obtain ⟨hf, hrest⟩ := List.append_inj hb hlen
  refine ⟨f, P', rfl, hf, fun g hg => h.framed g (List.mem_cons_of_mem _ hg), ?_, h.one, ?_, Nat.zero_le _⟩
  · rw [hrest]
    simp [Pipe.readBody, Line.endRead]
  · intro y hy
    cases hy

/-- **Where nothing is left to do, nothing is under way**: the queue is written out, all
bytes are read, and the read outstanding is short of some. -/
theorem drained (h : Holds c p P) (hqueue : p.queue = []) (hwire : p.line.wire = [])
    (hgot : p.line.got.length < p.want c) : P = [] := by
  have hone := h.one
  rw [if_pos hqueue, List.length_eq_zero_iff] at hone
  have hb := h.bytes
  rw [hwire, hone, hqueue] at hb
  simp only [List.append_nil, List.flatten_nil, List.tail_nil, List.flatMap_nil] at hb
  rcases P with _ | ⟨f, P'⟩
  · rfl
  · exfalso
    have hlen := congrArg List.length hb
    rw [List.flatMap_cons, List.length_append, List.length_append] at hlen
    unfold want at hgot
    rcases hhead : p.head with _ | x
    · have hf := h.framed f List.mem_cons_self
      simp only [hhead, Option.getD_none, List.length_nil] at hlen hgot
      rw [Codec.Framed] at hf
      omega
    · obtain ⟨g, P'', heq, hflen⟩ := h.first hhead
      obtain ⟨rfl, rfl⟩ := List.cons_eq_cons.mp heq
      have hx := h.head_length x hhead
      simp only [hhead, Option.getD_some] at hlen hgot
      omega

end Holds
end Pipe
