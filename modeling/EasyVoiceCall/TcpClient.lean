/-
# The TCP client

`client_essential/TcpClient.hpp`. A `BoostAsioTcpClient` has the buffers and the
two loops of the server's `TcpSession`: the header, the payload it announces,
and so on; the front of the queue, and when it is written the next. `send`
posts a handler to its io_service, which puts the packet in the queue.

One direction of a connection is such a queue at one side, a read buffer at the
other and a byte stream between them: a `Pipe` of packets (`pipe`). What the
handlers of the two sides do is what the pipe's operations do (`Linked`).

Key definitions: `BoostAsioTcpClient`, `pipe`, `Linked`.
Key theorems: `Linked.deliver`, `Linked.written`, `Linked.onHeader`, `Linked.onPayload`,
`Linked.drained`.
-/
import EasyVoiceCall.Lib.Pipe
import EasyVoiceCall.MakePacket
import EasyVoiceCall.TcpServer

namespace EasyVoiceCall

open Buffer NetPacket

/-! ### The client -/

/-- `BoostAsioTcpClient`: its read buffer, its write queue and its two loops are those of a
`TcpSession`; `posted` are the packets of the handlers in its io_service's queue. -/
structure BoostAsioTcpClient extends TcpSession where
  posted : List NetPacket

namespace BoostAsioTcpClient

/-- `write(msg)`, called by `TcpClient::send`: posts a handler with a copy of the packet. -/
def write (c : BoostAsioTcpClient) (msg : NetPacket) : BoostAsioTcpClient :=
  { c with posted := c.posted ++ [msg] }

/-- The handler `write(msg)` posted. -/
def onPosted (c : BoostAsioTcpClient) : Option (BoostAsioTcpClient × List Bytes) :=
  match c.posted with
  | [] => none
  | msg :: posted => some (⟨(c.toTcpSession.deliver msg).1, posted⟩, (c.toTcpSession.deliver msg).2)

/-- The handler of `write()` without an error. -/
def onWritten (c : BoostAsioTcpClient) : BoostAsioTcpClient × List Bytes :=
  (⟨c.toTcpSession.onWritten.1, c.posted⟩, c.toTcpSession.onWritten.2)

/-- The handler of `readHeader` without an error. -/
def onHeader (c : BoostAsioTcpClient) (bytes : Bytes) : BoostAsioTcpClient :=
  ⟨c.toTcpSession.onHeader bytes, c.posted⟩

/-- The handler of `readPayload` without an error, and the packet that
`onDataReceived_` is called with. -/
def onPayload (c : BoostAsioTcpClient) (bytes : Bytes) : BoostAsioTcpClient × NetPacket :=
  (⟨c.toTcpSession.onPayload bytes, c.posted⟩, (c.toTcpSession.onPayload bytes).read_msg)

end BoostAsioTcpClient

/-- How many bytes the outstanding `async_read` asks for. -/
def TcpSession.want (s : TcpSession) : ℕ :=
  match s.reading with
  | .nothing => 0
  | .header => FixHeaderLength
  | .payload => s.read_msg.payloadLength

namespace TcpSession

variable {s : TcpSession} {b : Bytes}

/-- Who wants more bytes has a read outstanding. -/
theorem reading_of_lt_want {n : ℕ} (h : n < s.want) : s.reading ≠ .nothing := by
  intro hr
  rw [want, hr] at h
  exact absurd h (Nat.not_lt_zero n)

/-- The header read is the one that came. -/
theorem take_onHeader (hb : b.length = FixHeaderLength) : (s.onHeader b).read_msg.header.take FixHeaderLength = b := by
  show ((s.read_msg.setHeader b).checkHeader.1).header.take FixHeaderLength = b
  rw [take_checkHeader, take_setHeader _ hb]

/-- The payload read is behind the header. -/
theorem header_onPayload (hb : b.length = s.read_msg.payloadLength) :
    (s.onPayload b).read_msg.header = s.read_msg.header.take FixHeaderLength ++ b := header_setPayload hb

end TcpSession

/-! ### One direction of a connection -/

/-- Packets as frames of a stream. -/
def NetPacket.codec : Pipe.Codec NetPacket UInt8 where
  bytes := header
  size := FixHeaderLength
  need h := (lengthField h).toNat
  size_pos := by decide

theorem framed_iff {p : NetPacket} : codec.Framed p ↔ LengthOK p.wholePacket := by
  show p.wholePacket.length = FixHeaderLength + (lengthField (p.wholePacket.take FixHeaderLength)).toNat ↔ _
  rw [lengthField_take]
  rfl

/-- The write queue of one side, the line, and the header that the other side has in its
read buffer while it reads the payload. -/
def pipe (w r : TcpSession) (l : Pipe.Line UInt8) : Pipe NetPacket UInt8 where
  queue := w.write_msgs
  head := if r.reading = .payload then some (r.read_msg.header.take FixHeaderLength) else none
  line := l

/-- The packets `P` are under way from `w` to `r`. -/
structure Linked (w r : TcpSession) (l : Pipe.Line UInt8) (P : List NetPacket) : Prop where
  writing : w.writing = !w.write_msgs.isEmpty
  reading : r.reading ≠ .nothing
  sized : r.reading = .payload → LengthOK r.read_msg.wholePacket
  holds : (pipe w r l).Holds codec P

theorem deliver_eq (w : TcpSession) (msg : NetPacket) : w.deliver msg =
    ({ w with write_msgs := w.write_msgs ++ [msg], writing := w.write_msgs.isEmpty || w.writing },
      if w.write_msgs = [] then [msg.header] else []) := by
  obtain ⟨m, q, r, b⟩ := w
  cases q <;> rfl

theorem onWritten_eq (w : TcpSession) : w.onWritten =
    ({ w with write_msgs := w.write_msgs.tail, writing := !w.write_msgs.tail.isEmpty },
      (w.write_msgs.tail.head?.map header).toList) := by
  obtain ⟨m, q, r, b⟩ := w
  rcases q with _ | ⟨x, _ | ⟨y, q⟩⟩ <;> rfl

namespace Linked

variable {w w' r r' : TcpSession} {l : Pipe.Line UInt8} {P : List NetPacket}

/-- Only what the writer writes and what the reader reads matters. -/
theorem congr (h : Linked w r l P) (hq : w'.write_msgs = w.write_msgs) (hw : w'.writing = w.writing)
    (hm : r'.read_msg = r.read_msg) (hr : r'.reading = r.reading) : Linked w' r' l P := by
  refine ⟨?_, ?_, ?_, ?_⟩
  · rw [hw, hq]
    exact h.writing
  · rw [hr]
    exact h.reading
  · rw [hr, hm]
    exact h.sized
  · have hp : pipe w' r' l = pipe w r l := by rw [pipe, pipe, hq, hm, hr]
    rw [hp]
    exact h.holds

theorem want_pipe (h : Linked w r l P) : (pipe w r l).want codec = r.want := by
  unfold Pipe.want TcpSession.want pipe
  rcases hr : r.reading with _ | _ | _
  · exact absurd hr h.reading
  · rfl
  · exact (payloadLength_of_lengthOK (h.sized hr)).symm

theorem deliver (h : Linked w r l P) {msg : NetPacket} (hm : LengthOK msg.wholePacket) :
    Linked (w.deliver msg).1 r (l.write (w.deliver msg).2) (P ++ [msg]) := by
  have hw := h.writing
  rw [deliver_eq]
  refine ⟨?_, h.reading, h.sized, h.holds.enqueue (framed_iff.mpr hm)⟩
  show (w.write_msgs.isEmpty || w.writing) = !(w.write_msgs ++ [msg]).isEmpty
  rw [hw]
  simp

theorem transmit (h : Linked w r l P) {i n : ℕ} {b : Bytes} (hb : l.writes[i]? = some b) :
    Linked w r (l.transmit i n) P :=
  ⟨h.writing, h.reading, h.sized, h.holds.transmit hb⟩

theorem written (h : Linked w r l P) {i : ℕ} (hb : l.writes[i]? = some []) :
    Linked w.onWritten.1 r ((l.endWrite i).write w.onWritten.2) P := by
  rw [onWritten_eq]
  exact ⟨rfl, h.reading, h.sized, h.holds.written hb⟩

theorem arrive (h : Linked w r l P) {n : ℕ} (hn : l.got.length + n ≤ r.want) :
    Linked w r (l.arrive n) P := by
  refine ⟨h.writing, h.reading, h.sized, h.holds.arrive ?_⟩
  rw [h.want_pipe]
  exact hn

theorem onHeader (h : Linked w r l P) (hr : r.reading = .header) (hgot : l.got.length = FixHeaderLength) :
    Linked w (r.onHeader l.got) l.endRead P := by
  have hhead : (pipe w r l).head = none := by simp [pipe, hr]
  refine ⟨h.writing, by simp [TcpSession.onHeader], fun _ => lengthOK_checkHeader _, ?_⟩
  have hp : pipe w (r.onHeader l.got) l.endRead = (pipe w r l).readHead := by
    unfold pipe
    rw [TcpSession.take_onHeader hgot]
    rfl
  rw [hp]
  exact h.holds.readHead hhead hgot

/-- **A packet read to its end** is the first under way. -/
theorem onPayload (h : Linked w r l P) (hr : r.reading = .payload)
    (hgot : l.got.length = r.read_msg.payloadLength) :
    ∃ P', P = (r.onPayload l.got).read_msg :: P' ∧ Linked w (r.onPayload l.got) l.endRead P' := by
  have hhead : (pipe w r l).head = some (r.read_msg.header.take FixHeaderLength) := by simp [pipe, hr]
  have hneed : l.got.length = codec.need (r.read_msg.header.take FixHeaderLength) := by
    rw [hgot, payloadLength_of_lengthOK (h.sized hr)]
    rfl
  obtain ⟨p, P', rfl, hbytes, hholds⟩ := h.holds.readBody hhead hneed
  have hp : p = (r.onPayload l.got).read_msg := by
    apply NetPacket.ext
    show p.header = (r.onPayload l.got).read_msg.header
    rw [TcpSession.header_onPayload hgot]
    exact hbytes
  refine ⟨P', by rw [hp], h.writing, by simp [TcpSession.onPayload], ?_, hholds⟩
  intro hc
  cases hc

/-- Where the write is over, nothing is on the way and the read is short of bytes, nothing
is under way. -/
theorem drained (h : Linked w r l P) (hqueue : w.write_msgs = []) (hwire : l.wire = [])
    (hgot : l.got.length < r.want) : P = [] := by
  refine h.holds.drained hqueue hwire ?_
  rw [h.want_pipe]
  exact hgot

end Linked

end EasyVoiceCall
