/-
# What the TCP client says of its connection

`TcpClient` in `client_essential/TcpClient.hpp`, with the `BoostAsioTcpClient` it makes.
Its io_service runs one handler at a time: that of `async_connect`, those of the reads
and of the write, and the ones posted by `send` and by `close`. A run is a list of these
(`ClientEvent`), each where its operation is outstanding or posted.

Five handlers close the socket; the flag that `isConnected` returns is set by the first
and is never reset. So it says what is true as long as none of them has to close a
connection (`connected_iff`).

Key definitions: `TcpClient.step`, `Up`.
Key theorems: `TcpClient.exec_prefix`, `connected_iff`.
-/
import EasyVoiceCall.Lib.Machine
import EasyVoiceCall.TcpClient

namespace EasyVoiceCall

open Buffer NetPacket

/-- `TcpClient` and its `BoostAsioTcpClient`: whether `async_connect` is outstanding, and how
many handlers `close` has posted. -/
structure TcpClient where
  client : BoostAsioTcpClient
  connecting : Bool
  closing : ℕ
  isConnected_ : Bool

/-- A handler that runs, or a call of `send` or `close`. -/
inductive ClientEvent
  | connected
  | connectError
  | readHeader (bytes : Bytes)
  | readPayload (bytes : Bytes)
  | readError
  | send (netPacket : NetPacket)
  | posted
  | written
  | writeError
  | close
  | closePosted

/-- What an observer sees: the connection made, the socket closed, a call of
`onDataReceived_`, bytes given to `async_write`. -/
inductive ClientObs
  | connected
  | closed
  | received (netPacket : NetPacket)
  | wrote (bytes : Bytes)
  deriving DecidableEq

namespace TcpClient

/-- The constructor of `BoostAsioTcpClient` has called `async_connect`. -/
def init (v : Version) (upTime : UInt32) : TcpClient :=
  ⟨⟨⟨ofType v upTime .Undefined 0, [], .nothing, false⟩, []⟩, true, 0, false⟩

def isConnected (c : TcpClient) : Bool := c.isConnected_

def send (c : TcpClient) (netPacket : NetPacket) : TcpClient := { c with client := c.client.write netPacket }

/-- One handler or call; `none` where there is nothing to handle. -/
def step (c : TcpClient) : ClientEvent → Option (TcpClient × List ClientObs)
  | .connected =>
    if c.connecting then
      some ({ c with connecting := false, isConnected_ := true, client := { c.client with reading := .header } },
        [.connected])
    else none
  | .connectError => if c.connecting then some ({ c with connecting := false }, [.closed]) else none
  | .readHeader bytes =>
    if c.client.reading = .header ∧ bytes.length = FixHeaderLength then
      some ({ c with client := c.client.onHeader bytes }, [])
    else none
  | .readPayload bytes =>
    if c.client.reading = .payload ∧ bytes.length = c.client.read_msg.payloadLength then
      some ({ c with client := (c.client.onPayload bytes).1 }, [.received (c.client.onPayload bytes).2])
    else none
  | .readError =>
    if c.client.reading = .nothing then none
    else some ({ c with client := { c.client with reading := .nothing } }, [.closed])
  | .send netPacket => some (c.send netPacket, [])
  | .posted => c.client.onPosted.map fun r => ({ c with client := r.1 }, r.2.map .wrote)
  | .written =>
    if c.client.writing then
      some ({ c with client := c.client.onWritten.1 }, c.client.onWritten.2.map .wrote)
    else none
  | .writeError =>
    if c.client.writing then some ({ c with client := { c.client with writing := false } }, [.closed]) else none
  | .close => some ({ c with closing := c.closing + 1 }, [])
  | .closePosted => if 0 < c.closing then some ({ c with closing := c.closing - 1 }, [.closed]) else none

/-- A run of a new client. -/
abbrev exec (v : Version) (upTime : UInt32) (es : List ClientEvent) : Option (TcpClient × List ClientObs) :=
  Lts.exec step (init v upTime) es

/-- The front of a run is one. -/
theorem exec_prefix {v : Version} {upTime : UInt32} {pre es : List ClientEvent} {c : TcpClient} {o : List ClientObs}
    (h : exec v upTime es = some (c, o)) (hpre : pre <+: es) : ∃ c₁ o₁, exec v upTime pre = some (c₁, o₁) := by
  obtain ⟨post, rfl⟩ := hpre
  obtain ⟨c₁, o₁, o₂, h₁, -, -⟩ := (Lts.exec_append_iff step).mp h
  exact ⟨c₁, o₁, h₁⟩

/-! ### What a step does -/

/-- The handlers as a relation, one constructor for each way one can go. -/
inductive Steps (c : TcpClient) : ClientEvent → TcpClient → List ClientObs → Prop
  | connected : c.connecting = true → Steps c .connected
      { c with connecting := false, isConnected_ := true, client := { c.client with reading := .header } } [.connected]
  | connectError : c.connecting = true → Steps c .connectError { c with connecting := false } [.closed]
  | header {bytes} : c.client.reading = .header → bytes.length = FixHeaderLength →
      Steps c (.readHeader bytes) { c with client := c.client.onHeader bytes } []
  | payload {bytes} : c.client.reading = .payload → bytes.length = c.client.read_msg.payloadLength →
      Steps c (.readPayload bytes) { c with client := (c.client.onPayload bytes).1 }
        [.received (c.client.onPayload bytes).2]
  | readError : c.client.reading ≠ .nothing →
      Steps c .readError { c with client := { c.client with reading := .nothing } } [.closed]
  | send {netPacket} : Steps c (.send netPacket) (c.send netPacket) []
  | posted {msg rest} : c.client.posted = msg :: rest →
      Steps c .posted { c with client := ⟨(c.client.toTcpSession.deliver msg).1, rest⟩ }
        ((c.client.toTcpSession.deliver msg).2.map .wrote)
  | written : c.client.writing = true →
      Steps c .written { c with client := c.client.onWritten.1 } (c.client.onWritten.2.map .wrote)
  | writeError : c.client.writing = true →
      Steps c .writeError { c with client := { c.client with writing := false } } [.closed]
  | close : Steps c .close { c with closing := c.closing + 1 } []
  | closePosted : 0 < c.closing → Steps c .closePosted { c with closing := c.closing - 1 } [.closed]

/-- **Every step, said once.** -/
theorem steps_of_step {c c' : TcpClient} {e : ClientEvent} {o : List ClientObs} (h : step c e = some (c', o)) :
    Steps c e c' o := by
  cases e with
  | connected =>
    obtain ⟨hc, heq⟩ := Option.ite_none_right_eq_some.mp h
    cases heq
    exact .connected hc
  | connectError =>
    obtain ⟨hc, heq⟩ := Option.ite_none_right_eq_some.mp h
    cases heq
    exact .connectError hc
  | readHeader bytes =>
    obtain ⟨hc, heq⟩ := Option.ite_none_right_eq_some.mp h
    cases heq
    exact .header hc.1 hc.2
  | readPayload bytes =>
    obtain ⟨hc, heq⟩ := Option.ite_none_right_eq_some.mp h
    cases heq
    exact .payload hc.1 hc.2
  | readError =>
    obtain ⟨hc, heq⟩ := Option.ite_none_left_eq_some.mp h
    cases heq
    exact .readError hc
  | send netPacket =>
    cases h
    exact .send
  | posted =>
    obtain ⟨r, hr, heq⟩ := Option.map_eq_some_iff.mp h
    rcases hp : c.client.posted with _ | ⟨msg, rest⟩
    · rw [BoostAsioTcpClient.onPosted, hp] at hr
      cases hr
    · rw [BoostAsioTcpClient.onPosted, hp] at hr
      cases hr
      cases heq
      exact .posted hp
  | written =>
    obtain ⟨hc, heq⟩ := Option.ite_none_right_eq_some.mp h
    cases heq
    exact .written hc
  | writeError =>
    obtain ⟨hc, heq⟩ := Option.ite_none_right_eq_some.mp h
    cases heq
    exact .writeError hc
  | close =>
    cases h
    exact .close
  | closePosted =>
    obtain ⟨hc, heq⟩ := Option.ite_none_right_eq_some.mp h
    cases heq
    exact .closePosted hc

end TcpClient

/-- The handlers with `socket_.close()` in them, where they come to it. -/
def ClientEvent.closes : ClientEvent → Bool
  | .connectError | .readError | .writeError | .closePosted => true
  | _ => false

/-! ### Whether there is a connection -/

/-- The connection has been established, and the socket not been closed since. -/
def Up (o : List ClientObs) : Prop := ∃ pre post, o = pre ++ .connected :: post ∧ ClientObs.closed ∉ post

theorem not_up_nil : ¬ Up [] := by
  rintro ⟨pre, post, h, -⟩
  simp at h

theorem up_connected (o : List ClientObs) : Up (o ++ [.connected]) := ⟨o, [], rfl, List.not_mem_nil⟩

theorem not_up_closed (o : List ClientObs) : ¬ Up (o ++ [.closed]) := by
  rintro ⟨pre, post, h, hpost⟩
  rcases List.eq_nil_or_concat post with rfl | ⟨post, x, rfl⟩
  · cases (List.append_inj' h rfl).2
  · rw [List.concat_eq_append, ← List.cons_append, ← List.append_assoc] at h
    cases (List.append_inj' h rfl).2
    exact hpost (by simp)

/-- What neither makes nor closes a connection. -/
theorem up_append {o o' : List ClientObs} (hc : ClientObs.connected ∉ o') (hd : ClientObs.closed ∉ o') :
    Up (o ++ o') ↔ Up o := by
  constructor
  · rintro ⟨pre, post, h, hpost⟩
    rcases List.append_eq_append_iff.mp h with ⟨as, rfl, rfl⟩ | ⟨bs, rfl, h'⟩
    · exact absurd (by simp) hc
    · cases bs with
      | nil =>
        rw [List.nil_append] at h'
        exact absurd (h' ▸ List.mem_cons_self) hc
      | cons b bs =>
        obtain ⟨rfl, hrest⟩ := List.cons_eq_cons.mp h'
        refine ⟨pre, bs, rfl, fun hm => hpost ?_⟩
        rw [hrest]
        exact List.mem_append_left _ hm
  · rintro ⟨pre, post, rfl, hpost⟩
    refine ⟨pre, post ++ o', by simp, fun hm => ?_⟩
    exact (List.mem_append.mp hm).elim hpost hd

namespace TcpClient

/-- What a handler does to the flag and to the connection. -/
theorem step_link {c c' : TcpClient} {e : ClientEvent} {o : List ClientObs} (hs : Steps c e c' o) :
    (e.closes = false ∧ c'.isConnected_ = true ∧ o = [.connected]) ∨
    (e.closes = true ∧ c'.isConnected_ = c.isConnected_ ∧ o = [.closed]) ∨
    (e.closes = false ∧ c'.isConnected_ = c.isConnected_ ∧ ClientObs.connected ∉ o ∧ ClientObs.closed ∉ o) := by
  cases hs with
  | connected hc => exact Or.inl ⟨rfl, rfl, rfl⟩
  | connectError hc => exact Or.inr (Or.inl ⟨rfl, rfl, rfl⟩)
  | header hr hlen => exact Or.inr (Or.inr ⟨rfl, rfl, by simp, by simp⟩)
  | payload hr hlen => exact Or.inr (Or.inr ⟨rfl, rfl, by simp, by simp⟩)
  | readError hr => exact Or.inr (Or.inl ⟨rfl, rfl, rfl⟩)
  | send => exact Or.inr (Or.inr ⟨rfl, rfl, by simp, by simp⟩)
  | posted hp => exact Or.inr (Or.inr ⟨rfl, rfl, by simp, by simp⟩)
  | written hw => exact Or.inr (Or.inr ⟨rfl, rfl, by simp, by simp⟩)
  | writeError hw => exact Or.inr (Or.inl ⟨rfl, rfl, rfl⟩)
  | close => exact Or.inr (Or.inr ⟨rfl, rfl, by simp, by simp⟩)
  | closePosted hc => exact Or.inr (Or.inl ⟨rfl, rfl, rfl⟩)

/-- The step does not close the socket of a client that says it is connected. -/
def KeepsOpen (c : TcpClient) (e : ClientEvent) : Prop := ¬ (c.isConnected_ = true ∧ e.closes = true)

instance (c : TcpClient) (e : ClientEvent) : Decidable (KeepsOpen c e) := by unfold KeepsOpen; infer_instance

/-- Along steps that keep the connection the flag says what is. -/
theorem connected_iff_up {v : Version} {upTime : UInt32} {es : List ClientEvent} {c : TcpClient}
    {o : List ClientObs} (h : exec v upTime es = some (c, o)) (hC : Lts.Along step KeepsOpen (init v upTime) es) :
    c.isConnected_ = true ↔ Up o := by
  refine Lts.along_rule step KeepsOpen (fun c o => c.isConnected_ = true ↔ Up o) ?_ ?_ h hC
  · exact iff_of_false Bool.false_ne_true not_up_nil
  · intro c o e c' o' hkeep ih hstep
    rcases step_link (steps_of_step hstep) with ⟨-, hflag, rfl⟩ | ⟨hcloses, hflag, rfl⟩ | ⟨-, hflag, hno, hno'⟩
    · exact iff_of_true hflag (up_connected o)
    · rw [hflag]
      exact iff_of_false (fun hc => hkeep ⟨hc, hcloses⟩) (not_up_closed o)
    · rw [hflag, up_append hno hno']
      exact ih

end TcpClient

open TcpClient

/-- **When the client tells the truth.** Over every run of the handlers: in every state on the
way `isConnected` says whether the connection has been established and the socket not been
closed since, if and only if no step closes the socket while it says so. -/
theorem connected_iff (v : Version) (upTime : UInt32) (es : List ClientEvent) (c : TcpClient) (o : List ClientObs)
    (h : TcpClient.exec v upTime es = some (c, o)) :
    (∀ pre c₁ o₁, pre <+: es → TcpClient.exec v upTime pre = some (c₁, o₁) → (c₁.isConnected = true ↔ Up o₁)) ↔
      Lts.Along TcpClient.step KeepsOpen (TcpClient.init v upTime) es := by
  constructor
  · rintro htrue pre e c₁ o₁ hpre h₁ ⟨hflag, hcloses⟩
    obtain ⟨c₂, o₂, h₂⟩ := exec_prefix h hpre
    obtain ⟨c₁', o₁', o', h₁', hstep, rfl⟩ := (Lts.exec_concat _).mp h₂
    rw [h₁] at h₁'
    cases h₁'
    have hup := htrue _ _ _ hpre h₂
    rcases step_link (steps_of_step hstep) with ⟨hno, -, -⟩ | ⟨-, hsame, rfl⟩ | ⟨hno, -⟩
    · rw [hcloses] at hno
      cases hno
    · exact not_up_closed o₁ (hup.mp (hsame.trans hflag))
    · rw [hcloses] at hno
      cases hno
  · intro hC pre c₁ o₁ hpre h₁
    exact connected_iff_up h₁ fun pre' e c₂ o₂ hpre' => hC pre' e c₂ o₂ (hpre'.trans hpre)

/-- A connection over which a packet comes, and that is not closed. -/
theorem connected_iff_open : ∃ c o,
    TcpClient.exec sampleVersion 0 [.connected, .readHeader (sampleBytes 2), .readPayload []] = some (c, o) ∧
      (c.isConnected = true ↔ Up o) := by
  have hrun : ∃ c o, TcpClient.exec sampleVersion 0 [.connected, .readHeader (sampleBytes 2), .readPayload []] =
      some (c, o) := ⟨_, _, rfl⟩
  obtain ⟨c, o, h⟩ := hrun
  exact ⟨c, o, h, (connected_iff sampleVersion 0 _ c o h).mpr (by decide) _ c o (List.prefix_refl _) h⟩

/-- The server goes down: the read fails, the socket is closed, and the client is still
connected. -/
theorem connected_after_close : ¬ ∀ (v : Version) (upTime : UInt32) (es : List ClientEvent) (c : TcpClient)
    (o : List ClientObs), TcpClient.exec v upTime es = some (c, o) → (c.isConnected = true ↔ Up o) := by
  intro h
  have hup := (h sampleVersion 0 [.connected, .readError] _ _ rfl).mp rfl
  exact not_up_closed [.connected] hup

end EasyVoiceCall
