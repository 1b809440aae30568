/-
# What is played, and when

Over every run of `DownstreamProcessor`: no call fails, and the output is a
bounded queue followed by a delay of one fetch (`playout`). A segment has the
samples that its packet is decoded to, and if it found room in the buffer it is
played once, in its turn, at most 101 fetches later. Concealment fades segments that `m1_` and `m2_` still point to, so the
segment a fetch plays is changed exactly when that fetch is at least the third
and found the buffer empty, and then by one pass of the fade.

The invariant `Inv` reads the history of what was seen: the buffer is the queue
of that history (`Fifo.after`), the segments ever made are in places of their
own, and the ones still to be played hold the samples they were made with.

Key theorems: `playout`, `Inv.appended`, `Inv.fetched`.
-/
import EasyVoiceCall.Downstream

namespace EasyVoiceCall

open FadeExponential

namespace Playout

/-! ### Reading a history -/

/-- The `append` calls. -/
def appends (outs : List DownObs) : List Appended :=
  outs.filterMap fun
    | .appended a => some a
    | .fetched _ => none

/-- The `fetch` calls. -/
def fetches (outs : List DownObs) : List Fetched :=
  outs.filterMap fun
    | .appended _ => none
    | .fetched f => some f

/-- The `append` calls that found room in the buffer. -/
def keptOf (outs : List DownObs) : List Appended := (appends outs).filter (·.kept)

/-- The `fetch` calls that found a segment in the buffer. -/
def receivedOf (outs : List DownObs) : List Fetched := (fetches outs).filter (·.fromBuffer)

/-- How many segments wait in the buffer. -/
def waiting (outs : List DownObs) : ℕ := (keptOf outs).length - (receivedOf outs).length

/-- A call, as the queue sees it. -/
def fifoOp : DownObs → Fifo.Op Item
  | .appended a => .push a.item
  | .fetched _ => .pop

/-- The received items played, in the order they were played. -/
def playedItems (outs : List DownObs) : List Item :=
  ((fetches outs).filterMap (·.played)).filter fun item => item ∈ (keptOf outs).map (·.item)

theorem appends_append (a b : List DownObs) : appends (a ++ b) = appends a ++ appends b := List.filterMap_append

theorem fetches_append (a b : List DownObs) : fetches (a ++ b) = fetches a ++ fetches b := List.filterMap_append

@[simp] theorem appends_appended (outs : List DownObs) (a : Appended) :
    appends (outs ++ [.appended a]) = appends outs ++ [a] := appends_append _ _

@[simp] theorem appends_fetched (outs : List DownObs) (f : Fetched) :
    appends (outs ++ [.fetched f]) = appends outs := (appends_append _ _).trans (List.append_nil _)

@[simp] theorem fetches_appended (outs : List DownObs) (a : Appended) :
    fetches (outs ++ [.appended a]) = fetches outs := (fetches_append _ _).trans (List.append_nil _)

@[simp] theorem fetches_fetched (outs : List DownObs) (f : Fetched) :
    fetches (outs ++ [.fetched f]) = fetches outs ++ [f] := fetches_append _ _

@[simp] theorem keptOf_appended (outs : List DownObs) (a : Appended) :
    keptOf (outs ++ [.appended a]) = keptOf outs ++ if a.kept then [a] else [] := by
  rw [keptOf, appends_appended, List.filter_append, keptOf]
  by_cases h : a.kept <;> simp [h]

@[simp] theorem keptOf_fetched (outs : List DownObs) (f : Fetched) :
    keptOf (outs ++ [.fetched f]) = keptOf outs := by
  rw [keptOf, appends_fetched, keptOf]

theorem mem_keptOf {outs : List DownObs} {a : Appended} : a ∈ keptOf outs ↔ a ∈ appends outs ∧ a.kept = true := by
  rw [keptOf, List.mem_filter]

/-- The last element of a list, by its place. -/
theorem getElem?_concat_iff {α : Type*} {l : List α} {x y : α} {n : ℕ} :
    (l ++ [x])[n]? = some y ↔ l[n]? = some y ∨ (n = l.length ∧ x = y) := by
  rcases Nat.lt_trichotomy n l.length with h | h | h
  · rw [List.getElem?_append_left h]
    constructor
    · exact Or.inl
    · rintro (h' | ⟨rfl, -⟩)
      · exact h'
      · exact absurd h (lt_irrefl _)
  · subst h
    simp
  · have h1 : (l ++ [x])[n]? = none := List.getElem?_eq_none (by rw [List.length_append]; exact h)
    have h2 : l[n]? = none := List.getElem?_eq_none h.le
    rw [h1, h2]
    constructor
    · exact fun h => by cases h
    · rintro (h' | ⟨rfl, -⟩)
      · cases h'
      · exact absurd h (lt_irrefl _)

/-- A fetch as a pop of the queue. -/
def popOf (f : Fetched) : Option Item := if f.fromBuffer then some f.obtained else none

theorem filterMap_popOf (fs : List Fetched) :
    (fs.map popOf).filterMap id = (fs.filter (·.fromBuffer)).map (·.obtained) := by
  induction fs with
  | nil => rfl
  | cons f fs ih =>
    rw [List.map_cons]
    by_cases h : f.fromBuffer <;> simp [popOf, h] at ih ⊢ <;> exact ih

theorem length_pops (cap : ℕ) : ∀ (outs : List DownObs) (q : List Item),
    (Fifo.pops cap q (outs.map fifoOp)).length = (fetches outs).length
  | [], _ => rfl
  | .appended _ :: outs, _ => length_pops cap outs _
  | .fetched _ :: outs, _ => congrArg (· + 1) (length_pops cap outs _)

/-! ### The invariant -/

section

variable {D N K : Type} [Field K] [LinearOrder K] [FloorRing K]

/-- The processor after what was seen. -/
structure Inv (c : FadeCurve K) (outs : List DownObs) (s : DownstreamProcessor D N) : Prop where
  /-- The buffer is the queue of the history. -/
  buffer : s.jitterBuffer_ = Fifo.after JitterBuffer.capacity [] (outs.map fifoOp)
  kept : (keptOf outs).map (·.item) = Fifo.kept JitterBuffer.capacity [] (outs.map fifoOp)
  pops : (fetches outs).map popOf = Fifo.pops JitterBuffer.capacity [] (outs.map fifoOp)
  /-- An `append` finds room while fewer than 100 segments wait. -/
  room : ∀ pre a, pre ++ [.appended a] <+: outs → (a.kept = true ↔ waiting pre < JitterBuffer.capacity) ∧
    waiting pre = (Fifo.after JitterBuffer.capacity [] (pre.map fifoOp)).length
  /-- The last two items obtained. -/
  m1 : s.m1_ = (fetches outs).getLast?.map (·.obtained)
  m2 : s.m2_ = (fetches outs).dropLast.getLast?.map (·.obtained)
  /-- Every segment has a place of its own. -/
  appendedOld : ∀ a ∈ appends outs, a.item.segment < s.heap.length
  obtainedOld : ∀ f ∈ fetches outs, f.obtained.segment < s.heap.length
  appendedNodup : ((appends outs).map (·.item.segment)).Nodup
  obtainedNodup : ((fetches outs).map (·.obtained.segment)).Nodup
  /-- A segment obtained from the buffer was kept there; any other is new. -/
  received : ∀ f ∈ fetches outs, f.fromBuffer = true → ∃ a ∈ keptOf outs, a.item = f.obtained ∧ a.samples = f.data
  made : ∀ f ∈ fetches outs, f.fromBuffer = false → ∀ a ∈ appends outs, a.item.segment ≠ f.obtained.segment
  waitingFresh : ∀ it ∈ s.jitterBuffer_, ∀ f ∈ fetches outs, f.obtained.segment ≠ it.segment
  /-- What is still to be played holds its samples. -/
  waitingSamples : ∀ a ∈ keptOf outs, a.item ∈ s.jitterBuffer_ → s.heap.read a.item.segment = a.samples
  lastSamples : ∀ f, (fetches outs).getLast? = some f → s.heap.read f.obtained.segment = f.data
  /-- The first fetch, and the others. -/
  first : ∀ f, (fetches outs)[0]? = some f → f.played = none ∧ f.outData = PcmSegment.silence
  next : ∀ n f g, (fetches outs)[n]? = some f → (fetches outs)[n + 1]? = some g →
    g.played = some f.obtained ∧
      g.outData = if g.fromBuffer = false ∧ 1 ≤ n then faded c 0 f.data else f.data

variable {c : FadeCurve K} {outs : List DownObs} {s : DownstreamProcessor D N}

/-- The buffer holds what was kept and not yet fetched. -/
theorem Inv.conservation (h : Inv c outs s) :
    (keptOf outs).map (·.item) = (receivedOf outs).map (·.obtained) ++ s.jitterBuffer_ := by
  have hfifo := Fifo.kept_eq JitterBuffer.capacity [] (outs.map fifoOp)
  rw [List.nil_append, ← h.kept, ← h.pops, ← h.buffer, filterMap_popOf] at hfifo
  exact hfifo

theorem Inv.length_buffer (h : Inv c outs s) : s.jitterBuffer_.length = waiting outs := by
  have hlen := congrArg List.length h.conservation
  rw [List.length_map, List.length_append, List.length_map] at hlen
  rw [waiting, hlen]
  omega

/-- The last two items are valid pointers to different segments. -/
theorem Inv.valid (h : Inv c outs s) : s.Valid := by
  refine ⟨fun m1 hm => ?_, fun m2 hm => ?_, fun m1 m2 hm1 hm2 => ?_⟩
  · rw [h.m1] at hm
    obtain ⟨f, hf, rfl⟩ := Option.map_eq_some_iff.mp hm
    exact h.obtainedOld f (List.mem_of_getLast? hf)
  · rw [h.m2] at hm
    obtain ⟨f, hf, rfl⟩ := Option.map_eq_some_iff.mp hm
    exact h.obtainedOld f (List.mem_of_mem_dropLast (List.mem_of_getLast? hf))
  · rw [h.m1] at hm1
    rw [h.m2] at hm2
    obtain ⟨f, hf, rfl⟩ := Option.map_eq_some_iff.mp hm1
    obtain ⟨g, hg, rfl⟩ := Option.map_eq_some_iff.mp hm2
    have hsplit : fetches outs = (fetches outs).dropLast ++ [f] :=
      (List.dropLast_append_getLast? f hf).symm
    have hnd := h.obtainedNodup
    rw [hsplit, List.map_append, List.nodup_append] at hnd
    exact (hnd.2.2 _ (List.mem_map_of_mem (List.mem_of_getLast? hg)) _ (by simp)).symm

/-- What waits in the buffer was kept there. -/
theorem Inv.mem_buffer (h : Inv c outs s) {it : Item} (hit : it ∈ s.jitterBuffer_) :
    ∃ a ∈ keptOf outs, a.item = it := by
  have hmem : it ∈ (keptOf outs).map (·.item) := by
    rw [h.conservation]
    exact List.mem_append_right _ hit
  exact List.mem_map.mp hmem

theorem Inv.lt_of_mem_buffer (h : Inv c outs s) {it : Item} (hit : it ∈ s.jitterBuffer_) :
    it.segment < s.heap.length := by
  obtain ⟨a, ha, rfl⟩ := h.mem_buffer hit
  exact h.appendedOld a (mem_keptOf.mp ha).1

theorem Inv.keptNodup (h : Inv c outs s) : ((keptOf outs).map (·.item.segment)).Nodup :=
  h.appendedNodup.sublist (List.filter_sublist.map _)

theorem Inv.bufferNodup (h : Inv c outs s) : (s.jitterBuffer_.map (·.segment)).Nodup := by
  have hmap : (keptOf outs).map (·.item.segment) = ((keptOf outs).map (·.item)).map (·.segment) :=
    List.map_map.symm
  have hnd := h.keptNodup
  rw [hmap, h.conservation, List.map_append, List.nodup_append] at hnd
  exact hnd.2.1

theorem inv_create (c : FadeCurve K) (d : D) (n : N) : Inv c [] (DownstreamProcessor.create d n) where
  buffer := rfl
  kept := rfl
  pops := rfl
  room := fun pre a h => by simp at h
  m1 := rfl
  m2 := rfl
  appendedOld := fun a h => by cases h
  obtainedOld := fun f h => by cases h
  appendedNodup := List.nodup_nil
  obtainedNodup := List.nodup_nil
  received := fun f h => by cases h
  made := fun f h => by cases h
  waitingFresh := fun it h => by cases h
  waitingSamples := fun a h => by cases h
  lastSamples := fun f h => by cases h
  first := fun f h => by cases h
  next := fun n f g h => by cases h

/-- An `append` keeps the invariant. -/
theorem Inv.appended (h : Inv c outs s) (dec : Decoders D N) (p : NetPacket) (beyond : PcmSegment) :
    Inv c (outs ++ [.appended (s.append dec p beyond).2]) (s.append dec p beyond).1 := by
  obtain ⟨hheap, hm1, hm2, hbuf, hkept, hitem, -⟩ := s.append_spec dec p beyond
  set s' := (s.append dec p beyond).1
  set x := (s.append dec p beyond).2
  have hseg : x.item.segment = s.heap.length := by rw [hitem]
  have hlen : s'.heap.length = s.heap.length + 1 := by rw [hheap, List.length_append]; rfl
  have hroom : x.kept = true ↔ s.jitterBuffer_.length < JitterBuffer.capacity := by
    rw [hkept]
    exact Fifo.push_snd
  have hmem : ∀ it ∈ s'.jitterBuffer_, it ∈ s.jitterBuffer_ ∨ it = x.item := by
    intro it hit
    rw [hbuf] at hit
    exact Fifo.mem_of_mem_push hit
  have hold : ∀ a ∈ appends outs, a.item.segment ≠ x.item.segment := fun a ha =>
    hseg ▸ (h.appendedOld a ha).ne
  constructor
  case buffer =>
    rw [List.map_append, Fifo.after_append, ← h.buffer]
    exact hbuf
  case kept =>
    rw [keptOf_appended, List.map_append, List.map_append, Fifo.kept_append, ← h.buffer, h.kept]
    refine congrArg (_ ++ ·) ?_
    show _ = (if s.jitterBuffer_.length < _ then [x.item] else []) ++ []
    rw [List.append_nil]
    by_cases hk : x.kept = true
    · rw [if_pos hk, if_pos (hroom.mp hk)]
      rfl
    · rw [if_neg hk, if_neg (mt hroom.mpr hk)]
      rfl
  case pops =>
    rw [fetches_appended, List.map_append, Fifo.pops_append, h.pops]
    exact (List.append_nil _).symm
  case room =>
    intro pre a hpre
    rcases List.prefix_concat_iff.mp hpre with heq | hpre
    · obtain ⟨rfl, hax⟩ := List.append_inj' heq rfl
      cases hax
      rw [← h.length_buffer, ← h.buffer]
      exact ⟨hroom, rfl⟩
    · exact h.room pre a hpre
  case m1 => rw [hm1, fetches_appended, h.m1]
  case m2 => rw [hm2, fetches_appended, h.m2]
  case appendedOld =>
    intro a ha
    rw [appends_appended] at ha
    rw [hlen]
    rcases List.mem_append.mp ha with ha | ha
    · exact (h.appendedOld a ha).trans (Nat.lt_succ_self _)
    · rw [List.mem_singleton.mp ha, hseg]
      exact Nat.lt_succ_self _
  case obtainedOld =>
    intro f hf
    rw [fetches_appended] at hf
    rw [hlen]
    exact (h.obtainedOld f hf).trans (Nat.lt_succ_self _)
  case appendedNodup =>
    rw [appends_appended, List.map_append, List.nodup_append]
    refine ⟨h.appendedNodup, List.nodup_singleton _, fun p hp q hq => ?_⟩
    obtain ⟨a, ha, rfl⟩ := List.mem_map.mp hp
    rw [List.mem_singleton.mp hq]
    exact hold a ha
  case obtainedNodup =>
    rw [fetches_appended]
    exact h.obtainedNodup
  case received =>
    intro f hf hb
    rw [fetches_appended] at hf
    obtain ⟨a, ha, hax⟩ := h.received f hf hb
    refine ⟨a, ?_, hax⟩
    rw [keptOf_appended]
    exact List.mem_append_left _ ha
  case made =>
    intro f hf hb a ha
    rw [fetches_appended] at hf
    rw [appends_appended] at ha
    rcases List.mem_append.mp ha with ha | ha
    · exact h.made f hf hb a ha
    · rw [List.mem_singleton.mp ha, hseg]
      exact (h.obtainedOld f hf).ne'
  case waitingFresh =>
    intro it hit f hf
    rw [fetches_appended] at hf
    rcases hmem it hit with hit | rfl
    · exact h.waitingFresh it hit f hf
    · rw [hseg]
      exact (h.obtainedOld f hf).ne
  case waitingSamples =>
    intro a ha hit
    rw [keptOf_appended] at ha
    rcases List.mem_append.mp ha with ha | ha
    · have hold' := (mem_keptOf.mp ha).1
      have hit' : a.item ∈ s.jitterBuffer_ :=
        (hmem _ hit).resolve_right fun he => hold a hold' (by rw [he])
      rw [hheap, Heap.read_append_of_lt (h.appendedOld a hold')]
      exact h.waitingSamples a ha hit'
    · have hax : a = x := by
        split at ha
        · exact List.mem_singleton.mp ha
        · cases ha
      rw [hax, hheap, hseg, Heap.read_append_length]
  case lastSamples =>
    intro f hf
    rw [fetches_appended] at hf
    rw [hheap, Heap.read_append_of_lt (h.obtainedOld f (List.mem_of_getLast? hf))]
    exact h.lastSamples f hf
  case first =>
    rw [fetches_appended]
    exact h.first
  case next =>
    rw [fetches_appended]
    exact h.next

/-- The item before the one a fetch obtains, and whether there is one before that. -/
theorem Inv.last_place (h : Inv c outs s) {n : ℕ} {f : Fetched} (hf : (fetches outs)[n]? = some f)
    (hn : n + 1 = (fetches outs).length) :
    (fetches outs).getLast? = some f ∧ s.m1_ = some f.obtained ∧ (s.m2_ = none ↔ n = 0) := by
  have hlast : (fetches outs).getLast? = some f := by
    rw [List.getLast?_eq_getElem?, ← hn]
    exact hf
  refine ⟨hlast, by rw [h.m1, hlast]; rfl, ?_⟩
  rw [h.m2, Option.map_eq_none_iff, List.getLast?_eq_none_iff, ← List.length_eq_zero_iff, List.length_dropLast]
  omega

/-! ### One fetch -/

section

variable {r : DownstreamProcessor D N × Fetched}

/-- A fetch pops the queue. -/
theorem pop_of_fetch (hr : s.FetchSpec c r) :
    r.1.jitterBuffer_ = (Fifo.pop s.jitterBuffer_).1 ∧ popOf r.2 = (Fifo.pop s.jitterBuffer_).2 := by
  rcases hr.source with ⟨hcons, hb, -⟩ | ⟨hnil, hnil', -, hb, -⟩
  · rw [hcons, popOf, if_pos hb]
    exact ⟨rfl, rfl⟩
  · rw [hnil, hnil', popOf, hb]
    exact ⟨rfl, rfl⟩

theorem length_heap_of_fetch (hr : s.FetchSpec c r) : s.heap.length ≤ r.1.heap.length := by
  rcases hr.source with ⟨-, -, hh⟩ | ⟨-, -, -, -, hl, -⟩
  · rw [hh]
  · rw [hl]
    exact Nat.le_succ _

/-- The segment obtained is in the memory. -/
theorem Inv.obtained_lt (h : Inv c outs s) (hr : s.FetchSpec c r) : r.2.obtained.segment < r.1.heap.length := by
  rcases hr.source with ⟨hcons, -, hh⟩ | ⟨-, -, hx, -, hl, -⟩
  · rw [hh]
    exact h.lt_of_mem_buffer (by rw [hcons]; exact List.mem_cons_self)
  · rw [hx, hl]
    exact Nat.lt_succ_self _

/-- It was not obtained before. -/
theorem Inv.obtained_ne (h : Inv c outs s) (hr : s.FetchSpec c r) :
    ∀ f ∈ fetches outs, f.obtained.segment ≠ r.2.obtained.segment := by
  intro f hf
  rcases hr.source with ⟨hcons, -⟩ | ⟨-, -, hx, -⟩
  · exact h.waitingFresh _ (by rw [hcons]; exact List.mem_cons_self) f hf
  · rw [hx]
    exact (h.obtainedOld f hf).ne

/-- Where it was received, it holds what was decoded of its packet. -/
theorem Inv.obtained_received (h : Inv c outs s) (hr : s.FetchSpec c r) (hb : r.2.fromBuffer = true) :
    ∃ a ∈ keptOf outs, a.item = r.2.obtained ∧ a.samples = r.2.data := by
  rcases hr.source with ⟨hcons, -, hh⟩ | ⟨-, -, -, hb', -⟩
  · have hit : r.2.obtained ∈ s.jitterBuffer_ := by
      rw [hcons]
      exact List.mem_cons_self
    obtain ⟨a, ha, hax⟩ := h.mem_buffer hit
    refine ⟨a, ha, hax, ?_⟩
    rw [hr.data, hh, ← hax]
    exact (h.waitingSamples a ha (hax ▸ hit)).symm
  · rw [hb'] at hb
    cases hb

/-- Where it was made up, it is none of those received. -/
theorem Inv.obtained_made (h : Inv c outs s) (hr : s.FetchSpec c r) (hb : r.2.fromBuffer = false) :
    ∀ a ∈ appends outs, a.item.segment ≠ r.2.obtained.segment := by
  intro a ha
  rcases hr.source with ⟨-, hb', -⟩ | ⟨-, -, hx, -⟩
  · rw [hb'] at hb
    cases hb
  · rw [hx]
    exact (h.appendedOld a ha).ne

/-- What still waits, waited before, is not what was obtained, and has its samples. -/
theorem Inv.still_waiting (h : Inv c outs s) (hr : s.FetchSpec c r) {it : Item} (hit : it ∈ r.1.jitterBuffer_) :
    it ∈ s.jitterBuffer_ ∧ r.2.obtained.segment ≠ it.segment ∧ r.1.heap = s.heap := by
  rcases hr.source with ⟨hcons, -, hh⟩ | ⟨-, hnil, -⟩
  · have hnd := h.bufferNodup
    rw [hcons, List.map_cons, List.nodup_cons] at hnd
    refine ⟨by rw [hcons]; exact List.mem_cons_of_mem _ hit, fun he => hnd.1 ?_, hh⟩
    rw [he]
    exact List.mem_map_of_mem hit
  · rw [hnil] at hit
    cases hit

/-- **What a fetch plays** is the item obtained before, faded where the fetch makes a
segment up and there is an item before that. -/
theorem Inv.fetch_plays (h : Inv c outs s) (hr : s.FetchSpec c r) {n : ℕ} {f : Fetched}
    (hf : (fetches outs)[n]? = some f) (hn : n + 1 = (fetches outs).length) : r.2.played = some f.obtained ∧
      r.2.outData = if r.2.fromBuffer = false ∧ 1 ≤ n then faded c 0 f.data else f.data := by
  obtain ⟨hlast, hm1, hm2⟩ := h.last_place hf hn
  have hread := h.lastSamples f hlast
  refine ⟨hr.played.trans hm1, ?_⟩
  rw [hr.outData, hm1]
  dsimp only
  rcases hr.source with ⟨-, hb, hh⟩ | ⟨-, -, -, hb, -, hh⟩
  · rw [hh, hb, hread]
    simp
  · rw [hh _ (h.obtainedOld f (List.mem_of_getLast? hlast)), DownstreamProcessor.fadeOf, hm1, hb]
    rcases hm2v : s.m2_ with _ | m2
    · have h0 : n = 0 := hm2.mp hm2v
      simp [h0, hread]
    · have h1 : 1 ≤ n := Nat.one_le_iff_ne_zero.mpr fun h0 => by
        rw [hm2.mpr h0] at hm2v
        cases hm2v
      simp [h1, hread]

end

section

variable [IsStrictOrderedRing K]

/-- **A `fetch`** does not fail, and keeps the invariant. -/
theorem Inv.fetched (h : Inv c outs s) (dec : Decoders D N) :
    ∃ r, s.fetch dec c = .ok r ∧ Inv c (outs ++ [.fetched r.2]) r.1 := by
  obtain ⟨r, hok, hr⟩ := s.fetch_spec dec c h.valid
  obtain ⟨hbuf, hpop⟩ := pop_of_fetch hr
  have hlen := length_heap_of_fetch hr
  refine ⟨r, hok, ?_⟩
  set s' := r.1
  set x := r.2
  constructor
  case buffer =>
    rw [List.map_append, Fifo.after_append, ← h.buffer]
    exact hbuf
  case kept =>
    rw [keptOf_fetched, List.map_append, Fifo.kept_append, h.kept]
    exact (List.append_nil _).symm
  case pops =>
    rw [fetches_fetched, List.map_append, List.map_append, Fifo.pops_append, h.pops, ← h.buffer]
    refine congrArg (_ ++ ·) ?_
    show [popOf x] = [(Fifo.pop s.jitterBuffer_).2]
    rw [hpop]
  case room =>
    intro pre a hpre
    rcases List.prefix_concat_iff.mp hpre with heq | hpre
    · have hax := (List.append_inj' heq rfl).2
      cases hax
    · exact h.room pre a hpre
  case m1 =>
    rw [fetches_fetched, List.getLast?_concat]
    exact hr.m1
  case m2 =>
    rw [hr.m2, fetches_fetched, List.dropLast_concat]
    exact h.m1
  case appendedOld =>
    intro a ha
    rw [appends_fetched] at ha
    exact (h.appendedOld a ha).trans_le hlen
  case obtainedOld =>
    intro f hf
    rw [fetches_fetched] at hf
    rcases List.mem_append.mp hf with hf | hf
    · exact (h.obtainedOld f hf).trans_le hlen
    · rw [List.mem_singleton.mp hf]
      exact h.obtained_lt hr
  case appendedNodup =>
    rw [appends_fetched]
    exact h.appendedNodup
  case obtainedNodup =>
    rw [fetches_fetched, List.map_append, List.nodup_append]
    refine ⟨h.obtainedNodup, List.nodup_singleton _, fun p hp q hq => ?_⟩
    obtain ⟨f, hf, rfl⟩ := List.mem_map.mp hp
    rw [List.mem_singleton.mp hq]
    exact h.obtained_ne hr f hf
  case received =>
    intro f hf hb
    rw [fetches_fetched] at hf
    rw [keptOf_fetched]
    rcases List.mem_append.mp hf with hf | hf
    · exact h.received f hf hb
    · obtain rfl := List.mem_singleton.mp hf
      exact h.obtained_received hr hb
  case made =>
    intro f hf hb a ha
    rw [fetches_fetched] at hf
    rw [appends_fetched] at ha
    rcases List.mem_append.mp hf with hf | hf
    · exact h.made f hf hb a ha
    · obtain rfl := List.mem_singleton.mp hf
      exact h.obtained_made hr hb a ha
  case waitingFresh =>
    intro it hit f hf
    obtain ⟨hit', hne, -⟩ := h.still_waiting hr hit
    rw [fetches_fetched] at hf
    rcases List.mem_append.mp hf with hf | hf
    · exact h.waitingFresh it hit' f hf
    · rw [List.mem_singleton.mp hf]
      exact hne
  case waitingSamples =>
    intro a ha hit
    obtain ⟨hit', -, hh⟩ := h.still_waiting hr hit
    rw [keptOf_fetched] at ha
    rw [hh]
    exact h.waitingSamples a ha hit'
  case lastSamples =>
    intro f hf
    rw [fetches_fetched, List.getLast?_concat] at hf
    cases hf
    exact hr.data.symm
  case first =>
    intro f hf
    rw [fetches_fetched] at hf
    rcases getElem?_concat_iff.mp hf with hf | ⟨h0, rfl⟩
    · exact h.first f hf
    · have hnil : fetches outs = [] := List.length_eq_zero_iff.mp h0.symm
      have hm1 : s.m1_ = none := by rw [h.m1, hnil]; rfl
      exact ⟨hr.played.trans hm1, by rw [hr.outData, hm1]⟩
  case next =>
    intro n f g hf hg
    rw [fetches_fetched] at hf hg
    rcases getElem?_concat_iff.mp hg with hg | ⟨hn, rfl⟩
    · have hlt : n + 1 < (fetches outs).length := (List.getElem?_eq_some_iff.mp hg).1
      rw [List.getElem?_append_left (by omega)] at hf
      exact h.next n f g hf hg
    · rw [List.getElem?_append_left (by omega)] at hf
      exact h.fetch_plays hr hf hn

/-- **Every run**: no call fails, and the invariant holds after it. -/
theorem inv_exec (dec : Decoders D N) (c : FadeCurve K) (d : D) (n : N) (ops : List DownOp) :
    ∃ s outs, DownstreamProcessor.exec dec c d n ops = some (s, outs) ∧ Inv c outs s := by
  refine Lts.total_rule (DownstreamProcessor.step dec c) (fun s outs => Inv c outs s) (inv_create c d n) ?_ ops
  rintro s outs (⟨p, beyond⟩ | _) h
  · exact ⟨_, _, rfl, h.appended dec p beyond⟩
  · obtain ⟨r, hr, hinv⟩ := h.fetched dec
    exact ⟨r.1, [.fetched r.2], by rw [DownstreamProcessor.step, hr], hinv⟩

end

/-! ### What is played -/

/-- What the packet is decoded to, by the decoders as the calls before have left them; silence, where
the decoder fails or the packet carries no audio. -/
def decodedPcm (dec : Decoders D N) (s : DownstreamProcessor D N) (p : NetPacket) : List Int16 :=
  if p.payloadType = .AudioMessage then (dec.decode s.decoder_ p.payload).2.getD (List.replicate blockSize 0)
  else if p.payloadType = .AudioMessage_CN then
    List.ofFn (dec.Generate (dec.UpdateSid s.cnDecoder_ p.payload) s.lastIsCnPacket_).2
  else List.replicate blockSize 0

/-- What was seen of the calls is right. -/
structure Spec (dec : Decoders D N) (c : FadeCurve K) (d : D) (n : N) (ops : List DownOp) (outs : List DownObs) :
    Prop where
  /-- The samples of an appended segment are the first 160 of what the packet is decoded to. -/
  decoded : ∀ pre a post, outs = pre ++ .appended a :: post → ∃ before beyond s,
    before ++ [.append a.packet beyond] <+: ops ∧ DownstreamProcessor.exec dec c d n before = some (s, pre) ∧
    a.samples = DownstreamProcessor.copyBlock (decodedPcm dec s a.packet) beyond
  /-- The first fetch plays silence. -/
  first : ∀ f, (fetches outs)[0]? = some f → f.played = none ∧ f.outData = PcmSegment.silence
  /-- Each later one plays the item obtained by the fetch before it, with the
  samples it was obtained with, faded once if the later one is at least the
  third and found the buffer empty. -/
  next : ∀ n f g, (fetches outs)[n]? = some f → (fetches outs)[n + 1]? = some g →
    g.played = some f.obtained ∧
      g.outData = if g.fromBuffer = false ∧ 1 ≤ n then faded c 0 f.data else f.data
  /-- An `append` finds room exactly while fewer than 100 segments wait. -/
  room : ∀ pre a, pre ++ [.appended a] <+: outs → (a.kept = true ↔ waiting pre < 100)
  /-- The segments that found room are played in the order they were appended, -/
  order : playedItems outs <+: (keptOf outs).map (·.item)
  /-- each at most once, -/
  once : ∀ a ∈ keptOf outs, ((fetches outs).filter fun f => f.played = some a.item).length ≤ 1
  /-- within 101 fetches, -/
  delay : ∀ pre a post, outs = pre ++ .appended a :: post → a.kept = true → 101 ≤ (fetches post).length →
    ∃ k < 101, ∃ f, (fetches post)[k]? = some f ∧ f.played = some a.item
  /-- as they were appended, but for the one fade. -/
  samples : ∀ n g a, (fetches outs)[n]? = some g → a ∈ keptOf outs → g.played = some a.item →
    g.outData = if g.fromBuffer = false ∧ 2 ≤ n then faded c 0 a.samples else a.samples
  /-- The others are never played. -/
  dropped : ∀ a ∈ appends outs, a.kept = false → ∀ f ∈ fetches outs, ∀ it, f.played = some it →
    it.segment ≠ a.item.segment

/-- Shifted by one, a list of options and a list of values agree. -/
theorem filterMap_shift {α β : Type*} (g : α → Option β) (v : α → β) (l : List α)
    (h0 : ∀ x, l[0]? = some x → g x = none)
    (h1 : ∀ n x y, l[n]? = some x → l[n + 1]? = some y → g y = some (v x)) :
    l.filterMap g = l.dropLast.map v := by
  induction l using List.reverseRecOn with
  | nil => rfl
  | append_singleton l x ih =>
    have hkeep : ∀ {n y}, l[n]? = some y → (l ++ [x])[n]? = some y := fun hy =>
      getElem?_concat_iff.mpr (Or.inl hy)
    have hl := ih (fun y hy => h0 y (hkeep hy)) fun n y z hy hz => h1 n y z (hkeep hy) (hkeep hz)
    rw [List.filterMap_append, hl, List.dropLast_concat]
    rcases List.eq_nil_or_concat l with rfl | ⟨m, y, rfl⟩
    · simpa using h0 x rfl
    · rw [List.concat_eq_append] at hkeep h1 ⊢
      have hy : (m ++ [y])[m.length]? = some y := getElem?_concat_iff.mpr (Or.inr ⟨rfl, rfl⟩)
      have hx : g x = some (v y) :=
        h1 m.length y x (hkeep hy) (getElem?_concat_iff.mpr (Or.inr ⟨by simp, rfl⟩))
      rw [List.dropLast_concat, List.map_append, List.filterMap_cons, hx]
      rfl

/-- What is played is what was obtained, one fetch later. -/
theorem Inv.filterMap_played (h : Inv c outs s) :
    (fetches outs).filterMap (·.played) = (fetches outs).dropLast.map (·.obtained) :=
  filterMap_shift _ _ _ (fun f hf => (h.first f hf).1) fun n f g hf hg => (h.next n f g hf hg).1

theorem Inv.played_some (h : Inv c outs s) {n : ℕ} {g : Fetched} (hg : (fetches outs)[n]? = some g) {it : Item}
    (hp : g.played = some it) : ∃ m f, n = m + 1 ∧ (fetches outs)[m]? = some f ∧ f.obtained = it := by
  cases n with
  | zero =>
    rw [(h.first g hg).1] at hp
    cases hp
  | succ m =>
    have hlt : m < (fetches outs).length := (Nat.lt_succ_self m).trans (List.getElem?_eq_some_iff.mp hg).1
    have hf : (fetches outs)[m]? = some (fetches outs)[m] := List.getElem?_eq_getElem hlt
    rw [(h.next m _ g hf hg).1] at hp
    exact ⟨m, _, rfl, hf, Option.some.inj hp⟩

/-- What was obtained from the buffer is what was kept there. -/
theorem Inv.fromBuffer_iff (h : Inv c outs s) {f : Fetched} (hf : f ∈ fetches outs) :
    f.fromBuffer = true ↔ f.obtained ∈ (keptOf outs).map (·.item) := by
  constructor
  · intro hb
    obtain ⟨a, ha, hax, -⟩ := h.received f hf hb
    exact List.mem_map.mpr ⟨a, ha, hax⟩
  · intro hmem
    obtain ⟨a, ha, hax⟩ := List.mem_map.mp hmem
    by_contra hb
    exact h.made f hf (by simpa using hb) a (mem_keptOf.mp ha).1 (by rw [hax])

/-- The received items played are those that all fetches but the last obtained. -/
theorem Inv.playedItems_eq (h : Inv c outs s) :
    playedItems outs = ((fetches outs).dropLast.filter (·.fromBuffer)).map (·.obtained) := by
  rw [playedItems, h.filterMap_played, List.filter_map]
  refine congrArg _ (List.filter_congr fun f hf => ?_)
  have hiff := h.fromBuffer_iff (List.mem_of_mem_dropLast hf)
  exact (Bool.eq_iff_iff.mpr (hiff.trans (decide_eq_true_iff).symm)).symm

theorem Inv.order (h : Inv c outs s) : playedItems outs <+: (keptOf outs).map (·.item) := by
  rw [h.playedItems_eq]
  have hall : (receivedOf outs).map (·.obtained) <+: (keptOf outs).map (·.item) := by
    rw [h.conservation]
    exact List.prefix_append _ _
  exact (((List.dropLast_prefix _).filter _).map _).trans hall

theorem Inv.once (h : Inv c outs s) (it : Item) :
    ((fetches outs).filter fun f => f.played = some it).length ≤ 1 := by
  have hmap : (fetches outs).dropLast.map (·.obtained.segment) =
      ((fetches outs).dropLast.map (·.obtained)).map (·.segment) := List.map_map.symm
  have hnd : ((fetches outs).dropLast.map (·.obtained)).Nodup := by
    have hseg := h.obtainedNodup.sublist ((List.dropLast_sublist (fetches outs)).map _)
    rw [hmap] at hseg
    exact List.Nodup.of_map _ hseg
  rw [← h.filterMap_played] at hnd
  have hcount := List.nodup_iff_count_le_one.mp hnd it
  rw [List.count_filterMap, List.countP_eq_length_filter] at hcount
  simpa only [beq_eq_decide] using hcount

/-- A received segment is played as it was appended, but for one fade. -/
theorem Inv.samples (h : Inv c outs s) {n : ℕ} {g : Fetched} {a : Appended} (hg : (fetches outs)[n]? = some g)
    (ha : a ∈ keptOf outs) (hp : g.played = some a.item) :
    g.outData = if g.fromBuffer = false ∧ 2 ≤ n then faded c 0 a.samples else a.samples := by
  obtain ⟨m, f, rfl, hf, hfa⟩ := h.played_some hg hp
  have hmem : f ∈ fetches outs := List.mem_of_getElem? hf
  have hb : f.fromBuffer = true := (h.fromBuffer_iff hmem).mpr (List.mem_map.mpr ⟨a, ha, hfa.symm⟩)
  obtain ⟨a', ha', hax, hdata⟩ := h.received f hmem hb
  obtain rfl : a' = a := List.inj_on_of_nodup_map h.keptNodup ha' ha (by rw [hax, hfa])
  rw [(h.next m f g hf hg).2, hdata]
  simp only [Nat.reduceLeDiff]

/-- A segment that found no room is never played. -/
theorem Inv.dropped (h : Inv c outs s) {a : Appended} (ha : a ∈ appends outs) (hk : a.kept = false) {f : Fetched}
    (hf : f ∈ fetches outs) {it : Item} (hp : f.played = some it) : it.segment ≠ a.item.segment := by
  obtain ⟨n, hn⟩ := List.mem_iff_getElem?.mp hf
  obtain ⟨m, g, rfl, hg, rfl⟩ := h.played_some hn hp
  have hmem : g ∈ fetches outs := List.mem_of_getElem? hg
  rcases Bool.eq_false_or_eq_true g.fromBuffer with hb | hb
  · obtain ⟨a', ha', hax, -⟩ := h.received g hmem hb
    intro he
    have haa : a' = a := List.inj_on_of_nodup_map h.appendedNodup (mem_keptOf.mp ha').1 ha (by rw [hax, he])
    rw [← haa, (mem_keptOf.mp ha').2] at hk
    cases hk
  · exact (h.made g hmem hb a ha).symm

/-- The suffix of a history, as pops of the queue there was. -/
theorem Inv.pops_suffix (h : Inv c outs s) {pre post : List DownObs} (hsplit : outs = pre ++ post) :
    (fetches post).map popOf = Fifo.pops JitterBuffer.capacity
      (Fifo.after JitterBuffer.capacity [] (pre.map fifoOp)) (post.map fifoOp) := by
  have hpops := h.pops
  rw [hsplit, fetches_append, List.map_append, List.map_append, Fifo.pops_append] at hpops
  exact (List.append_inj hpops (by rw [List.length_map, length_pops])).2

/-- A segment that found room is played within 101 fetches. -/
theorem Inv.delay (h : Inv c outs s) {pre post : List DownObs} {a : Appended}
    (hsplit : outs = pre ++ .appended a :: post) (hk : a.kept = true) (h101 : 101 ≤ (fetches post).length) :
    ∃ k < 101, ∃ f, (fetches post)[k]? = some f ∧ f.played = some a.item := by
  obtain ⟨hroom, hlen⟩ := h.room pre a ⟨post, by rw [hsplit]; simp⟩
  set q := Fifo.after JitterBuffer.capacity [] (pre.map fifoOp) with hq
  have hq100 : q.length < 100 := hlen ▸ hroom.mp hk
  have hpops : (fetches post).map popOf =
      Fifo.pops JitterBuffer.capacity q (.push a.item :: post.map fifoOp) := h.pops_suffix hsplit
  -- the pop that finds the segment, and the fetch after it
  have hfind := Fifo.pops_push JitterBuffer.capacity a.item (post.map fifoOp) hq100
    (by rw [← hpops, List.length_map]; omega)
  rw [← hpops, List.getElem?_map] at hfind
  obtain ⟨f, hf, hpop⟩ := Option.map_eq_some_iff.mp hfind
  have hfa : f.obtained = a.item := by
    rw [popOf] at hpop
    split at hpop
    · exact Option.some.inj hpop
    · cases hpop
  have hlt : q.length + 1 < (fetches post).length := by omega
  have hplace : ∀ n, (fetches outs)[(fetches pre).length + n]? = (fetches post)[n]? := by
    intro n
    rw [hsplit, fetches_append, List.getElem?_append_right (Nat.le_add_right _ _), Nat.add_sub_cancel_left]
    rfl
  have hg : (fetches post)[q.length + 1]? = some (fetches post)[q.length + 1] := List.getElem?_eq_getElem hlt
  refine ⟨q.length + 1, by omega, _, hg, ?_⟩
  rw [(h.next ((fetches pre).length + q.length) f _ ((hplace _).trans hf) ((hplace _).trans hg)).1, hfa]

end

section

variable {D N K : Type} [Field K] [LinearOrder K] [FloorRing K] {c : FadeCurve K}

omit [Field K] [LinearOrder K] [FloorRing K] in
theorem append_samples (dec : Decoders D N) (s : DownstreamProcessor D N) (p : NetPacket) (beyond : PcmSegment) :
    (s.append dec p beyond).2.samples = DownstreamProcessor.copyBlock (decodedPcm dec s p) beyond := by
  show DownstreamProcessor.copyBlock (s.decodePacket dec p (List.replicate blockSize 0)).2.1 beyond = _
  unfold DownstreamProcessor.decodePacket decodedPcm
  split
  · rfl
  · split <;> rfl

variable {dec : Decoders D N} {d : D} {n : N} {ops : List DownOp} {outs : List DownObs} {s : DownstreamProcessor D N}

omit [Field K] [LinearOrder K] [FloorRing K] in
theorem single_output {x y : DownObs} {u w : List DownObs} (h : [y] = u ++ x :: w) : u = [] ∧ y = x := by
  obtain ⟨rfl, hx⟩ | ⟨-, hnil⟩ := List.append_eq_singleton_iff.mp h.symm
  · exact ⟨rfl, (List.cons.inj hx).1.symm⟩
  · cases hnil

/-- An appended segment, and the call that appended it. -/
theorem appended_of_exec (h : DownstreamProcessor.exec dec c d n ops = some (s, outs)) {pre post : List DownObs}
    {a : Appended} (ho : outs = pre ++ .appended a :: post) : ∃ before beyond s₁,
      before ++ [.append a.packet beyond] <+: ops ∧ DownstreamProcessor.exec dec c d n before = some (s₁, pre) ∧
      a.samples = DownstreamProcessor.copyBlock (decodedPcm dec s₁ a.packet) beyond := by
  obtain ⟨before, op, s₁, o₁, s₂, u, w, hbefore, hexec, hstep, hpre⟩ := Lts.output_origin _ h ho
  cases op with
  | append p beyond =>
    have hone : [DownObs.appended (s₁.append dec p beyond).2] = u ++ .appended a :: w :=
      congrArg Prod.snd (Option.some.inj hstep)
    obtain ⟨rfl, ha⟩ := single_output hone
    cases ha
    rw [List.append_nil] at hpre
    exact ⟨before, beyond, s₁, hbefore, hpre ▸ hexec, append_samples dec s₁ p beyond⟩
  | fetch =>
    simp only [DownstreamProcessor.step] at hstep
    split at hstep
    · have hone : [DownObs.fetched _] = u ++ .appended a :: w := congrArg Prod.snd (Option.some.inj hstep)
      cases (single_output hone).2
    · cases hstep

/-- **The invariant says what is played.** -/
theorem Inv.spec (h : Inv c outs s) (hexec : DownstreamProcessor.exec dec c d n ops = some (s, outs)) :
    Spec dec c d n ops outs where
  decoded := fun _ _ _ ho => appended_of_exec hexec ho
  first := h.first
  next := h.next
  room := fun pre a hpre => (h.room pre a hpre).1
  order := h.order
  once := fun a _ => h.once a.item
  delay := fun _ _ _ hsplit hk h101 => h.delay hsplit hk h101
  samples := fun _ _ _ hg ha hp => h.samples hg ha hp
  dropped := fun _ ha hk _ hf _ hp => h.dropped ha hk hf hp

end

end Playout

open Playout

/-- **The playout.** Whatever the decoders and the fade's curve, and in whatever
order packets arrive and segments are fetched: no call fails, and what is
played is as `Playout.Spec` says. -/
theorem playout {D N K : Type} [Field K] [LinearOrder K] [IsStrictOrderedRing K] [FloorRing K]
    (dec : Decoders D N) (c : FadeCurve K) (d : D) (n : N) (ops : List DownOp) :
    ∃ s outs, DownstreamProcessor.exec dec c d n ops = some (s, outs) ∧ Spec dec c d n ops outs := by
  obtain ⟨s, outs, hexec, hinv⟩ := inv_exec dec c d n ops
  exact ⟨s, outs, hexec, hinv.spec hexec⟩

/-- A decoder that makes louder and louder blocks, and comfort noise that can be heard. -/
def louderDecoders : Decoders Int16 Unit :=
  ⟨fun d _ => (d + 1000, some (List.replicate blockSize d)), fun n _ => n, fun n _ => (n, fun _ => 100)⟩

/-- Two packets, and two fetches that find them. -/
def sampleFound : List DownOp :=
  List.replicate 2 (.append ⟨sampleBytes 7, by decide⟩ PcmSegment.silence) ++ List.replicate 2 .fetch

/-- A third fetch finds nothing, and fades the second segment before it plays it. -/
theorem playout_underrun : ∃ s outs a g,
    DownstreamProcessor.exec louderDecoders sampleCurve 1000 () (sampleFound ++ [.fetch]) = some (s, outs) ∧
    a ∈ keptOf outs ∧ a.samples = (fun _ => 2000) ∧ (fetches outs)[2]? = some g ∧ g.played = some a.item ∧
    g.outData = faded sampleCurve 0 a.samples ∧ g.outData ≠ a.samples := by
  obtain ⟨s, outs, hexec, hspec⟩ := playout louderDecoders sampleCurve 1000 () (sampleFound ++ [.fetch])
  obtain ⟨s₁, o₁, o₂, hfound, hstep, rfl⟩ := (Lts.exec_concat _).mp hexec
  obtain ⟨s', o', hfound', hinv⟩ := inv_exec louderDecoders sampleCurve 1000 () sampleFound
  cases hfound.symm.trans hfound'
  obtain ⟨r, hr, hfetch⟩ := s₁.fetch_spec louderDecoders sampleCurve hinv.valid
  cases (DownstreamProcessor.step_fetch hr).symm.trans hstep
  obtain ⟨a, b, f, g, rfl, hsamples, hkept, hempty, hlast⟩ : ∃ a b f g,
      o₁ = [.appended a, .appended b, .fetched f, .fetched g] ∧ b.samples = (fun _ => 2000) ∧ b.kept = true ∧
      s₁.jitterBuffer_ = [] ∧ s₁.m1_ = some b.item := by
    have hrun : DownstreamProcessor.exec louderDecoders sampleCurve 1000 () sampleFound = some (_, _) := rfl
    cases hfound.symm.trans hrun
    refine ⟨_, _, _, _, rfl, funext fun pos => ?_, rfl, rfl, rfl⟩
    exact List.getD_replicate _ pos.isLt
  have hb : b ∈ keptOf ([.appended a, .appended b, .fetched f, .fetched g] ++ [.fetched r.2]) :=
    mem_keptOf.mpr ⟨List.mem_cons_of_mem _ List.mem_cons_self, hkept⟩
  have hfrom : r.2.fromBuffer = false := by
    rcases hfetch.source with ⟨hfull, -⟩ | ⟨-, -, -, hfrom, -⟩
    · rw [hempty] at hfull
      cases hfull
    · exact hfrom
  have hout := hspec.samples 2 r.2 b rfl hb (hfetch.played.trans hlast)
  rw [if_pos ⟨hfrom, Nat.le_refl 2⟩] at hout
  refine ⟨_, _, b, r.2, hexec, hb, hsamples, rfl, hfetch.played.trans hlast, hout, ?_⟩
  rw [hout, hsamples]
  intro hsame
  have hquiet := (faded_eq_self_iff sampleCurve 0 _).mp hsame
  exact absurd (hquiet ⟨1, by decide⟩ (by decide)) (by decide)

end EasyVoiceCall
