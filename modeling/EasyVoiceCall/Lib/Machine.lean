/-
# Runs of a machine

Two kinds of machine. A `Mealy` machine takes every input in every state: it
has a state and an output after any list of inputs. An `Lts` takes an action
only where it is enabled: a run is a list of actions, each enabled where it is
taken. For both, a property of the state (or of the state and the history)
that holds at the start and that one step preserves holds after every run.
`History.last` is the last event of a kind in a history.

Key theorems: `Mealy.history_rule`, `Lts.exec_concat`, `Lts.history_rule`,
`Lts.output_origin`, `Lts.along_iff_outputs`, `Lts.along_mono_rule`, `Lts.along_rule`, `Lts.split_rule`,
`Lts.record_rule`, `Lts.cause_rule`, `Lts.variant_rule`, `Lts.reach_rule`, `Lts.total_rule`, `Lts.erase_rule`, `Lts.consume_rule`, `History.last_concat`.
-/
import Mathlib.Data.List.Basic
import Mathlib.Data.List.Induction
import Mathlib.Data.Option.Basic

namespace Mealy

variable {S I O : Type*} (step : S → I → S × O)

/-- The state after the inputs. -/
def state (s : S) (is : List I) : S := is.foldl (fun s i => (step s i).1) s

/-- The outputs, one for each input. -/
def outputs : S → List I → List O
  | _, [] => []
  | s, i :: is => (step s i).2 :: outputs (step s i).1 is

@[simp] theorem state_concat (s : S) (is : List I) (i : I) :
    state step s (is ++ [i]) = (step (state step s is) i).1 := by
  simp [state]

theorem state_append (s : S) (is js : List I) : state step s (is ++ js) = state step (state step s is) js :=
  List.foldl_append

theorem outputs_append (s : S) (is js : List I) :
    outputs step s (is ++ js) = outputs step s is ++ outputs step (state step s is) js := by
  induction is generalizing s with
  | nil => rfl
  | cons i is ih =>
    rw [List.cons_append, outputs, ih]
    rfl

/-- **Invariants over histories.** What holds of the empty history and what a
step extends holds of every history and the state it leads to. -/
theorem history_rule (P : List I → S → Prop) {s : S} (h0 : P [] s)
    (hs : ∀ is s i, P is s → P (is ++ [i]) (step s i).1) (is : List I) : P is (state step s is) := by
  induction is using List.reverseRecOn with
  | nil => exact h0
  | append_singleton is i ih =>
    rw [state_concat]
    exact hs is _ i ih

/-- The same for inputs of a kind `Q`. -/
theorem history_rule_of (Q : I → Prop) (P : List I → S → Prop) {s : S} (h0 : P [] s)
    (hs : ∀ is s i, Q i → P is s → P (is ++ [i]) (step s i).1) (is : List I) (hQ : ∀ i ∈ is, Q i) :
    P is (state step s is) := by
  refine history_rule step (fun is s => (∀ i ∈ is, Q i) → P is s) (fun _ => h0) ?_ is hQ
  intro is s i ih hQ'
  exact hs is s i (hQ' i (by simp)) (ih fun j hj => hQ' j (by simp [hj]))

end Mealy

namespace History

variable {α : Type*} (p : α → Bool)

/-- The last event of the kind `p`. -/
def last (h : List α) : Option α := (h.filter p).getLast?

@[simp] theorem last_nil : last p [] = none := rfl

theorem last_concat (h : List α) (a : α) :
    last p (h ++ [a]) = if p a then some a else last p h := by
  by_cases ha : p a <;> simp [last, List.filter_append, ha]

/-- Events of other kinds do not count. -/
theorem last_append_of_none {h h' : List α} (hn : ∀ a ∈ h', p a = false) : last p (h ++ h') = last p h := by
  have hnil : h'.filter p = [] := List.filter_eq_nil_iff.mpr fun a ha => by rw [hn a ha]; exact Bool.false_ne_true
  rw [last, List.filter_append, hnil, List.append_nil]
  rfl

/-- The last event of a kind, where it is of a kind within that one. -/
theorem last_of_imp {q : α → Bool} (hqp : ∀ a, q a = true → p a = true) {h : List α} :
    (∀ a, last p h = some a → q a = true → last q h = some a) ∧ (last p h = none → last q h = none) := by
  have hfilter : h.filter q = (h.filter p).filter q := by
    rw [List.filter_filter]
    refine List.filter_congr fun a _ => ?_
    cases hq : q a with
    | true => rw [hqp a hq]; rfl
    | false => rfl
  refine ⟨fun a hl ha => ?_, fun hl => ?_⟩
  · obtain ⟨l, hl⟩ := List.getLast?_eq_some_iff.mp hl
    rw [last, hfilter, hl, List.filter_append, List.filter_cons_of_pos ha]
    exact List.getLast?_concat
  · rw [last, hfilter, List.getLast?_eq_none_iff.mp hl]
    rfl

theorem last_mem {h : List α} {a : α} (hl : last p h = some a) : a ∈ h ∧ p a := by
  have := List.mem_of_getLast? hl
  exact List.mem_filter.mp this

end History

namespace Lts

variable {S A O : Type*} (step : S → A → Option (S × List O))

/-- The state after the actions and all they put out, if each was enabled. -/
def exec : S → List A → Option (S × List O)
  | s, [] => some (s, [])
  | s, a :: as =>
    match step s a with
    | none => none
    | some (s₁, o₁) =>
      match exec s₁ as with
      | none => none
      | some (s₂, o₂) => some (s₂, o₁ ++ o₂)

@[simp] theorem exec_nil (s : S) : exec step s [] = some (s, []) := rfl

theorem exec_cons_iff {s s' : S} {a : A} {as : List A} {o : List O} :
    exec step s (a :: as) = some (s', o) ↔
      ∃ s₁ o₁ o₂, step s a = some (s₁, o₁) ∧ exec step s₁ as = some (s', o₂) ∧ o = o₁ ++ o₂ := by
  rw [exec]
  rcases hstep : step s a with _ | ⟨s₁, o₁⟩
  · simp
  · dsimp only
    rcases hexec : exec step s₁ as with _ | ⟨s₂, o₂⟩
    · simp only [reduceCtorEq, false_iff]
      rintro ⟨t, p, q, h1, h2, -⟩
      cases h1
      rw [hexec] at h2
      cases h2
    · constructor
      · intro h
        cases h
        exact ⟨s₁, o₁, o₂, rfl, hexec, rfl⟩
      · rintro ⟨t, p, q, h1, h2, rfl⟩
        cases h1
        rw [hexec] at h2
        cases h2
        rfl

theorem exec_append_iff {s s' : S} {as bs : List A} {o : List O} :
    exec step s (as ++ bs) = some (s', o) ↔
      ∃ s₁ o₁ o₂, exec step s as = some (s₁, o₁) ∧ exec step s₁ bs = some (s', o₂) ∧ o = o₁ ++ o₂ := by
  induction as generalizing s o with
  | nil => simp
  | cons a as ih =>
    rw [List.cons_append, exec_cons_iff]
    constructor
    · rintro ⟨s₁, o₁, o₂, h1, h2, rfl⟩
      obtain ⟨s₂, p₁, p₂, h3, h4, rfl⟩ := ih.mp h2
      exact ⟨s₂, o₁ ++ p₁, p₂, (exec_cons_iff step).mpr ⟨s₁, o₁, p₁, h1, h3, rfl⟩, h4, by simp⟩
    · rintro ⟨s₂, q, p₂, h1, h4, rfl⟩
      obtain ⟨s₁, o₁, p₁, h2, h3, rfl⟩ := (exec_cons_iff step).mp h1
      exact ⟨s₁, o₁, p₁ ++ p₂, h2, ih.mpr ⟨s₂, p₁, p₂, h3, h4, rfl⟩, by simp⟩

/-- A run's last action. -/
theorem exec_concat {s s' : S} {as : List A} {a : A} {o : List O} :
    exec step s (as ++ [a]) = some (s', o) ↔
      ∃ s₁ o₁ o₂, exec step s as = some (s₁, o₁) ∧ step s₁ a = some (s', o₂) ∧ o = o₁ ++ o₂ := by
  rw [exec_append_iff]
  constructor
  · rintro ⟨s₁, o₁, o₂, h1, h2, rfl⟩
    obtain ⟨t, p, q, h3, h4, rfl⟩ := (exec_cons_iff step).mp h2
    simp only [exec_nil, Option.some.injEq, Prod.mk.injEq] at h4
    obtain ⟨rfl, rfl⟩ := h4
    exact ⟨s₁, o₁, p, h1, h3, by simp⟩
  · rintro ⟨s₁, o₁, o₂, h1, h2, rfl⟩
    exact ⟨s₁, o₁, o₂, h1, (exec_cons_iff step).mpr ⟨s', o₂, [], h2, rfl, by simp⟩, rfl⟩

/-- **Invariants over histories.** What holds at the start and what every
enabled action extends holds after every run. -/
theorem history_rule (P : List A → S → List O → Prop) {s : S} (h0 : P [] s [])
    (hs : ∀ as s o a s' o', P as s o → step s a = some (s', o') → P (as ++ [a]) s' (o ++ o')) :
    ∀ {as : List A} {s' : S} {o : List O}, exec step s as = some (s', o) → P as s' o := by
  intro as
  induction as using List.reverseRecOn with
  | nil =>
    intro s' o h
    simp only [exec_nil, Option.some.injEq, Prod.mk.injEq] at h
    obtain ⟨rfl, rfl⟩ := h
    exact h0
  | append_singleton as a ih =>
    intro s' o h
    obtain ⟨s₁, o₁, o₂, h1, h2, rfl⟩ := (exec_concat step).mp h
    exact hs as s₁ o₁ a s' o₂ (ih h1) h2

/-- **Where an output comes from**: the action that put it out, and the run up to it. -/
theorem output_origin {as : List A} {s s' : S} {o pre post : List O} {x : O} (h : exec step s as = some (s', o))
    (ho : o = pre ++ x :: post) : ∃ before a s₁ o₁ s₂ u w, before ++ [a] <+: as ∧
      exec step s before = some (s₁, o₁) ∧ step s₁ a = some (s₂, u ++ x :: w) ∧ pre = o₁ ++ u := by
  induction as using List.reverseRecOn generalizing s' o post with
  | nil =>
    cases h
    exact absurd ho.symm (List.append_ne_nil_of_right_ne_nil _ (List.cons_ne_nil _ _))
  | append_singleton as a ih =>
    obtain ⟨s₁, o₁, o₂, hrun, hstep, rfl⟩ := (exec_concat step).mp h
    have hearlier : ∀ {post' : List O}, o₁ = pre ++ x :: post' → _ := fun he => ih hrun he
    rcases List.append_eq_append_iff.mp ho with ⟨mid, rfl, hmid⟩ | ⟨mid, hpre, hmid⟩
    · -- the last action put it out
      exact ⟨as, a, s₁, o₁, s', mid, post, List.prefix_refl _, hrun, hmid ▸ hstep, rfl⟩
    · cases mid with
      | nil =>
        rw [List.append_nil] at hpre
        exact ⟨as, a, s₁, o₁, s', [], post, List.prefix_refl _, hrun, hmid ▸ hstep, by rw [hpre, List.append_nil]⟩
      | cons y mid =>
        obtain ⟨rfl, -⟩ := List.cons.inj hmid
        obtain ⟨before, b, t, p, t', u, w, hbefore, hrest⟩ := hearlier hpre
        exact ⟨before, b, t, p, t', u, w, hbefore.trans (List.prefix_append _ _), hrest⟩

/-- Each action of the run is taken in a state where `C` allows it. -/
def Along (C : S → A → Prop) (s : S) (as : List A) : Prop :=
  ∀ pre a s₁ o₁, pre ++ [a] <+: as → exec step s pre = some (s₁, o₁) → C s₁ a

theorem along_nil (C : S → A → Prop) (s : S) : Along step C s [] := by
  rintro pre a s₁ o₁ ⟨post, hpost⟩
  simp at hpost

theorem along_cons_iff {C : S → A → Prop} {s : S} {a : A} {as : List A} : Along step C s (a :: as) ↔
    C s a ∧ ∀ s₁ o₁, step s a = some (s₁, o₁) → Along step C s₁ as := by
  constructor
  · intro h
    refine ⟨h [] a s [] ⟨as, rfl⟩ rfl, fun s₁ o₁ hstep pre b s₂ o₂ hpre hexec => ?_⟩
    refine h (a :: pre) b s₂ (o₁ ++ o₂) (List.cons_prefix_cons.mpr ⟨rfl, hpre⟩) ?_
    exact (exec_cons_iff step).mpr ⟨s₁, o₁, o₂, hstep, hexec, rfl⟩
  · rintro ⟨hC, h⟩ pre b s₂ o₂ hpre hexec
    cases pre with
    | nil =>
      obtain ⟨rfl, -⟩ := List.cons_prefix_cons.mp hpre
      cases hexec
      exact hC
    | cons c pre =>
      obtain ⟨rfl, hpre'⟩ := List.cons_prefix_cons.mp hpre
      obtain ⟨s₁, o₁, o₃, hstep, hrest, -⟩ := (exec_cons_iff step).mp hexec
      exact h s₁ o₁ hstep pre b s₂ o₃ hpre' hrest

/-- The last action of a run. -/
theorem along_concat_iff {C : S → A → Prop} {s s₁ : S} {as : List A} {a : A} {o : List O}
    (h : exec step s as = some (s₁, o)) : Along step C s (as ++ [a]) ↔ Along step C s as ∧ C s₁ a := by
  constructor
  · intro hC
    refine ⟨fun pre b t p hpre => hC pre b t p (hpre.trans (List.prefix_append _ _)), ?_⟩
    exact hC as a s₁ o (List.prefix_refl _) h
  · rintro ⟨hC, ha⟩ pre b t p hpre hexec
    rcases List.prefix_concat_iff.mp hpre with heq | hpre
    · obtain ⟨rfl, hb⟩ := List.append_inj' heq rfl
      rw [h] at hexec
      cases hexec
      cases hb
      exact ha
    · exact hC pre b t p hpre hexec

/-- A run is checked step by step. -/
instance decidableAlong (C : S → A → Prop) [∀ s a, Decidable (C s a)] :
    ∀ (s : S) (as : List A), Decidable (Along step C s as)
  | s, [] => isTrue (along_nil step C s)
  | s, a :: as =>
    match h : step s a with
    | none => decidable_of_iff (C s a)
        ⟨fun hC => (along_cons_iff step).mpr ⟨hC, fun _ _ h' => by rw [h] at h'; cases h'⟩,
          fun hA => ((along_cons_iff step).mp hA).1⟩
    | some (s₁, o₁) =>
      have := decidableAlong C s₁ as
      decidable_of_iff (C s a ∧ Along step C s₁ as)
        ⟨fun hC => (along_cons_iff step).mpr ⟨hC.1, fun _ _ h' => by rw [h] at h'; cases h'; exact hC.2⟩,
          fun hA => ⟨((along_cons_iff step).mp hA).1, ((along_cons_iff step).mp hA).2 s₁ o₁ h⟩⟩

/-- Where `C` can be told from what an action puts out, it can be told from all
that was put out. -/
theorem along_iff_outputs {C : S → A → Prop} {Q : O → Prop}
    (hs : ∀ s a s' o, step s a = some (s', o) → (C s a ↔ ∀ x ∈ o, Q x)) {as : List A} {s s' : S} {o : List O}
    (h : exec step s as = some (s', o)) : Along step C s as ↔ ∀ x ∈ o, Q x := by
  induction as generalizing s o with
  | nil =>
    cases h
    exact iff_of_true (along_nil step C _) fun x hx => by cases hx
  | cons a as ih =>
    obtain ⟨s₁, o₁, o₂, hstep, hexec, rfl⟩ := (exec_cons_iff step).mp h
    have hrest : (∀ t p, step s a = some (t, p) → Along step C t as) ↔ Along step C s₁ as :=
      ⟨fun h' => h' s₁ o₁ hstep, fun h' t p ht => by rw [hstep] at ht; cases ht; exact h'⟩
    rw [along_cons_iff, hrest, hs s a s₁ o₁ hstep, ih hexec, List.forall_mem_append]

/-- **From one condition to another.** Where what holds at the start is preserved by
the actions that `C` allows, and lets them through `D`. -/
theorem along_mono_rule {C D : S → A → Prop} (P : S → Prop)
    (hs : ∀ s a s' o, P s → C s a → step s a = some (s', o) → P s') (hD : ∀ s a, P s → C s a → D s a) {s : S}
    (h0 : P s) {as : List A} (hC : Along step C s as) : Along step D s as := by
  induction as generalizing s with
  | nil => exact along_nil step D s
  | cons a as ih =>
    obtain ⟨hCa, hrest⟩ := (along_cons_iff step).mp hC
    refine (along_cons_iff step).mpr ⟨hD s a h0 hCa, fun s₁ o₁ hstep => ?_⟩
    exact ih (hs s a s₁ o₁ h0 hCa hstep) (hrest s₁ o₁ hstep)

/-- **Invariants of runs of a kind.** What holds at the start and what every action
extends where `C` allows it holds after every run along `C`. -/
theorem along_rule (C : S → A → Prop) (P : S → List O → Prop) {s : S} (h0 : P s [])
    (hs : ∀ s o a s' o', C s a → P s o → step s a = some (s', o') → P s' (o ++ o')) {as : List A} {s' : S}
    {o : List O} (h : exec step s as = some (s', o)) (hC : Along step C s as) : P s' o := by
  have hrun := history_rule step (fun as s' o => exec step s as = some (s', o) ∧ (Along step C s as → P s' o))
    ⟨rfl, fun _ => h0⟩ ?_ h
  · exact hrun.2 hC
  · rintro as s₁ o₁ a s₂ o₂ ⟨hexec, ih⟩ hstep
    refine ⟨(exec_concat step).mpr ⟨s₁, o₁, o₂, hexec, hstep, rfl⟩, fun hC => ?_⟩
    have hP := ih fun pre b t p hpre => hC pre b t p (hpre.trans (List.prefix_append _ _))
    exact hs s₁ o₁ a s₂ o₂ (hC as a s₁ o₁ (List.prefix_refl _) hexec) hP hstep

/-- **A condition and its failure.** Where `P` holds as long as `C` does, the first action that
`C` forbids leads to `Q`, and `Q` stays: a run along `C` ends in `P` and any other in `Q`. -/
theorem split_rule (C : S → A → Prop) (I P Q : S → Prop) (hI : ∀ s a s' o, I s → step s a = some (s', o) → I s')
    (hP : ∀ s a s' o, I s → P s → step s a = some (s', o) → (C s a → P s') ∧ (¬ C s a → Q s'))
    (hQ : ∀ s a s' o, I s → Q s → step s a = some (s', o) → Q s') {s : S} (hI0 : I s) (hP0 : P s) {as : List A}
    {s' : S} {o : List O} (h : exec step s as = some (s', o)) :
    I s' ∧ (Along step C s as → P s') ∧ (¬ Along step C s as → Q s') := by
  have hrun := history_rule step (fun as s' o => exec step s as = some (s', o) ∧
    I s' ∧ (Along step C s as → P s') ∧ (¬ Along step C s as → Q s'))
    ⟨rfl, hI0, fun _ => hP0, fun hno => absurd (along_nil step C s) hno⟩ ?_ h
  · exact hrun.2
  · rintro as s₁ o₁ a s₂ o₂ ⟨hexec, hI₁, hP₁, hQ₁⟩ hstep
    refine ⟨(exec_concat step).mpr ⟨s₁, o₁, o₂, hexec, hstep, rfl⟩, hI _ _ _ _ hI₁ hstep, fun hC => ?_, fun hno => ?_⟩
    · obtain ⟨hC, ha⟩ := (along_concat_iff step hexec).mp hC
      exact (hP _ _ _ _ hI₁ (hP₁ hC) hstep).1 ha
    · by_cases hC : Along step C s as
      · exact (hP _ _ _ _ hI₁ (hP₁ hC) hstep).2 fun ha => hno ((along_concat_iff step hexec).mpr ⟨hC, ha⟩)
      · exact hQ _ _ _ _ hI₁ (hQ₁ hC) hstep

/-- What `note` says of each action, in the state in which it is taken. -/
def record {R : Type*} (note : S → A → List R) : S → List A → List R
  | _, [] => []
  | s, a :: as =>
    match step s a with
    | none => note s a
    | some (s₁, _) => note s a ++ record note s₁ as

theorem record_concat {R : Type*} {note : S → A → List R} {s s₁ : S} {as : List A} {a : A} {o : List O}
    (h : exec step s as = some (s₁, o)) : record step note s (as ++ [a]) = record step note s as ++ note s₁ a := by
  induction as generalizing s o with
  | nil =>
    cases h
    show record step note s₁ [a] = note s₁ a
    rw [record]
    split
    · rfl
    · exact List.append_nil _
  | cons b as ih =>
    obtain ⟨s₂, o₁, o₂, hstep, hexec, rfl⟩ := (exec_cons_iff step).mp h
    rw [List.cons_append, record, record, hstep]
    dsimp only
    rw [ih hexec, List.append_assoc]

/-- **Invariants over records.** -/
theorem record_rule {R : Type*} (note : S → A → List R) (P : List R → S → List O → Prop) {s : S} (h0 : P [] s [])
    (hs : ∀ rs s o a s' o', P rs s o → step s a = some (s', o') → P (rs ++ note s a) s' (o ++ o')) {as : List A}
    {s' : S} {o : List O} (h : exec step s as = some (s', o)) : P (record step note s as) s' o := by
  have hrun := history_rule step (fun as s' o => exec step s as = some (s', o) ∧ P (record step note s as) s' o)
    ⟨rfl, h0⟩ ?_ h
  · exact hrun.2
  · rintro as s₁ o₁ a s₂ o₂ ⟨hexec, hP⟩ hstep
    refine ⟨(exec_concat step).mpr ⟨s₁, o₁, o₂, hexec, hstep, rfl⟩, ?_⟩
    rw [record_concat step hexec]
    exact hs _ s₁ o₁ a s₂ o₂ hP hstep

/-- **What comes before what.** Where something holds of the state and of all that was put
out, and a step that starts there puts out only what all that came before is cause for. -/
theorem cause_rule (P : S → List O → Prop) (C : List O → O → Prop) {s : S} (h0 : P s [])
    (hs : ∀ s o a s' o', P s o → step s a = some (s', o') →
      P s' (o ++ o') ∧ ∀ pre x post, o' = pre ++ x :: post → C (o ++ pre) x)
    {as : List A} {s' : S} {o : List O} (h : exec step s as = some (s', o)) :
    P s' o ∧ ∀ pre x post, o = pre ++ x :: post → C pre x := by
  refine history_rule step (fun _ s' o => P s' o ∧ ∀ pre x post, o = pre ++ x :: post → C pre x)
    ⟨h0, fun pre x post he => by simp at he⟩ ?_ h
  rintro _ s₁ o₁ a s₂ o₂ ⟨hP, hC⟩ hstep
  obtain ⟨hP', hC'⟩ := hs s₁ o₁ a s₂ o₂ hP hstep
  refine ⟨hP', fun pre x post he => ?_⟩
  rcases List.append_eq_append_iff.mp he with ⟨mid, hpre, hmid⟩ | ⟨mid, hpre, hmid⟩
  · exact hpre ▸ hC' mid x post hmid
  · cases mid with
    | nil =>
      rw [List.append_nil] at hpre
      have hfirst := hC' [] x post hmid.symm
      rwa [List.append_nil, hpre] at hfirst
    | cons y mid =>
      obtain ⟨rfl, -⟩ := List.cons.inj hmid
      exact hC pre x mid hpre

/-- **A variant.** Where the actions of a kind lower a number that no action raises, a run
has no more of them than the number at its start. -/
theorem variant_rule (P : S → Prop) (μ : S → ℕ) (counted : A → Bool)
    (hs : ∀ s a s' o, P s → step s a = some (s', o) → P s' ∧ μ s' + (if counted a then 1 else 0) ≤ μ s)
    {as : List A} {s s' : S} {o : List O} (h : exec step s as = some (s', o)) (hP : P s) :
    P s' ∧ as.countP counted + μ s' ≤ μ s := by
  induction as generalizing s o with
  | nil =>
    cases h
    exact ⟨hP, Nat.le_of_eq (Nat.zero_add _)⟩
  | cons a as ih =>
    obtain ⟨s₁, o₁, o₂, hstep, hexec, rfl⟩ := (exec_cons_iff step).mp h
    obtain ⟨hP₁, hμ⟩ := hs s a s₁ o₁ hP hstep
    obtain ⟨hP', hrest⟩ := ih hexec hP₁
    refine ⟨hP', ?_⟩
    rw [List.countP_cons]
    omega

/-- **A goal that can be reached.** Where a state that is not there yet has an action of the
kind `K` that lowers a number, there is a run to the goal no longer than the number. -/
theorem reach_rule (P goal : S → Prop) (K : A → Prop) (μ : S → ℕ)
    (hs : ∀ s, P s → ¬ goal s → ∃ a s' o, K a ∧ step s a = some (s', o) ∧ P s' ∧ μ s' < μ s) {s : S} (hP : P s) :
    ∃ as s' o, exec step s as = some (s', o) ∧ P s' ∧ goal s' ∧ (∀ a ∈ as, K a) ∧ as.length ≤ μ s := by
  induction hn : μ s using Nat.strongRecOn generalizing s with
  | ind n ih =>
    by_cases hg : goal s
    · exact ⟨[], s, [], rfl, hP, hg, fun a ha => absurd ha List.not_mem_nil, Nat.zero_le _⟩
    · obtain ⟨a, s₁, o₁, hK, hstep, hP₁, hlt⟩ := hs s hP hg
      obtain ⟨as, s', o, hexec, hP', hg', hKs, hlen⟩ := ih (μ s₁) (hn ▸ hlt) hP₁ rfl
      refine ⟨a :: as, s', o₁ ++ o, (exec_cons_iff step).mpr ⟨s₁, o₁, o, hstep, hexec, rfl⟩, hP', hg', ?_, ?_⟩
      · exact List.forall_mem_cons.mpr ⟨hK, hKs⟩
      · rw [List.length_cons]
        omega

/-- **Runs without end.** Where what holds enables every action, and each action
extends it, every list of actions is a run. -/
theorem total_rule (P : S → List O → Prop) {s : S} (h0 : P s [])
    (hs : ∀ s o a, P s o → ∃ s' o', step s a = some (s', o') ∧ P s' (o ++ o')) (as : List A) :
    ∃ s' o, exec step s as = some (s', o) ∧ P s' o := by
  induction as using List.reverseRecOn with
  | nil => exact ⟨s, [], rfl, h0⟩
  | append_singleton as a ih =>
    obtain ⟨s₁, o₁, h1, hP⟩ := ih
    obtain ⟨s₂, o₂, h2, hP'⟩ := hs s₁ o₁ a hP
    exact ⟨s₂, o₁ ++ o₂, (exec_concat step).mpr ⟨s₁, o₁, o₂, h1, h2, rfl⟩, hP'⟩

/-- **Actions that do not matter.** `R` relates two states that differ in what `quiet`
actions change. Where such an action keeps the relation and shows nothing, and an
action of the kind `K` is matched by itself and shows the same, a run without its
quiet actions is a run and shows the same. -/
theorem erase_rule {X : Type*} (R : S → S → Prop) (quiet : A → Bool) (K : A → Prop) (see : O → Option X)
    (hq : ∀ s t a s' o, R s t → quiet a = true → step s a = some (s', o) → R s' t ∧ o.filterMap see = [])
    (hk : ∀ s t a s' o, R s t → K a → step s a = some (s', o) →
      ∃ t' p, step t a = some (t', p) ∧ R s' t' ∧ o.filterMap see = p.filterMap see)
    {as : List A} {s t s' : S} {o : List O} (h : exec step s as = some (s', o)) (hR : R s t)
    (hK : ∀ a ∈ as, quiet a = false → K a) :
    ∃ t' p, exec step t (as.filter fun a => !quiet a) = some (t', p) ∧ R s' t' ∧
      o.filterMap see = p.filterMap see := by
  induction as generalizing s t o with
  | nil =>
    cases h
    exact ⟨t, [], rfl, hR, rfl⟩
  | cons a as ih =>
    obtain ⟨s₁, o₁, o₂, hstep, hexec, rfl⟩ := (exec_cons_iff step).mp h
    have hK' : ∀ b ∈ as, quiet b = false → K b := fun b hb => hK b (List.mem_cons_of_mem _ hb)
    rcases hqa : quiet a with _ | _
    · obtain ⟨t₁, p₁, ht, hR₁, hsee⟩ := hk s t a s₁ o₁ hR (hK a List.mem_cons_self hqa) hstep
      obtain ⟨t', p₂, hrun, hR', hsee'⟩ := ih hexec hR₁ hK'
      refine ⟨t', p₁ ++ p₂, ?_, hR', ?_⟩
      · rw [List.filter_cons_of_pos (by simp [hqa])]
        exact (exec_cons_iff step).mpr ⟨t₁, p₁, p₂, ht, hrun, rfl⟩
      · rw [List.filterMap_append, List.filterMap_append, hsee, hsee']
    · obtain ⟨hR₁, hsee⟩ := hq s t a s₁ o₁ hR hqa hstep
      obtain ⟨t', p, hrun, hR', hsee'⟩ := ih hexec hR₁ hK'
      refine ⟨t', p, ?_, hR', ?_⟩
      · rw [List.filter_cons_of_neg (by simp [hqa])]
        exact hrun
      · rw [List.filterMap_append, hsee, hsee', List.nil_append]

/-- **Runs that read a stream.** Where a state that is live can read the next `want` elements
of it and is live again, and not twice for nothing, there is a run that reads the stream up
to less than is wanted next. -/
theorem consume_rule {β : Type*} (live : S → Prop) (want : S → ℕ) (read : A → List β)
    (hs : ∀ s (stream : List β), live s → want s ≤ stream.length → ∃ a s' o, step s a = some (s', o) ∧ live s' ∧
      read a = stream.take (want s) ∧ (want s = 0 → 0 < want s')) (stream : List β) {s : S} (h0 : live s) :
    ∃ as s' o rest, exec step s as = some (s', o) ∧ live s' ∧ rest.length < want s' ∧
      (as.map read).flatten ++ rest = stream := by
  -- a step reads something, or the next one does
  induction hn : 2 * stream.length + (if want s = 0 then 1 else 0) using Nat.strongRecOn
    generalizing stream s with
  | ind n ih =>
    rcases Nat.lt_or_ge stream.length (want s) with hshort | hlong
    · exact ⟨[], s, [], stream, rfl, h0, hshort, rfl⟩
    · obtain ⟨a, s₁, o₁, hstep, hlive, hread, hpos⟩ := hs s stream h0 hlong
      have hless : 2 * (stream.drop (want s)).length + (if want s₁ = 0 then 1 else 0) < n := by
        rw [← hn, List.length_drop]
        split <;> split <;> omega
      obtain ⟨as, s', o, rest, hexec, hlive', hrest, hstream⟩ := ih _ hless (stream.drop (want s)) hlive rfl
      refine ⟨a :: as, s', o₁ ++ o, rest, (exec_cons_iff step).mpr ⟨s₁, o₁, o, hstep, hexec, rfl⟩, hlive', hrest, ?_⟩
      rw [List.map_cons, List.flatten_cons, List.append_assoc, hstream, hread, List.take_append_drop]

/-- What every enabled action preserves holds after every run. -/
theorem invariant_rule (P : S → Prop) {s : S} (h0 : P s)
    (hs : ∀ s a s' o, P s → step s a = some (s', o) → P s') {as : List A} {s' : S} {o : List O}
    (h : exec step s as = some (s', o)) : P s' :=
  history_rule step (fun _ s _ => P s) h0 (fun _ s _ a s' o' hP h => hs s a s' o' hP h) h

end Lts
