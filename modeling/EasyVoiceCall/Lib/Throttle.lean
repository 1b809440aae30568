/-
# A throttle

A throttle lets a call pass when more than its period has gone by since the last that passed.
A call reads the clock up to three times: `first` counts where there is nothing to count from, `now` is
compared, and `later` is kept of a call that passes. Nothing is asked of the clock, which may
go back between any two readings, but for `count_le`, where it does not go back within a call.

Key definitions: `Throttle.Passes`, `Throttle.since`, `Throttle.passed`.
Key theorems: `Throttle.since_eq`, `Throttle.passed_spaced`, `Throttle.count_le`.
-/
import Mathlib.Algebra.Order.Group.Defs
import Mathlib.Data.List.Chain
import Mathlib.Data.List.Induction
import Mathlib.Tactic.Abel

/-- What the calls read of the clock, and the period. -/
structure Throttle (C T : Type*) where
  first : C → T
  now : C → T
  later : C → T
  period : T

namespace Throttle

variable {C T : Type*} [AddCommGroup T] [LinearOrder T] (t : Throttle C T)

/-- The call passes, where `since` is what it counts from. -/
def Passes (since : Option T) (c : C) : Prop := t.period < t.now c - since.getD (t.first c)

instance (since : Option T) (c : C) : Decidable (t.Passes since c) := by
  unfold Passes
  infer_instance

/-- What the next call counts from. -/
def next (since : Option T) (c : C) : Option T :=
  some (if t.Passes since c then t.later c else since.getD (t.first c))

/-- What a call counts from that comes after the calls `cs`. -/
def since (cs : List C) : Option T := cs.foldl t.next none

/-- Those of the calls that pass. -/
def passed (cs : List C) : List C :=
  (cs.foldl (fun s c => (t.next s.1 c, if t.Passes s.1 c then s.2 ++ [c] else s.2)) (none, [])).2

theorem since_concat (cs : List C) (c : C) : t.since (cs ++ [c]) = t.next (t.since cs) c := by
  simp [since]

theorem passed_concat (cs : List C) (c : C) :
    t.passed (cs ++ [c]) = if t.Passes (t.since cs) c then t.passed cs ++ [c] else t.passed cs := by
  have hfst : ∀ cs : List C,
      (cs.foldl (fun s c => (t.next s.1 c, if t.Passes s.1 c then s.2 ++ [c] else s.2)) (none, [])).1 =
        t.since cs := by
    intro cs
    induction cs using List.reverseRecOn with
    | nil => rfl
    | append_singleton cs c ih => rw [List.foldl_append, since_concat, ← ih]; rfl
  rw [passed, List.foldl_append]
  dsimp only [List.foldl_cons, List.foldl_nil]
  rw [hfst]
  rfl

theorem passed_subset (cs : List C) : t.passed cs ⊆ cs := by
  induction cs using List.reverseRecOn with
  | nil => exact List.Subset.refl []
  | append_singleton cs c ih =>
    rw [passed_concat]
    split
    · exact List.append_subset.mpr ⟨List.subset_append_of_subset_left _ ih, List.subset_append_right _ _⟩
    · exact List.subset_append_of_subset_left _ ih

/-- What is counted from: the last call that passed, or what the first of all has read. -/
theorem since_eq (cs : List C) :
    t.since cs = match (t.passed cs).getLast? with
      | some c => some (t.later c)
      | none => cs.head?.map t.first := by
  induction cs using List.reverseRecOn with
  | nil => rfl
  | append_singleton cs c ih =>
    rw [since_concat, passed_concat, next]
    split
    · rw [List.getLast?_concat]
    · rw [ih]
      cases hlast : (t.passed cs).getLast? with
      | some d => rfl
      | none => cases cs <;> rfl

/-- **Calls that pass are apart.** -/
theorem passed_spaced (cs : List C) : (t.passed cs).IsChain fun c d => t.period < t.now d - t.later c := by
  induction cs using List.reverseRecOn with
  | nil => exact .nil
  | append_singleton cs d ih =>
    rw [passed_concat]
    split
    · rename_i hpass
      refine ih.append (List.isChain_singleton d) fun c hc e he => ?_
      have hlast : t.since cs = some (t.later c) := by rw [since_eq, Option.mem_def.mp hc]
      rw [Passes, hlast] at hpass
      cases he
      exact hpass
    · exact ih

theorem since_cons (c₀ : C) (cs : List C) : ∃ u, t.since (c₀ :: cs) = some u := by
  rw [since_eq]
  split
  · exact ⟨_, rfl⟩
  · exact ⟨_, rfl⟩

/-- **How many pass.** Each takes a period of the time since the first of all calls. -/
theorem count_le [IsOrderedAddMonoid T] {c₀ : C} {cs : List C} (h : ∀ c ∈ c₀ :: cs, t.now c ≤ t.later c) {u : T}
    (hu : t.since (c₀ :: cs) = some u) : (t.passed (c₀ :: cs)).length • t.period ≤ u - t.first c₀ := by
  -- a call that passes moves what is counted from by more than a period
  have hmove : ∀ {c : C} {since : Option T} {w : T}, t.now c ≤ t.later c → since.getD (t.first c) = w →
      t.Passes since c → t.period ≤ t.later c - w := by
    intro c since w hc hw hpass
    rw [Passes, hw] at hpass
    calc t.period ≤ t.now c - w := hpass.le
      _ ≤ t.later c - w := sub_le_sub_right hc w
  induction cs using List.reverseRecOn generalizing u with
  | nil =>
    have hone := t.passed_concat [] c₀
    have hfrom := (t.since_concat [] c₀).symm.trans hu
    rw [next] at hfrom
    rw [List.nil_append] at hone
    rw [hone]
    split at hfrom
    · rename_i hpass
      cases hfrom
      rw [if_pos hpass]
      calc _ = t.period := one_nsmul _
        _ ≤ t.later c₀ - t.first c₀ := hmove (h c₀ List.mem_cons_self) rfl hpass
    · rename_i hpass
      cases hfrom
      rw [if_neg hpass]
      exact (zero_nsmul t.period).le.trans (sub_self (t.first c₀)).ge
  | append_singleton cs c ih =>
    obtain ⟨w, hw⟩ := t.since_cons c₀ cs
    have hle := ih (fun d hd => h d (List.mem_append_left [c] hd)) hw
    rw [← List.cons_append, since_concat, next, hw] at hu
    rw [← List.cons_append, passed_concat, hw]
    split at hu
    · rename_i hpass
      cases hu
      rw [if_pos hpass, List.length_append, List.length_singleton, succ_nsmul]
      calc _ ≤ (w - t.first c₀) + (t.later c - w) := add_le_add hle (hmove (h c (by simp)) rfl hpass)
        _ = t.later c - t.first c₀ := by abel
    · rename_i hpass
      cases hu
      rwa [if_neg hpass]

end Throttle
