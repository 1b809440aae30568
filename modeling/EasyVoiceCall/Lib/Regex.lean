/-
# Regular expressions

A regular expression over any characters, with classes of characters and with anchors, which
are tests of what stands before and after. `run` is the backtracking matcher: it takes the
alternatives in their order, and returns to the next one when what follows fails. It finds a
match if and only if there is one (`run_iff`), so the order has no part in whether there is
one.

An expression without anchors has a language (`Denotes`). Its rules give the languages of the
compound expressions in Mathlib's algebra of languages.

Key definitions: `Regex.run`, `Regex.Takes`, `Regex.Denotes`.
Key theorems: `Regex.run_iff`, `Regex.fullMatch_iff`, `Regex.fullMatch_anchored_iff`,
`Regex.Denotes.append`, `Regex.Denotes.or`.
-/
import Mathlib.Computability.Language

inductive Regex (α : Type) where
  | eps
  | cls (p : α → Bool)
  | seq (r s : Regex α)
  | alt (r s : Regex α)
  /-- An anchor: a test of what is before, in reverse, and of what is after. -/
  | look (p : List α → List α → Bool)

namespace Regex

variable {α : Type}

instance : Append (Regex α) := ⟨seq⟩

instance : OrOp (Regex α) := ⟨alt⟩

/-- `c`. -/
def lit [BEq α] (c : α) : Regex α := cls (· == c)

/-- `[lo-hi]`. -/
def range [LE α] [DecidableLE α] (lo hi : α) : Regex α := cls fun c => decide (lo ≤ c ∧ c ≤ hi)

/-- `r{n}`. -/
def times (r : Regex α) : ℕ → Regex α
  | 0 => eps
  | n + 1 => r ++ r.times n

/-- The matcher, `pre` before the place where it is, in reverse, and `post` after; `k` is what
is to follow. -/
def run : Regex α → List α → List α → (List α → List α → Bool) → Bool
  | eps, pre, post, k => k pre post
  | cls p, pre, post, k =>
    match post with
    | [] => false
    | c :: post => p c && k (c :: pre) post
  | seq r s, pre, post, k => r.run pre post fun pre post => s.run pre post k
  | alt r s, pre, post, k => r.run pre post k || s.run pre post k
  | look p, pre, post, k => p pre post && k pre post

/-- Whether the whole of `input` is a match. -/
def fullMatch (r : Regex α) (input : List α) : Bool := r.run [] input fun _ post => post.isEmpty

/-- `w` is a match, after `pre` and before `post`. -/
def Takes : Regex α → List α → List α → List α → Prop
  | eps, _, w, _ => w = []
  | cls p, _, w, _ => ∃ c, p c = true ∧ w = [c]
  | seq r s, pre, w, post => ∃ u v, u ++ v = w ∧ r.Takes pre u (v ++ post) ∧ s.Takes (u.reverse ++ pre) v post
  | alt r s, pre, w, post => r.Takes pre w post ∨ s.Takes pre w post
  | look p, pre, w, post => w = [] ∧ p pre post = true

/-! ### The matcher finds what there is -/

theorem run_seq_iff {r s : Regex α}
    (ihr : ∀ pre post k, r.run pre post k = true ↔
      ∃ w rest, w ++ rest = post ∧ r.Takes pre w rest ∧ k (w.reverse ++ pre) rest = true)
    (ihs : ∀ pre post k, s.run pre post k = true ↔
      ∃ w rest, w ++ rest = post ∧ s.Takes pre w rest ∧ k (w.reverse ++ pre) rest = true)
    (pre post : List α) (k : List α → List α → Bool) :
    (seq r s).run pre post k = true ↔
      ∃ w rest, w ++ rest = post ∧ (seq r s).Takes pre w rest ∧ k (w.reverse ++ pre) rest = true := by
  rw [run, ihr]
  constructor
  · rintro ⟨u, mid, hmid, hu, hrun⟩
    obtain ⟨v, rest, hrest, hv, hk⟩ := (ihs _ _ _).mp hrun
    subst hrest
    refine ⟨u ++ v, rest, ?_, ⟨u, v, rfl, hu, hv⟩, ?_⟩
    · rw [List.append_assoc]
      exact hmid
    · rw [List.reverse_append, List.append_assoc]
      exact hk
  · rintro ⟨w, rest, hpost, ⟨u, v, huv, hu, hv⟩, hk⟩
    subst huv
    rw [List.reverse_append, List.append_assoc] at hk
    refine ⟨u, v ++ rest, ?_, hu, (ihs _ _ _).mpr ⟨v, rest, rfl, hv, hk⟩⟩
    rw [← List.append_assoc]
    exact hpost

/-- **The matcher succeeds if and only if there is a match after which what follows
succeeds.** -/
theorem run_iff (r : Regex α) : ∀ pre post k, r.run pre post k = true ↔
    ∃ w rest, w ++ rest = post ∧ r.Takes pre w rest ∧ k (w.reverse ++ pre) rest = true := by
  induction r with
  | eps =>
    intro pre post k
    constructor
    · intro hk
      exact ⟨[], post, rfl, rfl, hk⟩
    · rintro ⟨w, rest, rfl, rfl, hk⟩
      exact hk
  | cls p =>
    intro pre post k
    constructor
    · intro hrun
      cases post with
      | nil => exact absurd hrun Bool.false_ne_true
      | cons c post =>
        obtain ⟨hp, hk⟩ := Bool.and_eq_true_iff.mp hrun
        exact ⟨[c], post, rfl, ⟨c, hp, rfl⟩, hk⟩
    · rintro ⟨w, rest, rfl, ⟨c, hp, rfl⟩, hk⟩
      exact Bool.and_eq_true_iff.mpr ⟨hp, hk⟩
  | seq r s ihr ihs => exact run_seq_iff ihr ihs
  | alt r s ihr ihs =>
    intro pre post k
    rw [run, Bool.or_eq_true_iff, ihr, ihs]
    constructor
    · rintro (⟨w, rest, hpost, hr, hk⟩ | ⟨w, rest, hpost, hs, hk⟩)
      · exact ⟨w, rest, hpost, Or.inl hr, hk⟩
      · exact ⟨w, rest, hpost, Or.inr hs, hk⟩
    · rintro ⟨w, rest, hpost, hr | hs, hk⟩
      · exact Or.inl ⟨w, rest, hpost, hr, hk⟩
      · exact Or.inr ⟨w, rest, hpost, hs, hk⟩
  | look p =>
    intro pre post k
    constructor
    · intro hrun
      obtain ⟨hp, hk⟩ := Bool.and_eq_true_iff.mp hrun
      exact ⟨[], post, rfl, ⟨rfl, hp⟩, hk⟩
    · rintro ⟨w, rest, rfl, ⟨rfl, hp⟩, hk⟩
      exact Bool.and_eq_true_iff.mpr ⟨hp, hk⟩

theorem fullMatch_iff (r : Regex α) (input : List α) : r.fullMatch input = true ↔ r.Takes [] input [] := by
  rw [fullMatch, run_iff]
  constructor
  · rintro ⟨w, rest, rfl, hw, hrest⟩
    rw [List.isEmpty_iff.mp hrest] at hw ⊢
    rwa [List.append_nil]
  · intro h
    exact ⟨input, [], List.append_nil input, h, rfl⟩

/-! ### Languages -/

/-- Wherever it stands, the expression matches the words of `l`. -/
def Denotes (r : Regex α) (l : Language α) : Prop := ∀ pre w post, r.Takes pre w post ↔ w ∈ l

namespace Denotes

variable {r s : Regex α} {l m : Language α}

theorem eps : (eps : Regex α).Denotes 1 := fun _ _ _ => Iff.rfl

theorem cls {p : α → Bool} (h : ∀ w, w ∈ l ↔ ∃ c, p c = true ∧ w = [c]) : (cls p).Denotes l :=
  fun _ w _ => (h w).symm

theorem lit [BEq α] [LawfulBEq α] (c : α) : (lit c).Denotes {[c]} := by
  apply Denotes.cls
  intro w
  constructor
  · intro hw
    exact ⟨c, beq_self_eq_true c, hw⟩
  · rintro ⟨d, hd, rfl⟩
    rw [eq_of_beq hd]
    rfl

theorem append (hr : r.Denotes l) (hs : s.Denotes m) : (r ++ s).Denotes (l * m) := by
  intro pre w post
  rw [Language.mem_mul]
  constructor
  · rintro ⟨u, v, huv, hu, hv⟩
    exact ⟨u, (hr _ _ _).mp hu, v, (hs _ _ _).mp hv, huv⟩
  · rintro ⟨u, hu, v, hv, huv⟩
    exact ⟨u, v, huv, (hr _ _ _).mpr hu, (hs _ _ _).mpr hv⟩

theorem or (hr : r.Denotes l) (hs : s.Denotes m) : (r ||| s).Denotes (l + m) := by
  intro pre w post
  rw [Language.mem_add]
  exact or_congr (hr _ _ _) (hs _ _ _)

theorem times (hr : r.Denotes l) (n : ℕ) : (r.times n).Denotes (l ^ n) := by
  induction n with
  | zero =>
    rw [pow_zero]
    exact eps
  | succ n ih =>
    rw [pow_succ']
    exact hr.append ih

end Denotes

/-- Between two anchors that hold at the ends, the words of the language are matched. -/
theorem fullMatch_anchored_iff {r : Regex α} {l : Language α} {start stop : List α → List α → Bool} {input : List α}
    (hr : r.Denotes l) (hstart : start [] input = true) (hstop : stop input.reverse [] = true) :
    (look start ++ r ++ look stop).fullMatch input = true ↔ input ∈ l := by
  rw [fullMatch_iff, ← hr [] input []]
  constructor
  · rintro ⟨u, v, rfl, ⟨u', w, rfl, ⟨rfl, -⟩, hw⟩, ⟨rfl, -⟩⟩
    rw [List.nil_append, List.append_nil]
    exact hw
  · intro h
    refine ⟨input, [], List.append_nil input, ⟨[], input, rfl, ⟨rfl, ?_⟩, h⟩, rfl, ?_⟩
    · rw [List.append_nil, List.append_nil]
      exact hstart
    · rw [List.append_nil]
      exact hstop

end Regex
