/-
# Cutting a stream into frames

A `Framing` says how long the frame at the front of a stream is. It looks at that
frame alone: the frame without the rest, or with another one, is as long. `divide`
cuts the frames off, one after the other, until what is left is less than a frame.

There is only one way to cut a stream so (`divide_eq_iff`), and a stream that comes in
pieces is cut as it comes: what is left of one piece goes in front of the next
(`divide_append`).

Key definitions: `Framing`, `Framing.divide`, `Framing.fixed`, `Framing.headed`.
Key theorems: `Framing.divide_eq_iff`, `Framing.divide_append`.
-/
import Mathlib.Data.List.Basic
import Mathlib.Data.List.Flatten
import Mathlib.Order.Basic

/-- How many bytes the frame at the front has, or how many are to be there before that can
be said. -/
structure Framing (β : Type*) where
  len : List β → ℕ
  len_pos : ∀ s, 0 < len s
  whole : ∀ s, len s ≤ s.length → len (s.take (len s)) = len s
  stable : ∀ f t, len f = f.length → len (f ++ t) = f.length

namespace Framing

variable {β : Type*}

/-- Frames of `n` bytes. -/
def fixed (n : ℕ) (h : 0 < n) : Framing β where
  len _ := n
  len_pos _ := h
  whole _ _ := rfl
  stable _ _ h := h

/-- A header of `size` bytes, which says how many follow it. -/
def headed (size : ℕ) (need : List β → ℕ) (h : 0 < size) : Framing β where
  len s := if s.length < size then size else size + need (s.take size)
  len_pos s := by split <;> omega
  whole s hs := by
    by_cases hshort : s.length < size
    · rw [if_pos hshort] at hs
      omega
    · rw [if_neg hshort] at hs ⊢
      have hlong : ¬ (s.take (size + need (s.take size))).length < size := by
        rw [List.length_take]
        omega
      rw [if_neg hlong, List.take_take, Nat.min_eq_left (Nat.le_add_right _ _)]
  stable f t hf := by
    by_cases hshort : f.length < size
    · rw [if_pos hshort] at hf
      omega
    · have hlong : ¬ (f ++ t).length < size := by
        rw [List.length_append]
        omega
      rw [if_neg hshort] at hf
      rw [if_neg hlong, List.take_append_of_le_length (Nat.le_of_not_lt hshort), hf]

variable (F : Framing β)

/-- The frames of a stream, and what is left. -/
def divide (s : List β) : List (List β) × List β :=
  if F.len s ≤ s.length then
    let r := divide (s.drop (F.len s))
    (s.take (F.len s) :: r.1, r.2)
  else ([], s)
termination_by s.length
decreasing_by
  have := F.len_pos s
  rw [List.length_drop]
  omega

/-- A whole frame, and nothing behind it. -/
def Whole (f : List β) : Prop := F.len f = f.length

/-- Less than a frame. -/
def Partial (s : List β) : Prop := s.length < F.len s

variable {F}

theorem divide_of_short {s : List β} (h : F.Partial s) : F.divide s = ([], s) := by
  rw [divide, if_neg (Nat.not_le.mpr h)]

theorem divide_of_le {s : List β} (h : F.len s ≤ s.length) : F.divide s =
    (s.take (F.len s) :: (F.divide (s.drop (F.len s))).1, (F.divide (s.drop (F.len s))).2) := by
  rw [divide, if_pos h]

/-- A whole frame is cut off. -/
theorem divide_whole_append {f : List β} (h : F.Whole f) (t : List β) :
    F.divide (f ++ t) = (f :: (F.divide t).1, (F.divide t).2) := by
  have hlen : F.len (f ++ t) = f.length := F.stable f t h
  have hle : F.len (f ++ t) ≤ (f ++ t).length := by
    rw [hlen, List.length_append]
    exact Nat.le_add_right _ _
  rw [divide_of_le hle, hlen, List.take_left, List.drop_left]

theorem divide_flatten_append {fs : List (List β)} (h : ∀ f ∈ fs, F.Whole f) (t : List β) :
    F.divide (fs.flatten ++ t) = (fs ++ (F.divide t).1, (F.divide t).2) := by
  induction fs with
  | nil => rfl
  | cons f fs ih =>
    obtain ⟨hf, hfs⟩ := List.forall_mem_cons.mp h
    rw [List.flatten_cons, List.append_assoc, divide_whole_append hf, ih hfs]
    rfl

/-- What is cut off are whole frames, what is left is less than one, and together they are
the stream. -/
theorem divide_spec (s : List β) : (F.divide s).1.flatten ++ (F.divide s).2 = s ∧
    (∀ f ∈ (F.divide s).1, F.Whole f) ∧ F.Partial (F.divide s).2 := by
  induction s using divide.induct F with
  | case1 s hle ih =>
    obtain ⟨hflat, hwhole, hpart⟩ := ih
    have hfront : F.Whole (s.take (F.len s)) := by
      rw [Whole, F.whole s hle, List.length_take, Nat.min_eq_left hle]
    rw [divide_of_le hle]
    refine ⟨?_, List.forall_mem_cons.mpr ⟨hfront, hwhole⟩, hpart⟩
    rw [List.flatten_cons, List.append_assoc, hflat, List.take_append_drop]
  | case2 s hlt =>
    have hpart : F.Partial s := Nat.not_le.mp hlt
    rw [divide_of_short hpart]
    exact ⟨rfl, fun f hf => absurd hf List.not_mem_nil, hpart⟩

/-- **The only way to cut it.** -/
theorem divide_eq_iff {s rest : List β} {fs : List (List β)} : F.divide s = (fs, rest) ↔
    fs.flatten ++ rest = s ∧ (∀ f ∈ fs, F.Whole f) ∧ F.Partial rest := by
  constructor
  · intro h
    have hspec := divide_spec (F := F) s
    rwa [h] at hspec
  · rintro ⟨rfl, hwhole, hpart⟩
    rw [divide_flatten_append hwhole, divide_of_short hpart, List.append_nil]

/-- **A stream that comes in pieces.** -/
theorem divide_append (s t : List β) : F.divide (s ++ t) =
    ((F.divide s).1 ++ (F.divide ((F.divide s).2 ++ t)).1, (F.divide ((F.divide s).2 ++ t)).2) := by
  obtain ⟨hflat, hwhole, -⟩ := divide_spec (F := F) s
  have hsplit := divide_flatten_append hwhole ((F.divide s).2 ++ t)
  rwa [← List.append_assoc, hflat] at hsplit

end Framing
