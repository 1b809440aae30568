/-
# Computations that may fail

`Except ε` as the outcome of code that may stop: what it means that a sequence
or a loop ends well, and that a loop fails which comes to an element at which
its body fails.

Key theorems: `Fallible.bind_eq_ok`, `Fallible.foldlM_fails`.
-/
import Mathlib.Data.List.Basic

namespace Fallible

variable {ε α β : Type*}

/-- It fails. -/
def Fails (x : Except ε α) : Prop := ∃ e, x = .error e

theorem not_fails_ok (a : α) : ¬ Fails (.ok a : Except ε α) := by
  rintro ⟨e, h⟩
  cases h

theorem fails_or_ok (x : Except ε α) : Fails x ∨ ∃ a, x = .ok a := by
  cases x with
  | error e => exact Or.inl ⟨e, rfl⟩
  | ok a => exact Or.inr ⟨a, rfl⟩

section

variable {α β : Type _} {x : Except ε α} {f : α → Except ε β}

theorem bind_eq_ok {b : β} : (x >>= f) = .ok b ↔ ∃ a, x = .ok a ∧ f a = .ok b := by
  cases x with
  | error e =>
    constructor
    · intro h
      cases h
    · rintro ⟨a, h, -⟩
      cases h
  | ok a =>
    constructor
    · exact fun h => ⟨a, rfl, h⟩
    · rintro ⟨a', h, h'⟩
      cases h
      exact h'

/-- A sequence fails at its first part. -/
theorem fails_bind_left (h : Fails x) : Fails (x >>= f) := by
  obtain ⟨e, rfl⟩ := h
  exact ⟨e, rfl⟩

end

/-- A loop fails where its body does at some element, whatever came before. -/
theorem foldlM_fails {σ : Type _} {f : σ → α → Except ε σ} {a : α} (hf : ∀ s, Fails (f s a)) :
    ∀ {l : List α} (s : σ), a ∈ l → Fails (l.foldlM f s)
  | b :: l, s, h => by
    rw [List.foldlM_cons]
    rcases List.mem_cons.mp h with rfl | h
    · exact fails_bind_left (hf s)
    · rcases fails_or_ok (f s b) with hb | ⟨s', hb⟩
      · exact fails_bind_left hb
      · rw [hb]
        exact foldlM_fails hf s' h

end Fallible
