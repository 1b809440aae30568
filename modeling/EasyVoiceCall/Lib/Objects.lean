/-
# Objects that are made and destroyed

Objects are made and destroyed; each has a number of its own, which no other gets. What
is made and destroyed again leaves the others as they were.

Key definitions: `Objects`, `Objects.make`, `Objects.destroy`.
Key theorems: `Objects.cell_make_destroy`.
-/
import Mathlib.Logic.Function.Basic
import Mathlib.Order.Nat

/-- The objects that are there; from `next` on there has been none. -/
structure Objects (α : Type*) where
  cell : ℕ → Option α
  next : ℕ
  beyond : ∀ n, next ≤ n → cell n = none

namespace Objects

variable {α : Type*}

def empty : Objects α := ⟨fun _ => none, 0, fun _ _ => rfl⟩

/-- A new object, and its number. -/
def make (h : Objects α) (a : α) : ℕ × Objects α :=
  (h.next, ⟨Function.update h.cell h.next (some a), h.next + 1, fun n hn => by
    rw [Function.update_of_ne (by omega), h.beyond n (by omega)]⟩)

def destroy (h : Objects α) (n : ℕ) : Objects α :=
  ⟨Function.update h.cell n none, h.next, fun k hk => by
    by_cases hkn : k = n
    · rw [hkn, Function.update_self]
    · rw [Function.update_of_ne hkn, h.beyond k hk]⟩

@[simp] theorem cell_make (h : Objects α) (a : α) : (h.make a).2.cell (h.make a).1 = some a :=
  Function.update_self ..

/-- **Made, used and destroyed**: where the use leaves the objects as they are, so does all of
it. -/
theorem cell_make_destroy {h h' : Objects α} {a : α} (hcell : h'.cell = (h.make a).2.cell) :
    (h'.destroy (h.make a).1).cell = h.cell := by
  show Function.update h'.cell h.next none = h.cell
  rw [hcell]
  show Function.update (Function.update h.cell h.next (some a)) h.next none = h.cell
  rw [Function.update_idem, ← h.beyond h.next le_rfl, Function.update_eq_self]

end Objects
