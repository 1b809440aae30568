/-
# Bounded queues

A queue that holds at most `cap` elements: a push fails when it is full, a pop
takes the oldest element or finds nothing. Of a list of operations, `after` is
the queue it leaves, `pops` what its pops found and `kept` the elements whose
push did not fail. Whatever is pushed in between, the pops find the elements
kept, in their order (`kept_eq`), and an element pushed on `n` others is what
the pop after the next `n` finds (`pops_push`).

Key theorems: `Fifo.kept_eq`, `Fifo.pops_queue`, `Fifo.pops_push`.
-/
import Mathlib.Data.List.Basic

namespace Fifo

variable {α : Type*}

/-- An operation on the queue. -/
inductive Op (α : Type*)
  | push (a : α)
  | pop

/-- `a` goes to the back, if there is room. -/
def push (cap : ℕ) (q : List α) (a : α) : List α × Bool :=
  if q.length < cap then (q ++ [a], true) else (q, false)

/-- The front, if there is one. -/
def pop : List α → List α × Option α
  | [] => ([], none)
  | a :: q => (q, some a)

/-- The queue after the operations. -/
def after (cap : ℕ) : List α → List (Op α) → List α
  | q, [] => q
  | q, .push a :: ops => after cap (push cap q a).1 ops
  | q, .pop :: ops => after cap (pop q).1 ops

/-- What the pops found. -/
def pops (cap : ℕ) : List α → List (Op α) → List (Option α)
  | _, [] => []
  | q, .push a :: ops => pops cap (push cap q a).1 ops
  | q, .pop :: ops => (pop q).2 :: pops cap (pop q).1 ops

/-- The elements whose push did not fail. -/
def kept (cap : ℕ) : List α → List (Op α) → List α
  | _, [] => []
  | q, .push a :: ops => (if q.length < cap then [a] else []) ++ kept cap (push cap q a).1 ops
  | q, .pop :: ops => kept cap (pop q).1 ops

theorem length_pop (q : List α) : (pop q).1.length = q.length - 1 := by
  cases q with
  | nil => rfl
  | cons a q => exact (Nat.add_sub_cancel ..).symm

section Push

variable {cap : ℕ} {q : List α} {a : α}

theorem push_snd : (push cap q a).2 = true ↔ q.length < cap := by
  rw [push]
  by_cases hroom : q.length < cap <;> simp [hroom]

theorem length_push : (push cap q a).1.length = if q.length < cap then q.length + 1 else q.length := by
  rw [push]
  by_cases hroom : q.length < cap <;> simp [hroom]

theorem mem_of_mem_push {x : α} (h : x ∈ (push cap q a).1) : x ∈ q ∨ x = a := by
  rw [push] at h
  split at h
  · exact (List.mem_append.mp h).imp id List.mem_singleton.mp
  · exact Or.inl h

end Push

variable (cap : ℕ)

theorem after_append : ∀ (q : List α) (a b : List (Op α)), after cap q (a ++ b) = after cap (after cap q a) b
  | _, [], _ => rfl
  | _, .push _ :: a, b => after_append _ a b
  | _, .pop :: a, b => after_append _ a b

theorem pops_append : ∀ (q : List α) (a b : List (Op α)),
    pops cap q (a ++ b) = pops cap q a ++ pops cap (after cap q a) b
  | _, [], _ => rfl
  | q, .push x :: a, b => pops_append (push cap q x).1 a b
  | q, .pop :: a, b => congrArg ((pop q).2 :: ·) (pops_append (pop q).1 a b)

theorem kept_append : ∀ (q : List α) (a b : List (Op α)),
    kept cap q (a ++ b) = kept cap q a ++ kept cap (after cap q a) b
  | _, [], _ => rfl
  | q, .push x :: a, b => by
    show _ ++ kept cap _ (a ++ b) = (_ ++ kept cap _ a) ++ _
    rw [kept_append _ a b, List.append_assoc]
    rfl
  | q, .pop :: a, b => kept_append (pop q).1 a b

/-- **Nothing lost, nothing twice, nothing out of order.** What was in the queue
and what was kept is what the pops found and what is left. -/
theorem kept_eq : ∀ (q : List α) (ops : List (Op α)),
    q ++ kept cap q ops = (pops cap q ops).filterMap id ++ after cap q ops
  | q, [] => by simp [kept, pops, after]
  | q, .push a :: ops => by
    have ih := kept_eq (push cap q a).1 ops
    rw [pops, after, ← ih, kept, push]
    split <;> simp
  | [], .pop :: ops => kept_eq [] ops
  | a :: q, .pop :: ops => congrArg (a :: ·) (kept_eq q ops)

/-- The first pops find the queue, whatever is pushed meanwhile. -/
theorem pops_queue : ∀ (q : List α) (ops : List (Op α)),
    (pops cap q ops).take q.length = (q.map some).take (pops cap q ops).length
  | [], ops => by simp
  | a :: q, [] => by simp [pops]
  | a :: q, .pop :: ops => congrArg (some a :: ·) (pops_queue q ops)
  | a :: q, .push b :: ops => by
    have ih := pops_queue (push cap (a :: q) b).1 ops
    rw [pops]
    unfold push at ih ⊢
    split
    · rename_i hroom
      rw [if_pos hroom] at ih
      have h := congrArg (List.take (a :: q).length) ih
      rw [List.take_take, List.take_take, List.length_append, Nat.min_eq_left (Nat.le_add_right _ _)] at h
      rw [h, List.map_append, Nat.min_comm, ← List.take_take, List.take_append_of_le_length (by simp),
        List.take_of_length_le (l := (a :: q).map some) (by simp)]
    · rename_i hfull
      rw [if_neg hfull] at ih
      exact ih

/-- **When an element comes out.** Pushed on `q.length` others, it is what the pop
after the next `q.length` finds. -/
theorem pops_push {q : List α} (a : α) (ops : List (Op α)) (hroom : q.length < cap)
    (hpops : q.length < (pops cap q (.push a :: ops)).length) :
    (pops cap q (.push a :: ops))[q.length]? = some (some a) := by
  rw [pops, push, if_pos hroom] at hpops ⊢
  have h := congrArg (·[q.length]?) (pops_queue cap (q ++ [a]) ops)
  simp only [List.getElem?_take, List.length_append, List.length_singleton, Nat.lt_add_one, ↓reduceIte,
    hpops] at h
  simpa using h

end Fifo
