/-
# Messages in flight

Parties that handle messages and send others: a state, and the messages that are
in flight. A step delivers any one of them, in no order, so a run is a choice of
a place in the list for each delivery.

Where each message has a weight, and handling it sends messages that weigh less
than it in all, a run cannot be longer than the weight of what is in flight at
its start (`length_le_weight`).

Key theorems: `Flight.length_le_weight`, `Flight.step_isSome`.
-/
import EasyVoiceCall.Lib.Machine
import Mathlib.Algebra.BigOperators.Group.List.Basic
import Mathlib.Algebra.GroupWithZero.Nat

namespace Flight

variable {S M V : Type*} (handle : S → M → V → S × List M)

structure Config (S M : Type*) where
  state : S
  inFlight : List M

/-- The message at the place is delivered; `V` is what its handler is provided
with. -/
def step (c : Config S M) (a : ℕ × V) : Option (Config S M × List M) :=
  match c.inFlight[a.1]? with
  | none => none
  | some m =>
    let r := handle c.state m a.2
    some (⟨r.1, c.inFlight.eraseIdx a.1 ++ r.2⟩, [m])

/-- The weight of messages. -/
def weight (w : M → ℕ) (ms : List M) : ℕ := (ms.map w).sum

theorem weight_append (w : M → ℕ) (ms ns : List M) : weight w (ms ++ ns) = weight w ms + weight w ns := by
  simp [weight]

theorem weight_eraseIdx (w : M → ℕ) : ∀ {ms : List M} {i : ℕ} {m : M}, ms[i]? = some m →
    weight w (ms.eraseIdx i) + w m = weight w ms
  | [], i, m, h => by simp at h
  | n :: ms, 0, m, h => by
    have hm : n = m := by simpa using h
    simp [weight, hm, Nat.add_comm]
  | n :: ms, i + 1, m, h => by
    have hm : ms[i]? = some m := by simpa using h
    have ih := weight_eraseIdx w hm
    unfold weight at ih ⊢
    simp only [List.eraseIdx_cons_succ, List.map_cons, List.sum_cons]
    omega

/-- What is in flight can be delivered. -/
theorem step_isSome (c : Config S M) {i : ℕ} (hi : i < c.inFlight.length) (v : V) :
    ∃ c' m, step handle c (i, v) = some (c', [m]) := by
  have hget : c.inFlight[i]? = some c.inFlight[i] := List.getElem?_eq_getElem hi
  exact ⟨_, _, by rw [step, hget]⟩

/-- **Every run is finite.** Where what holds of the state and of the messages is
preserved, and the messages a handler sends weigh less than the one it got. -/
theorem length_le_weight (w : M → ℕ) (P : S → Prop) (Q : M → Prop)
    (hs : ∀ s m v, P s → Q m → P (handle s m v).1 ∧ (∀ n ∈ (handle s m v).2, Q n) ∧
      weight w (handle s m v).2 < w m) {c c' : Config S M} {as : List (ℕ × V)} {o : List M} (hP : P c.state)
    (hQ : ∀ m ∈ c.inFlight, Q m) (h : Lts.exec (step handle) c as = some (c', o)) :
    as.length ≤ weight w c.inFlight := by
  induction as generalizing c o with
  | nil => exact Nat.zero_le _
  | cons a as ih =>
    obtain ⟨c₁, o₁, o₂, hstep, hexec, -⟩ := (Lts.exec_cons_iff _).mp h
    unfold step at hstep
    split at hstep
    · cases hstep
    · rename_i m hm
      cases hstep
      obtain ⟨hP₁, hQ₁, hlt⟩ := hs c.state m a.2 hP (hQ m (List.mem_of_getElem? hm))
      have hrest := ih hP₁ (fun n hn => by
        rcases List.mem_append.mp hn with hn | hn
        · exact hQ n (List.mem_of_mem_eraseIdx hn)
        · exact hQ₁ n hn) hexec
      have herase := weight_eraseIdx w hm
      rw [weight_append] at hrest
      rw [List.length_cons]
      omega

end Flight
