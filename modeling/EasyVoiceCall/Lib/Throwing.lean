/-
# Programs that throw

A program over a state `σ` ends with a value or with something thrown, of type
`ε`, and in a state either way (`Throwing`). `catching` runs a handler on the
exceptions that `p` takes and lets the rest through. `wp x Q E` is what must
hold before `x` for it to end in `Q` with its value, or in `E` with what it throws;
the simp lemmas compute it from the program's text. Each is an equivalence: where
what is computed fails, the program fails. `Keeps f x` is the frame: `x` leaves `f`
of the state as it was.

Key definitions: `Throwing`, `Throwing.catching`, `Throwing.wp`, `Throwing.Keeps`.
Key theorems: `Throwing.wp_bind`, `Throwing.wp_catching`, `Throwing.Keeps.bind`, `Throwing.Keeps.wp`.
-/
import Mathlib.Logic.Basic

/-- A program that reads and writes a state, and may throw. -/
def Throwing (ε σ α : Type*) := σ → Except ε α × σ

namespace Throwing

universe u

variable {ε σ : Type*} {α β : Type u}

instance : Monad (Throwing ε σ) where
  pure a := fun s => (.ok a, s)
  bind x f := fun s =>
    match x s with
    | (.ok a, s') => f a s'
    | (.error e, s') => (.error e, s')

/-- `throw e`. -/
def throw (e : ε) : Throwing ε σ α := fun s => (.error e, s)

/-- The state. -/
def get : Throwing ε σ σ := fun s => (.ok s, s)

/-- An assignment. -/
def modify (f : σ → σ) : Throwing ε σ Unit := fun s => (.ok (), f s)

/-- `try x catch h`, for the exceptions that `p` takes. -/
def catching {γ : Type*} (p : ε → Option γ) (x : Throwing ε σ α) (h : γ → Throwing ε σ α) : Throwing ε σ α := fun s =>
  match x s with
  | (.ok a, s') => (.ok a, s')
  | (.error e, s') =>
    match p e with
    | some c => h c s'
    | none => (.error e, s')

/-- What must hold where `e` is thrown: `H` of what a handler takes of it, or `E`. -/
def handled {γ : Type*} (p : ε → Option γ) (H : γ → σ → Prop) (E : ε → σ → Prop) (e : ε) (s : σ) : Prop :=
  match p e with
  | some c => H c s
  | none => E e s

/-- From `s`, `x` ends in `Q` with its value, or in `E` with what it throws. -/
def wp (x : Throwing ε σ α) (Q : α → σ → Prop) (E : ε → σ → Prop) (s : σ) : Prop :=
  match x s with
  | (.ok a, s') => Q a s'
  | (.error e, s') => E e s'

section

variable {Q : α → σ → Prop} {E : ε → σ → Prop} {s : σ}

@[simp] theorem wp_pure (a : α) : wp (pure a : Throwing ε σ α) Q E s ↔ Q a s := Iff.rfl

@[simp] theorem wp_throw (e : ε) : wp (throw e) Q E s ↔ E e s := Iff.rfl

@[simp] theorem wp_get {Q : σ → σ → Prop} : wp get Q E s ↔ Q s s := Iff.rfl

@[simp] theorem wp_modify {Q : Unit → σ → Prop} (f : σ → σ) : wp (modify f) Q E s ↔ Q () (f s) := Iff.rfl

@[simp] theorem wp_bind {Q : β → σ → Prop} (x : Throwing ε σ α) (f : α → Throwing ε σ β) :
    wp (x >>= f) Q E s ↔ wp x (fun a => wp (f a) Q E) E s := by
  simp only [wp, bind]
  rcases x s with ⟨e | a, s'⟩ <;> exact Iff.rfl

@[simp] theorem wp_ite (c : Prop) [Decidable c] (x y : Throwing ε σ α) :
    wp (if c then x else y) Q E s ↔ if c then wp x Q E s else wp y Q E s := by
  split <;> exact Iff.rfl

@[simp] theorem wp_catching {γ : Type*} (p : ε → Option γ) (x : Throwing ε σ α) (h : γ → Throwing ε σ α) :
    wp (catching p x h) Q E s ↔ wp x Q (handled p (fun c => wp (h c) Q E) E) s := by
  unfold wp catching handled
  rcases x s with ⟨e | a, s'⟩
  · dsimp only
    rcases p e with _ | c <;> exact Iff.rfl
  · exact Iff.rfl

theorem handled_of_some {γ : Type*} {p : ε → Option γ} {H : γ → σ → Prop} {e : ε} {c : γ} (h : p e = some c) :
    handled p H E e s ↔ H c s := by
  rw [handled, h]

theorem wp_of_ok {x : Throwing ε σ α} {a : α} {s' : σ} (h : x s = (.ok a, s')) : wp x Q E s ↔ Q a s' := by
  rw [wp, h]

theorem wp_of_error {x : Throwing ε σ α} {e : ε} {s' : σ} (h : x s = (.error e, s')) : wp x Q E s ↔ E e s' := by
  rw [wp, h]

end

theorem catching_of_ok {γ : Type*} {p : ε → Option γ} {x : Throwing ε σ α} {h : γ → Throwing ε σ α} {s s' : σ} {a : α}
    (hx : x s = (.ok a, s')) : catching p x h s = (.ok a, s') := by
  rw [catching, hx]

theorem catching_of_error {γ : Type*} {p : ε → Option γ} {x : Throwing ε σ α} {h : γ → Throwing ε σ α} {s s' : σ}
    {e : ε} (hx : x s = (.error e, s')) : catching p x h s = (p e).elim (.error e, s') fun c => h c s' := by
  rw [catching, hx]
  rcases hp : p e with _ | c <;> simp [hp]

/-! ### What a program leaves alone -/

/-- However it ends, `x` leaves `f` of the state as it was. -/
def Keeps {τ : Type*} (f : σ → τ) (x : Throwing ε σ α) : Prop := ∀ s, f (x s).2 = f s

section

variable {τ : Type*} {f : σ → τ}

theorem keeps_pure (a : α) : Keeps f (pure a : Throwing ε σ α) := fun _ => rfl

theorem keeps_throw (e : ε) : Keeps f (throw e : Throwing ε σ α) := fun _ => rfl

theorem keeps_modify {g : σ → σ} (h : ∀ s, f (g s) = f s) : Keeps f (modify g : Throwing ε σ Unit) := h

theorem Keeps.bind {x : Throwing ε σ α} {k : α → Throwing ε σ β} (hx : Keeps f x) (hk : ∀ a, Keeps f (k a)) :
    Keeps f (x >>= k) := by
  intro s
  have hs := hx s
  simp only [Bind.bind]
  rcases hxs : x s with ⟨e | a, s'⟩ <;> rw [hxs] at hs
  · exact hs
  · exact (hk a s').trans hs

theorem Keeps.ite {c : Prop} [Decidable c] {x y : Throwing ε σ α} (hx : Keeps f x) (hy : Keeps f y) :
    Keeps f (if c then x else y) := by
  split
  · exact hx
  · exact hy

theorem Keeps.catching {γ : Type*} {p : ε → Option γ} {x : Throwing ε σ α} {h : γ → Throwing ε σ α}
    (hx : Keeps f x) (hh : ∀ c, Keeps f (h c)) : Keeps f (catching p x h) := by
  intro s
  have hs := hx s
  simp only [Throwing.catching]
  rcases hxs : x s with ⟨e | a, s'⟩ <;> rw [hxs] at hs
  · dsimp only
    rcases p e with _ | c
    · exact hs
    · exact (hh c s').trans hs
  · exact hs

/-- **The frame rule.** -/
theorem Keeps.wp {x : Throwing ε σ α} (hx : Keeps f x) {Q : α → σ → Prop} {E : ε → σ → Prop} {s : σ}
    (hQ : ∀ a s', f s' = f s → Q a s') (hE : ∀ e s', f s' = f s → E e s') : wp x Q E s := by
  have hs := hx s
  unfold Throwing.wp
  rcases hxs : x s with ⟨e | a, s'⟩ <;> rw [hxs] at hs
  · exact hE e s' hs
  · exact hQ a s' hs

end

end Throwing
