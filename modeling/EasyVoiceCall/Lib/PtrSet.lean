/-
# Sets of pointers

`std::set<std::shared_ptr<T>>` keeps its elements in the order of their
addresses, each address once: `PtrSet α key` is the elements `α` in that order,
with `key` the address. The order and the uniqueness are carried by the
structure. `Allocator` is what `std::make_shared` may do: return any address
that no live object has.

Key theorems: `PtrSet.mem_insert_of_fresh`, `PtrSet.mem_erase`, `PtrSet.key_inj`,
`PtrSet.nodup`.
-/
import Mathlib.Data.List.Sort
import Mathlib.Data.List.Nodup

/-- The address of the next object, away from those of the live ones. -/
structure Allocator where
  next : List ℕ → ℕ
  fresh : ∀ live, next live ∉ live

/-- The allocator that hands out the successor of the largest live address. -/
def Allocator.bump : Allocator where
  next live := live.foldr max 0 + 1
  fresh live := by
    have h : ∀ x ∈ live, x ≤ live.foldr max 0 := by
      induction live with
      | nil => simp
      | cons y ys ih =>
        intro x hx
        simp only [List.foldr_cons]
        rcases List.mem_cons.mp hx with rfl | hx
        · exact le_max_left _ _
        · exact le_trans (ih x hx) (le_max_right _ _)
    intro hm
    have := h _ hm
    omega

/-- Elements in the strict order of their addresses. -/
structure PtrSet (α : Type*) (key : α → ℕ) where
  toList : List α
  sorted : toList.Pairwise fun a b => key a < key b

namespace PtrSet

variable {α : Type*} {key : α → ℕ}

instance : Membership α (PtrSet α key) := ⟨fun s a => a ∈ s.toList⟩

@[simp] theorem mem_toList {s : PtrSet α key} {a : α} : a ∈ s.toList ↔ a ∈ s := Iff.rfl

@[ext] theorem ext_toList {s t : PtrSet α key} (h : s.toList = t.toList) : s = t := by
  cases s
  cases t
  simp only at h
  subst h
  rfl

/-- The empty set. -/
def empty : PtrSet α key := ⟨[], .nil⟩

@[simp] theorem not_mem_empty (a : α) : a ∉ (empty : PtrSet α key) := List.not_mem_nil

/-- The addresses of the elements. -/
def keys (s : PtrSet α key) : List ℕ := s.toList.map key

theorem nodup (s : PtrSet α key) : s.toList.Nodup := s.sorted.imp fun h he => by
  subst he
  exact lt_irrefl _ h

/-- Two elements at one address are one element. -/
theorem key_inj (s : PtrSet α key) {a b : α} (ha : a ∈ s) (hb : b ∈ s) (h : key a = key b) :
    a = b := by
  obtain ⟨l, hs⟩ := s
  change a ∈ l at ha
  change b ∈ l at hb
  induction l with
  | nil => cases ha
  | cons x xs ih =>
    have hx := List.pairwise_cons.mp hs
    rcases List.mem_cons.mp ha with ha | ha
    · rcases List.mem_cons.mp hb with hb | hb
      · rw [ha, hb]
      · exact absurd h (ha ▸ hx.1 b hb).ne
    · rcases List.mem_cons.mp hb with hb | hb
      · exact absurd h (hb ▸ hx.1 a ha).ne'
      · exact ih hx.2 ha hb

/-- A new address put in its place. -/
theorem pairwise_orderedInsert (key : α → ℕ) (a : α) : ∀ l : List α,
    (l.Pairwise fun x y => key x < key y) → key a ∉ l.map key →
      (l.orderedInsert (fun x y => key x ≤ key y) a).Pairwise fun x y => key x < key y
  | [], _, _ => List.pairwise_singleton _ _
  | x :: xs, hs, h => by
    have hx := List.pairwise_cons.mp hs
    simp only [List.map_cons, List.mem_cons, not_or] at h
    rw [List.orderedInsert_cons]
    split
    · rename_i hle
      have hlt : key a < key x := lt_of_le_of_ne hle h.1
      refine List.pairwise_cons.mpr ⟨fun y hy => ?_, hs⟩
      rcases List.mem_cons.mp hy with rfl | hy
      · exact hlt
      · exact hlt.trans (hx.1 y hy)
    · rename_i hle
      refine List.pairwise_cons.mpr ⟨fun y hy => ?_, pairwise_orderedInsert key a xs hx.2 h.2⟩
      rcases (List.mem_orderedInsert _).mp hy with rfl | hy
      · exact not_le.mp hle
      · exact hx.1 y hy

/-- `set::insert`: nothing happens where the address is already there. -/
def insert (a : α) (s : PtrSet α key) : PtrSet α key :=
  if h : key a ∈ s.keys then s
  else ⟨s.toList.orderedInsert (fun x y => key x ≤ key y) a, pairwise_orderedInsert key a _ s.sorted h⟩

/-- `set::erase`. -/
def erase (a : α) (s : PtrSet α key) : PtrSet α key :=
  ⟨s.toList.filter (fun x => key x ≠ key a), s.sorted.filter _⟩

theorem insert_of_mem {a : α} {s : PtrSet α key} (h : key a ∈ s.keys) : s.insert a = s :=
  dif_pos h

theorem toList_insert_of_fresh {a : α} {s : PtrSet α key} (h : key a ∉ s.keys) :
    (s.insert a).toList = s.toList.orderedInsert (fun x y => key x ≤ key y) a := by
  rw [insert, dif_neg h]

theorem perm_insert_of_fresh {a : α} {s : PtrSet α key} (h : key a ∉ s.keys) :
    (s.insert a).toList.Perm (a :: s.toList) := by
  rw [toList_insert_of_fresh h]
  exact List.perm_orderedInsert _ _ _

theorem mem_insert_of_fresh {a b : α} {s : PtrSet α key} (h : key a ∉ s.keys) :
    b ∈ s.insert a ↔ b = a ∨ b ∈ s := by
  rw [← mem_toList, (perm_insert_of_fresh h).mem_iff, List.mem_cons, mem_toList]

theorem mem_of_mem_insert {a b : α} {s : PtrSet α key} (h : b ∈ s.insert a) : b = a ∨ b ∈ s := by
  by_cases hk : key a ∈ s.keys
  · rw [insert_of_mem hk] at h
    exact Or.inr h
  · exact (mem_insert_of_fresh hk).mp h

@[simp] theorem mem_erase {a b : α} {s : PtrSet α key} : b ∈ s.erase a ↔ b ∈ s ∧ key b ≠ key a := by
  rw [← mem_toList, erase, List.mem_filter]
  simp

end PtrSet
