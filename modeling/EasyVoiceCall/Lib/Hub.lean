/-
# A hub that relays

Speakers send messages up to a hub, and the hub sends each message it takes down to
some of those that may hear the speaker (`hears`: the others, the speaker itself, or
whichever). The links keep the order of what they carry, but may lose any
of it. A `Hub` has the history of all that was spoken, relayed and heard, and carries
the two facts that make it an ordered broadcast: what the hub relayed of a speaker,
and then what is still on the way up, is what the speaker spoke, with gaps
(`up_sub`); what a listener heard, and then what is still on the way down, is what
the hub relayed of those it hears, with gaps (`down_sub`). So all listeners hear in one
order, the hub's.

A link that is a part of a list of messages is the values of a partial function on
it, and loses its first value where the first message that has one is taken out
(`filterMap_eraseIdx_of_first`).

Key definitions: `Hub`, `Hub.Complete`.
Key theorems: `Hub.heard_of_speaker`, `Hub.Complete.relay`, `filterMap_eraseIdx_of_first`.
-/
import Mathlib.Data.List.Basic
import Mathlib.Logic.Function.Basic

/-! ### Links within a list -/

section Links

variable {α β : Type*} (f : α → Option β)

/-- A message of another link. -/
theorem filterMap_eraseIdx_of_none : ∀ {l : List α} {i : ℕ} {a : α}, l[i]? = some a → f a = none →
    (l.eraseIdx i).filterMap f = l.filterMap f
  | [], i, a, h, _ => by simp at h
  | b :: l, 0, a, h, ha => by
    have hb : b = a := by simpa using h
    rw [List.eraseIdx_cons_zero, List.filterMap_cons, hb, ha]
  | b :: l, i + 1, a, h, ha => by
    have hi : l[i]? = some a := by simpa using h
    have ih := filterMap_eraseIdx_of_none hi ha
    rw [List.eraseIdx_cons_succ, List.filterMap_cons, List.filterMap_cons, ih]

/-- The first message of the link. -/
theorem filterMap_eraseIdx_of_first : ∀ {l : List α} {i : ℕ} {a : α} {b : β}, l[i]? = some a → f a = some b →
    (∀ j < i, ∀ m, l[j]? = some m → f m = none) → l.filterMap f = b :: (l.eraseIdx i).filterMap f
  | [], i, a, b, h, _, _ => by simp at h
  | m :: l, 0, a, b, h, ha, _ => by
    have hm : m = a := by simpa using h
    rw [List.eraseIdx_cons_zero, List.filterMap_cons, hm, ha]
  | m :: l, i + 1, a, b, h, ha, hfirst => by
    have hi : l[i]? = some a := by simpa using h
    have hm : f m = none := hfirst 0 (Nat.succ_pos i) m rfl
    have ih := filterMap_eraseIdx_of_first hi ha fun j hj n hn => hfirst (j + 1) (by omega) n (by simpa using hn)
    rw [List.eraseIdx_cons_succ, List.filterMap_cons, List.filterMap_cons, hm, ih]

/-- Any message. -/
theorem filterMap_eraseIdx_sublist (l : List α) (i : ℕ) :
    ((l.eraseIdx i).filterMap f).Sublist (l.filterMap f) :=
  (List.eraseIdx_sublist l i).filterMap f

end Links

/-! ### The hub -/

/-- What was spoken, relayed and heard, and what is on its way, where `hears e r` says
that `r` may hear `e`. -/
structure Hub (E M : Type*) [DecidableEq E] (hears : E → E → Prop) [DecidableRel hears] where
  spoken : E → List M
  up : E → List M
  log : List (E × M)
  down : E → List (E × M)
  heard : E → List (E × M)
  up_sub : ∀ e, ((log.filter (·.1 = e)).map (·.2) ++ up e).Sublist (spoken e)
  down_sub : ∀ r, (heard r ++ down r).Sublist (log.filter fun x => hears x.1 r)

namespace Hub

variable {E M : Type*} [DecidableEq E] {hears : E → E → Prop} [DecidableRel hears]

/-- Nothing has been spoken. -/
def empty : Hub E M hears where
  spoken _ := []
  up _ := []
  log := []
  down _ := []
  heard _ := []
  up_sub _ := List.Sublist.refl _
  down_sub _ := List.Sublist.refl _

variable (h : Hub E M hears)

/-- `e` speaks, into its link. -/
def speak (e : E) (m : M) : Hub E M hears where
  spoken := Function.update h.spoken e (h.spoken e ++ [m])
  up := Function.update h.up e (h.up e ++ [m])
  log := h.log
  down := h.down
  heard := h.heard
  up_sub e' := by
    by_cases he : e' = e
    · subst he
      rw [Function.update_self, Function.update_self, ← List.append_assoc]
      exact (h.up_sub e').append_right [m]
    · rw [Function.update_of_ne he, Function.update_of_ne he]
      exact h.up_sub e'
  down_sub := h.down_sub

/-- Some of what is on the way up is lost. -/
def dropUp (e : E) (l : List M) (hl : l.Sublist (h.up e)) : Hub E M hears where
  spoken := h.spoken
  up := Function.update h.up e l
  log := h.log
  down := h.down
  heard := h.heard
  up_sub e' := by
    by_cases he : e' = e
    · subst he
      rw [Function.update_self]
      exact (hl.append_left _).trans (h.up_sub e')
    · rw [Function.update_of_ne he]
      exact h.up_sub e'
  down_sub := h.down_sub

/-- Some of what is on the way down is lost. -/
def dropDown (r : E) (l : List (E × M)) (hl : l.Sublist (h.down r)) : Hub E M hears where
  spoken := h.spoken
  up := h.up
  log := h.log
  down := Function.update h.down r l
  heard := h.heard
  up_sub := h.up_sub
  down_sub r' := by
    by_cases hr : r' = r
    · subst hr
      rw [Function.update_self]
      exact (hl.append_left _).trans (h.down_sub r')
    · rw [Function.update_of_ne hr]
      exact h.down_sub r'

/-- The hub takes the first message of `e`'s link and sends it to some that may hear `e`. -/
def relay (e : E) (m : M) (rest : List M) (hup : h.up e = m :: rest) (receivers : E → Prop)
    [DecidablePred receivers] (hto : ∀ r, receivers r → hears e r) : Hub E M hears where
  spoken := h.spoken
  up := Function.update h.up e rest
  log := h.log ++ [(e, m)]
  down r := if receivers r then h.down r ++ [(e, m)] else h.down r
  heard := h.heard
  up_sub e' := by
    have hsub := h.up_sub e'
    by_cases he : e' = e
    · subst he
      rw [hup] at hsub
      simpa using hsub
    · rw [Function.update_of_ne he, List.filter_append,
        List.filter_cons_of_neg (by simpa using fun h' => he h'.symm)]
      simpa using hsub
  down_sub r := by
    rw [List.filter_append]
    split
    · rename_i hr
      rw [← List.append_assoc, List.filter_cons_of_pos (by simpa using hto r hr)]
      exact (h.down_sub r).append_right [(e, m)]
    · exact (h.down_sub r).trans (List.sublist_append_left _ _)

/-- `r` hears the first message of its link. -/
def hear (r : E) (x : E × M) (rest : List (E × M)) (hdown : h.down r = x :: rest) : Hub E M hears where
  spoken := h.spoken
  up := h.up
  log := h.log
  down := Function.update h.down r rest
  heard := Function.update h.heard r (h.heard r ++ [x])
  up_sub := h.up_sub
  down_sub r' := by
    have hsub := h.down_sub r'
    by_cases hr : r' = r
    · subst hr
      rw [hdown] at hsub
      rw [Function.update_self, Function.update_self]
      simpa using hsub
    · rw [Function.update_of_ne hr, Function.update_of_ne hr]
      exact hsub

/-! ### What a listener hears of a speaker -/

/-- What `r` has heard of `e` and what is on its way to it, and what is still on its
way up. -/
def reaching (e r : E) : List M := ((h.heard r ++ h.down r).filter (·.1 = e)).map (·.2) ++ h.up e

/-- **A listener hears of each speaker what it spoke**, in the order it was spoken, and
what is on its way comes after it. -/
theorem heard_of_speaker (e r : E) : (h.reaching e r).Sublist (h.spoken e) := by
  have hsub := (((h.down_sub r).trans List.filter_sublist).filter (·.1 = e)).map (·.2)
  exact (hsub.append_right _).trans (h.up_sub e)

/-- A listener hears only those it may hear. -/
theorem hears_of_heard {r : E} {x : E × M} (hx : x ∈ h.heard r) : hears x.1 r := by
  have hmem := (h.down_sub r).subset (List.mem_append_left _ hx)
  simpa using (List.mem_filter.mp hmem).2

/-! ### Where nothing is lost -/

/-- All that `e` spoke has been heard by `r`, or is on its way to it. -/
def Complete (e r : E) : Prop := h.reaching e r = h.spoken e

variable {h} {e r : E}

theorem Complete.speak (hc : h.Complete e r) (e' : E) (m : M) : (h.speak e' m).Complete e r := by
  unfold Complete reaching Hub.speak at *
  by_cases he : e = e'
  · subst he
    simp only [Function.update_self]
    rw [← List.append_assoc, hc]
  · simp only [Function.update_of_ne he]
    exact hc

/-- What is relayed, of `e` to `r` among others. -/
theorem Complete.relay (hc : h.Complete e r) {e' : E} {m : M} {rest : List M} (hup : h.up e' = m :: rest)
    {receivers : E → Prop} [DecidablePred receivers] {hto : ∀ r, receivers r → hears e' r}
    (hr : e' = e → receivers r) : (h.relay e' m rest hup receivers hto).Complete e r := by
  unfold Complete reaching Hub.relay at *
  by_cases he : e' = e
  · subst he
    rw [hup] at hc
    simp only [Function.update_self, if_pos (hr rfl)]
    rw [← hc, ← List.append_assoc, List.filter_append _ [(e', m)]]
    simp
  · simp only [Function.update_of_ne (Ne.symm he)]
    split
    · rw [← List.append_assoc, List.filter_append _ [(e', m)],
        List.filter_cons_of_neg (by simpa using he)]
      simpa using hc
    · exact hc

theorem Complete.hear (hc : h.Complete e r) {r' : E} {x : E × M} {rest : List (E × M)}
    (hdown : h.down r' = x :: rest) : (h.hear r' x rest hdown).Complete e r := by
  unfold Complete reaching Hub.hear at *
  by_cases hr : r = r'
  · subst hr
    rw [hdown] at hc
    simp only [Function.update_self, List.append_assoc, List.singleton_append]
    exact hc
  · simp only [Function.update_of_ne hr]
    exact hc

end Hub
