import Mathlib.Data.List.Basic

/-!
# The order of first appearance

Two observers watch one sequence of names, and each sighting says which of them counts it.
Both write down every name when they first count it. The two lists are the same exactly when
a name that only one of them counts at first is the next new name that the other counts.
-/

set_option autoImplicit false

namespace Rdap.Lib

structure Sighting (α : Type) where
  name : α
  left : Bool
  right : Bool

variable {α : Type} [BEq α] [LawfulBEq α]

/-- The next sighting that an observer counts of a name that is not in a list. -/
def nextNew (seen : List α) (side : Sighting α → Bool) (xs : List (Sighting α)) : Option α :=
  (xs.find? fun x => side x && decide (x.name ∉ seen)).map Sighting.name

/-- All of them, in the order of first appearance. -/
def newNames (seen : List α) (side : Sighting α → Bool) (xs : List (Sighting α)) : List α :=
  (((xs.filter side).map Sighting.name).filter fun a => a ∉ seen).eraseDups

/-- The other observer catches up before it counts any other new name. -/
def CaughtUp : List α → List (Sighting α) → Prop
  | _, [] => True
  | seen, x :: xs =>
    if x.name ∈ seen ∨ (x.left = false ∧ x.right = false) then CaughtUp seen xs
    else
      (x.left = false → nextNew seen Sighting.left xs = some x.name) ∧
      (x.right = false → nextNew seen Sighting.right xs = some x.name) ∧
      CaughtUp (x.name :: seen) xs

section Names
variable {seen : List α} {side : Sighting α → Bool} {x : Sighting α} {xs : List (Sighting α)}

theorem newNames_skip (h : side x = false ∨ x.name ∈ seen) :
    newNames seen side (x :: xs) = newNames seen side xs := by
  unfold newNames
  rcases h with h | h
  · rw [List.filter_cons_of_neg (by simp [h])]
  · by_cases hside : side x = true
    · rw [List.filter_cons_of_pos hside, List.map_cons, List.filter_cons_of_neg (by simp [h])]
    · rw [List.filter_cons_of_neg hside]

theorem newNames_take (hside : side x = true) (hnew : x.name ∉ seen) :
    newNames seen side (x :: xs) = x.name :: newNames (x.name :: seen) side xs := by
  have hfilter : ∀ names : List α, (names.filter fun a => a ∉ seen).filter (fun a => !a == x.name) =
      names.filter fun a => a ∉ x.name :: seen := by
    intro names
    rw [List.filter_filter]
    refine List.filter_congr fun a _ => ?_
    rw [Bool.eq_iff_iff]
    simp
  unfold newNames
  rw [List.filter_cons_of_pos hside, List.map_cons, List.filter_cons_of_pos (by simp [hnew]),
    List.eraseDups_cons, hfilter]

theorem nextNew_skip (h : side x = false ∨ x.name ∈ seen) :
    nextNew seen side (x :: xs) = nextNew seen side xs := by
  unfold nextNew
  rw [List.find?_cons_of_neg]
  rcases h with h | h <;> simp [h]

theorem nextNew_take (hside : side x = true) (hnew : x.name ∉ seen) :
    nextNew seen side (x :: xs) = some x.name := by
  unfold nextNew
  rw [List.find?_cons_of_pos (by simp [hside, hnew])]
  rfl

theorem newNames_eq_cons {a : α} {rest : List α} : newNames seen side xs = a :: rest ↔
    nextNew seen side xs = some a ∧ rest = newNames (a :: seen) side xs := by
  induction xs with
  | nil =>
    refine iff_of_false (fun h => ?_) fun h => ?_
    · cases h
    · cases h.1
  | cons x xs ih =>
    by_cases hskip : side x = false ∨ x.name ∈ seen
    · have hskip' : side x = false ∨ x.name ∈ a :: seen :=
        hskip.imp_right fun h => List.mem_cons_of_mem _ h
      rw [newNames_skip hskip, nextNew_skip hskip, newNames_skip hskip']
      exact ih
    · rw [not_or, Bool.not_eq_false] at hskip
      rw [newNames_take hskip.1 hskip.2, nextNew_take hskip.1 hskip.2, List.cons.injEq,
        Option.some.injEq]
      refine and_congr_right fun hname => ?_
      subst hname
      rw [newNames_skip (Or.inr List.mem_cons_self)]
      exact eq_comm

end Names

/-- The two lists of names agree exactly when each observer catches up with the other. -/
theorem newNames_eq_iff (seen : List α) (xs : List (Sighting α)) :
    newNames seen Sighting.left xs = newNames seen Sighting.right xs ↔ CaughtUp seen xs := by
  induction xs generalizing seen with
  | nil => exact iff_of_true rfl trivial
  | cons x xs ih =>
    unfold CaughtUp
    by_cases hseen : x.name ∈ seen
    · rw [if_pos (Or.inl hseen), newNames_skip (Or.inr hseen), newNames_skip (Or.inr hseen)]
      exact ih seen
    · cases hleft : x.left <;> cases hright : x.right
      · rw [if_pos (by simp), newNames_skip (Or.inl hleft), newNames_skip (Or.inl hright)]
        exact ih seen
      · rw [if_neg (by simp [hseen]), newNames_skip (Or.inl hleft), newNames_take hright hseen,
          newNames_eq_cons, eq_comm, ← ih]
        simp only [Bool.true_eq_false, false_implies, true_implies, true_and]
        rw [and_congr_right_iff]
        exact fun _ => eq_comm
      · rw [if_neg (by simp [hseen]), newNames_take hleft hseen, newNames_skip (Or.inl hright),
          eq_comm, newNames_eq_cons, ← ih]
        simp only [Bool.true_eq_false, false_implies, true_implies, true_and]
      · rw [if_neg (by simp [hseen]), newNames_take hleft hseen, newNames_take hright hseen,
          List.cons.injEq, ← ih]
        simp

end Rdap.Lib
