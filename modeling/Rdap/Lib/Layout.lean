import Mathlib.Data.List.Basic
import Mathlib.Data.List.TakeDrop
import Mathlib.Algebra.BigOperators.Group.List.Basic
import Mathlib.Algebra.GroupWithZero.Nat

/-!
# Records of fixed widths

Cutting a string into stretches of given widths undoes the concatenation of fields of those widths,
and the other way round, so that a fixed layout is read in one way.
-/

set_option autoImplicit false

namespace Rdap.Lib

universe u
variable {β : Type u}

/-- The consecutive stretches of the given widths. -/
def cut : List Nat → List β → List (List β)
  | [], _ => []
  | w :: ws, r => r.take w :: cut ws (r.drop w)

theorem cut_append {widths : List Nat} {fields : List (List β)} (h : fields.map List.length = widths)
    (rest : List β) : cut widths (fields.flatten ++ rest) = fields := by
  subst h
  induction fields with
  | nil => rfl
  | cons field fields ih =>
    rw [List.map_cons, cut, List.flatten_cons, List.append_assoc, List.take_left, List.drop_left, ih]

theorem cut_flatten {widths : List Nat} {fields : List (List β)} (h : fields.map List.length = widths) :
    cut widths fields.flatten = fields := by
  have hcut := cut_append h []
  rw [List.append_nil] at hcut
  exact hcut

theorem flatten_cut (widths : List Nat) (r : List β) : (cut widths r).flatten = r.take widths.sum := by
  induction widths generalizing r with
  | nil => simp [cut]
  | cons w ws ih => rw [cut, List.flatten_cons, ih, List.sum_cons, List.take_add]

theorem cut_lengths {widths : List Nat} {r : List β} (h : widths.sum ≤ r.length) :
    (cut widths r).map List.length = widths := by
  induction widths generalizing r with
  | nil => rfl
  | cons w ws ih =>
    rw [List.sum_cons] at h
    rw [cut, List.map_cons, List.length_take, ih (by rw [List.length_drop]; omega)]
    congr 1
    omega

/-- Fields of fixed widths are read in one way. -/
theorem flatten_injective {widths : List Nat} {fields fields' : List (List β)}
    (h : fields.map List.length = widths) (h' : fields'.map List.length = widths)
    (heq : fields.flatten = fields'.flatten) : fields = fields' := by
  rw [← cut_flatten h, heq, cut_flatten h']

/-- A string of the right length is cut into the fields that it is made of. -/
theorem cut_eq_iff {widths : List Nat} {r : List β} (hlength : r.length = widths.sum)
    {fields : List (List β)} :
    cut widths r = fields ↔ fields.map List.length = widths ∧ fields.flatten = r := by
  constructor
  · rintro rfl
    refine ⟨cut_lengths (Nat.le_of_eq hlength.symm), ?_⟩
    rw [flatten_cut, ← hlength, List.take_length]
  · rintro ⟨hwidths, rfl⟩
    exact cut_flatten hwidths

/-- A string begins with given fields just when they are what it is cut into first. -/
theorem cut_eq_iff_take {widths : List Nat} {fields : List (List β)} (h : fields.map List.length = widths)
    {r : List β} : cut widths r = fields ↔ r.take widths.sum = fields.flatten := by
  constructor
  · rintro rfl
    exact (flatten_cut widths r).symm
  · intro htake
    rw [← List.take_append_drop widths.sum r, htake]
    exact cut_append h _

theorem take_one_drop {r : List β} {n : Nat} (d : β) (h : n < r.length) : (r.drop n).take 1 = [r.getD n d] := by
  rw [List.getD_eq_getElem?_getD, List.getElem?_eq_getElem h, Option.getD_some]
  exact List.take_one_drop_eq_of_lt_length h

end Rdap.Lib
