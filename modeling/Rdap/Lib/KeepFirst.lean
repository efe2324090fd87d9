import Mathlib.Data.List.Induction
import Mathlib.Data.List.Nodup

/-!
# First occurrences

Of the elements with one key, the first is kept. A loop that skips the keys it has seen keeps
the first occurrences, in their order.
-/

set_option autoImplicit false

namespace Rdap.Lib

universe u v
variable {α : Type u} {κ : Type v} [DecidableEq κ] (key : α → κ)

def keepFirst (xs : List α) : List α :=
  xs.foldl (fun kept x => if key x ∈ kept.map key then kept else kept ++ [x]) []

theorem keepFirst_concat (xs : List α) (x : α) : keepFirst key (xs ++ [x]) =
    if key x ∈ (keepFirst key xs).map key then keepFirst key xs else keepFirst key xs ++ [x] := by
  simp [keepFirst]

theorem keepFirst_sublist (xs : List α) : (keepFirst key xs).Sublist xs := by
  induction xs using List.reverseRecOn with
  | nil => exact List.Sublist.refl _
  | append_singleton xs x ih =>
    rw [keepFirst_concat]
    split
    · exact ih.trans (List.sublist_append_left _ _)
    · exact ih.append (List.Sublist.refl _)

end Rdap.Lib
