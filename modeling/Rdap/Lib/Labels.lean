import Mathlib.Data.List.Infix

/-!
# Strings under labels

When no label is the beginning of another, a string begins with one of them at most.
-/

set_option autoImplicit false

namespace Rdap.Lib

universe u v
variable {κ : Type u} {β : Type v}

def Separated (label : κ → List β) : Prop := ∀ i j, label i <+: label j → i = j

theorem Separated.unique {label : κ → List β} (h : Separated label) {i j : κ} {x : List β}
    (hi : label i <+: x) (hj : label j <+: x) : i = j := by
  rcases List.prefix_or_prefix_of_prefix hi hj with hij | hji
  · exact h i j hij
  · exact (h j i hji).symm

end Rdap.Lib
