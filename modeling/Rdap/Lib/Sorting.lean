import Mathlib.Data.List.Sort
import Mathlib.Data.List.Perm.Basic
import Mathlib.Data.Prod.Lex

/-!
# Sorting by a key

A stable sort of a list and of a permutation of it agree as soon as the order tells the
elements apart, and a sort leaves a sorted list alone.
-/

set_option autoImplicit false

namespace Rdap.Lib

universe u
variable {α : Type u} {r : α → α → Prop} [DecidableRel r]

theorem insertionSort_eq_of_perm [Std.Total r] [IsTrans α r] {xs ys : List α} (hperm : xs.Perm ys)
    (hanti : ∀ a ∈ xs, ∀ b ∈ xs, r a b → r b a → a = b) :
    xs.insertionSort r = ys.insertionSort r := by
  have hsorted : (xs.insertionSort r).Perm (ys.insertionSort r) :=
    (List.perm_insertionSort r xs).trans (hperm.trans (List.perm_insertionSort r ys).symm)
  apply hsorted.eq_of_pairwise _ (List.pairwise_insertionSort r xs) (List.pairwise_insertionSort r ys)
  intro a b ha hb hab hba
  have hax := (List.mem_insertionSort r).mp ha
  have hbx := hperm.mem_iff.mpr ((List.mem_insertionSort r).mp hb)
  exact hanti a hax b hbx hab hba

/-- Where the order tells all elements apart, a sort makes a strictly sorted list. -/
theorem insertionSort_strict [Std.Total r] [IsTrans α r] {lt : α → α → Prop}
    (hlt : ∀ a b, r a b → ¬ r b a → lt a b) {xs : List α} (hne : xs.Pairwise fun a b => ¬ (r a b ∧ r b a)) :
    (xs.insertionSort r).Pairwise lt := by
  have hsymm : ∀ {a b}, ¬ (r a b ∧ r b a) → ¬ (r b a ∧ r a b) := fun h hba => h ⟨hba.2, hba.1⟩
  have hapart := ((List.perm_insertionSort r xs).pairwise_iff hsymm).mpr hne
  refine ((List.pairwise_insertionSort r xs).and hapart).imp ?_
  rintro a b ⟨hab, hnot⟩
  exact hlt a b hab fun hba => hnot ⟨hab, hba⟩

/-- The first of the largest elements, as `max` with a key finds it. -/
def firstMax (key : α → Int) : α → List α → α
  | best, [] => best
  | best, x :: xs => if key best < key x then firstMax key x xs else firstMax key best xs

theorem firstMax_spec (key : α → Int) (best : α) (xs : List α) :
    firstMax key best xs ∈ best :: xs ∧ ∀ y ∈ best :: xs, key y ≤ key (firstMax key best xs) := by
  induction xs generalizing best with
  | nil => simp [firstMax]
  | cons x xs ih =>
    unfold firstMax
    split
    · rename_i hlt
      obtain ⟨hmem, hmax⟩ := ih x
      refine ⟨List.mem_cons_of_mem best hmem, ?_⟩
      intro y hy
      rcases List.mem_cons.mp hy with rfl | hy
      · have hx := hmax x List.mem_cons_self
        omega
      · exact hmax y hy
    · rename_i hle
      obtain ⟨hmem, hmax⟩ := ih best
      have hbest := hmax best List.mem_cons_self
      refine ⟨?_, ?_⟩
      · rcases List.mem_cons.mp hmem with heq | hmem
        · rw [heq]
          exact List.mem_cons_self
        · exact List.mem_cons_of_mem best (List.mem_cons_of_mem x hmem)
      · intro y hy
        rcases List.mem_cons.mp hy with rfl | hy
        · exact hbest
        · rcases List.mem_cons.mp hy with rfl | hy
          · omega
          · exact hmax y (List.mem_cons_of_mem best hy)

/-! ## Three keys -/

section Lexicographic

variable {β : Type u} {γ : Type u} {δ : Type u} [LinearOrder β] [LinearOrder γ] [LinearOrder δ]

/-- The order by one key, then by a second and a third. -/
def LexLe (a b : β × γ × δ) : Prop :=
  a.1 < b.1 ∨ (a.1 = b.1 ∧ (a.2.1 < b.2.1 ∨ (a.2.1 = b.2.1 ∧ a.2.2 ≤ b.2.2)))

theorem lexLe_iff (a b : β × γ × δ) :
    LexLe a b ↔ toLex (a.1, toLex (a.2.1, a.2.2)) ≤ toLex (b.1, toLex (b.2.1, b.2.2)) := by
  simp [LexLe, Prod.Lex.toLex_le_toLex]

theorem lexLe_total (a b : β × γ × δ) : LexLe a b ∨ LexLe b a := by
  rw [lexLe_iff, lexLe_iff]
  exact le_total _ _

theorem lexLe_trans {a b c : β × γ × δ} (hab : LexLe a b) (hbc : LexLe b c) : LexLe a c := by
  rw [lexLe_iff] at hab hbc ⊢
  exact le_trans hab hbc

theorem lexLe_antisymm {a b : β × γ × δ} (hab : LexLe a b) (hba : LexLe b a) : a = b := by
  rw [lexLe_iff] at hab hba
  have hkeys := le_antisymm hab hba
  simp only [toLex_inj, Prod.mk.injEq] at hkeys
  exact Prod.ext hkeys.1 (Prod.ext hkeys.2.1 hkeys.2.2)

end Lexicographic

end Rdap.Lib
