import Mathlib.Logic.Relation
import Mathlib.Order.WellFounded

/-!
# Changes along a history

Versions with their parents form a history without cycles. What differs between a version and
one of its ancestors changed at a version in between, against one of its parents.
-/

set_option autoImplicit false

namespace Rdap.Lib

variable {α β : Type} {parent : α → α → Prop}

/-- Some line of parents leads from the first to the second. -/
abbrev Reaches (parent : α → α → Prop) : α → α → Prop := Relation.ReflTransGen parent

/-- What the newer version has in its history and the older one has not. -/
def Between (parent : α → α → Prop) (older newer c : α) : Prop :=
  Reaches parent newer c ∧ ¬ Reaches parent older c

theorem not_reaches_back (hacyclic : WellFounded fun q c => parent c q) {a b c : α}
    (hstep : parent a b) (hrest : Reaches parent b c) : ¬ Reaches parent c a := by
  intro hback
  have hcycle : Relation.TransGen parent a a := (Relation.TransGen.head' hstep hrest).trans_left hback
  have hswap : Relation.TransGen (fun q c => parent c q) a a := Relation.transGen_swap.mpr hcycle
  exact hacyclic.transGen.irrefl.irrefl a hswap

/-- The induction is on the line from the newer version. -/
theorem exists_change_between (hacyclic : WellFounded fun q c => parent c q) {older newer : α}
    (hline : Reaches parent newer older) (f : α → β) (hne : f older ≠ f newer) :
    ∃ c q, Between parent older newer c ∧ parent c q ∧ f q ≠ f c := by
  induction hline using Relation.ReflTransGen.head_induction_on with
  | refl => exact absurd rfl hne
  | head hstep hrest ih =>
    rename_i c' q'
    by_cases hsame : f q' = f c'
    · obtain ⟨c, q, ⟨hreach, hnew⟩, hparent, hchange⟩ := ih (hsame ▸ hne)
      exact ⟨c, q, ⟨hreach.head hstep, hnew⟩, hparent, hchange⟩
    · exact ⟨c', q', ⟨.refl, not_reaches_back hacyclic hstep hrest⟩, hstep, hsame⟩

end Rdap.Lib
