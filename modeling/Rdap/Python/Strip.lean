import Mathlib.Algebra.Order.BigOperators.Group.List
import Rdap.Python.Lines

/-!
# Stripped text and joined lines

What a text is after its blanks at both ends went, and what is left of it when some of its
lines are dropped and the others joined again.
-/

set_option autoImplicit false

namespace Rdap.Python

theorem dropWhile_of_head {α : Type} {p : α → Bool} {s : List α} (h : ∀ c ∈ s.head?, p c = false) :
    s.dropWhile p = s := by
  cases s with
  | nil => rfl
  | cons c s => rw [List.dropWhile_cons, if_neg (by simp [h c rfl])]

/-- Nothing is cut off where both ends are no blanks. -/
theorem strip_of_ends {s : PyStr} (hfirst : ∀ c ∈ s.head?, isSpace c = false)
    (hlast : ∀ c ∈ s.getLast?, isSpace c = false) : strip s = s := by
  unfold strip
  rw [dropWhile_of_head hfirst, dropWhile_of_head (by rwa [List.head?_reverse]), List.reverse_reverse]

theorem strip_of_spaceless {s : PyStr} (h : ∀ c ∈ s, isSpace c = false) : strip s = s :=
  strip_of_ends (fun c hc => h c (List.mem_of_mem_head? hc)) fun c hc => h c (List.mem_of_mem_getLast? hc)

theorem visible_not_space {c : CodePoint} (h : 33 ≤ c.val ∧ c.val ≤ 126) : isSpace c = false := by
  simp only [isSpace, isAsciiSpace, Bool.or_eq_false_iff, Bool.and_eq_false_iff, decide_eq_false_iff_not,
    beq_eq_false_iff_ne]
  omega

theorem strip_sublist (s : PyStr) : (strip s).Sublist s := by
  have hback := (List.dropWhile_sublist (p := isSpace) (l := (s.dropWhile isSpace).reverse)).reverse
  rw [List.reverse_reverse] at hback
  exact hback.trans (List.dropWhile_sublist _)

theorem dropWhile_head {α : Type} {p : α → Bool} {s : List α} : ∀ c ∈ (s.dropWhile p).head?, p c = false := by
  intro c hc
  have h := List.head?_dropWhile_not p s
  rw [Option.mem_def.mp hc] at h
  simpa using h

theorem strip_last (s : PyStr) : ∀ c ∈ (strip s).getLast?, isSpace c = false := by
  intro c hc
  unfold strip at hc
  rw [List.getLast?_reverse] at hc
  exact dropWhile_head c hc

theorem strip_head (s : PyStr) : ∀ c ∈ (strip s).head?, isSpace c = false := by
  intro c hc
  have hprefix : strip s <+: s.dropWhile isSpace := by
    unfold strip
    exact (List.dropWhile_suffix _).reverse.trans (by rw [List.reverse_reverse])
  obtain ⟨rest, hrest⟩ := hprefix
  refine dropWhile_head (s := s) c ?_
  rw [← hrest]
  cases hs : strip s with
  | nil => rw [hs] at hc; cases hc
  | cons d t => rwa [hs] at hc

theorem strip_strip (s : PyStr) : strip (strip s) = strip s := strip_of_ends (strip_head s) (strip_last s)

theorem strip_cons {c : CodePoint} (hc : isSpace c = true) (s : PyStr) : strip (c :: s) = strip s := by
  unfold strip
  rw [List.dropWhile_cons, if_pos hc]

/-! ## Pieces and joins -/

section Pieces
variable {α : Type} {p : α → Bool}

theorem mem_splitOnP {s piece : List α} (h : piece ∈ s.splitOnP p) :
    ∀ c ∈ piece, c ∈ s ∧ p c = false := by
  induction s generalizing piece with
  | nil =>
    rw [List.splitOnP_nil] at h
    obtain rfl := List.mem_singleton.mp h
    exact List.forall_mem_nil _
  | cons c s ih =>
    have hlift : ∀ t ∈ s.splitOnP p, ∀ d ∈ t, d ∈ c :: s ∧ p d = false := fun t ht d hd =>
      ⟨List.mem_cons_of_mem _ (ih ht d hd).1, (ih ht d hd).2⟩
    rw [List.splitOnP_cons_eq_if_modifyHead] at h
    split at h
    · rcases List.mem_cons.mp h with rfl | h
      · exact List.forall_mem_nil _
      · exact hlift piece h
    · rename_i hc
      obtain ⟨first, pieces, hpieces⟩ := List.exists_cons_of_ne_nil (List.splitOnP_ne_nil p s)
      rw [hpieces, List.modifyHead_cons] at h
      rcases List.mem_cons.mp h with rfl | h
      · refine List.forall_mem_cons.mpr ⟨⟨List.mem_cons_self, by simpa using hc⟩, ?_⟩
        exact hlift first (hpieces ▸ List.mem_cons_self)
      · exact hlift piece (hpieces ▸ List.mem_cons_of_mem _ h)

theorem splitOnP_congr {q : α → Bool} {s : List α} (h : ∀ c ∈ s, p c = q c) :
    s.splitOnP p = s.splitOnP q := by
  induction s with
  | nil => rfl
  | cons c s ih =>
    rw [List.splitOnP_cons_eq_if_modifyHead, List.splitOnP_cons_eq_if_modifyHead,
      h c List.mem_cons_self, ih fun d hd => h d (List.mem_cons_of_mem _ hd)]

theorem mem_intercalate {sep : α} {pieces : List (List α)} {c : α}
    (h : c ∈ List.intercalate [sep] pieces) : c = sep ∨ ∃ piece ∈ pieces, c ∈ piece := by
  induction pieces with
  | nil => cases h
  | cons piece pieces ih =>
    by_cases hnil : pieces = []
    · subst hnil
      rw [List.intercalate_singleton] at h
      exact Or.inr ⟨piece, List.mem_cons_self, h⟩
    · rw [List.intercalate_cons_of_ne_nil hnil, List.mem_append, List.mem_append] at h
      rcases h with (h | h) | h
      · exact Or.inr ⟨piece, List.mem_cons_self, h⟩
      · exact Or.inl (List.mem_singleton.mp h)
      · rcases ih h with rfl | ⟨other, hother, hc⟩
        · exact Or.inl rfl
        · exact Or.inr ⟨other, List.mem_cons_of_mem _ hother, hc⟩

theorem intercalate_length (sep : α) {pieces : List (List α)} (h : pieces ≠ []) :
    (List.intercalate [sep] pieces).length + 1 = (pieces.map fun piece => piece.length + 1).sum := by
  induction pieces with
  | nil => exact absurd rfl h
  | cons piece pieces ih =>
    by_cases hnil : pieces = []
    · subst hnil
      simp
    · have hrest := ih hnil
      rw [List.intercalate_cons_of_ne_nil hnil]
      simp only [List.length_append, List.length_singleton, List.map_cons, List.sum_cons]
      omega

/-- Dropping a piece makes the join shorter, if the text was not empty. -/
theorem intercalate_filter_length (sep : α) (keep : List α → Bool) (pieces : List (List α))
    (hnonempty : List.intercalate [sep] pieces ≠ []) (hdrop : ∃ piece ∈ pieces, keep piece = false) :
    (List.intercalate [sep] (pieces.filter keep)).length < (List.intercalate [sep] pieces).length := by
  have hpos := List.length_pos_of_ne_nil hnonempty
  by_cases hnil : pieces.filter keep = []
  · rw [hnil]
    exact hpos
  · have hlt : ((pieces.filter keep).map fun piece => piece.length + 1).sum <
        (pieces.map fun piece => piece.length + 1).sum := by
      clear hnil hnonempty hpos
      induction pieces with
      | nil => obtain ⟨_, h, _⟩ := hdrop; cases h
      | cons piece pieces ih =>
        have hle : ((pieces.filter keep).map fun piece => piece.length + 1).sum ≤
            (pieces.map fun piece => piece.length + 1).sum :=
          ((List.filter_sublist (l := pieces)).map _).sum_le_sum (by simp)
        rw [List.filter_cons]
        split
        · rename_i hkeep
          have hrest : ∃ piece ∈ pieces, keep piece = false := by
            obtain ⟨dropped, hmem, hdropped⟩ := hdrop
            rcases List.mem_cons.mp hmem with rfl | hmem
            · rw [hkeep] at hdropped
              cases hdropped
            · exact ⟨dropped, hmem, hdropped⟩
          have := ih hrest
          simp only [List.map_cons, List.sum_cons]
          omega
        · simp only [List.map_cons, List.sum_cons]
          omega
    have hne : pieces ≠ [] := by
      rintro rfl
      exact hnil rfl
    have h₁ := intercalate_length sep hnil
    have h₂ := intercalate_length sep hne
    omega

end Pieces

end Rdap.Python
