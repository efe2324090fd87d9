import Mathlib.Data.List.Basic

/-!
# Escaped fields

A field in which a mark only stands behind an escape symbol, and a separator that holds the
mark without one. The escape symbol itself is not escaped, so the field is found from its end:
the last separator is the last bare mark.
-/

set_option autoImplicit false

namespace Rdap.Lib

universe u
variable {α : Type u} [DecidableEq α]

/-- `esc` is put before every `mark`. -/
def escape (mark esc : α) (s : List α) : List α :=
  s.flatMap fun c => if c = mark then [esc, mark] else [c]

/-- The escaped field from its end. -/
def escapeBack (mark esc : α) (s : List α) : List α :=
  s.flatMap fun c => if c = mark then [mark, esc] else [c]

variable {mark esc : α}

theorem escape_reverse (s : List α) : (escape mark esc s).reverse = escapeBack mark esc s.reverse := by
  unfold escape escapeBack
  rw [List.reverse_flatMap]
  congr 1
  funext c
  simp only [Function.comp]
  split <;> rfl

theorem mem_escape {s : List α} {c : α} (h : c ∈ escape mark esc s) : c = esc ∨ c ∈ s := by
  obtain ⟨d, hd, hc⟩ := List.mem_flatMap.mp h
  split at hc
  · rename_i hmark
    rcases List.mem_pair.mp hc with rfl | rfl
    · exact Or.inl rfl
    · exact Or.inr (hmark ▸ hd)
  · exact Or.inr (List.mem_singleton.mp hc ▸ hd)

theorem mem_escape_of_mem {s : List α} {c : α} (h : c ∈ s) : c ∈ escape mark esc s := by
  refine List.mem_flatMap.mpr ⟨c, h, ?_⟩
  split <;> simp_all

theorem escapeBack_inj {pre post : α} (hpost : post ≠ mark) (hpre : pre ≠ esc) {s s' rest rest' : List α}
    (h : escapeBack mark esc s ++ post :: mark :: pre :: rest =
      escapeBack mark esc s' ++ post :: mark :: pre :: rest') : s = s' ∧ rest = rest' := by
  -- A field cannot end where the other goes on: the separator would begin with an escaped mark.
  have hshort : ∀ (c : α) (t r r' : List α), post :: mark :: pre :: r ≠
      escapeBack mark esc (c :: t) ++ post :: mark :: pre :: r' := by
    intro c t r r' heq
    unfold escapeBack at heq
    rw [List.flatMap_cons] at heq
    by_cases hc : c = mark
    · rw [if_pos hc] at heq
      exact hpost (List.cons.inj heq).1
    · rw [if_neg hc] at heq
      have hrest := (List.cons.inj heq).2
      cases t with
      | nil => exact hpost (List.cons.inj hrest).1.symm
      | cons d t =>
        rw [List.flatMap_cons] at hrest
        by_cases hd : d = mark
        · rw [if_pos hd] at hrest
          exact hpre (List.cons.inj (List.cons.inj hrest).2).1
        · rw [if_neg hd] at hrest
          exact hd (List.cons.inj hrest).1.symm
  induction s generalizing s' with
  | nil =>
    cases s' with
    | nil =>
      obtain ⟨-, htail⟩ := List.cons.inj h
      exact ⟨rfl, (List.cons.inj (List.cons.inj htail).2).2⟩
    | cons c t => exact absurd h (hshort c t rest rest')
  | cons c s ih =>
    cases s' with
    | nil => exact absurd h.symm (hshort c s rest' rest)
    | cons d t =>
      unfold escapeBack at h
      rw [List.flatMap_cons, List.flatMap_cons] at h
      have hcancel : c = d ∧ escapeBack mark esc s ++ post :: mark :: pre :: rest =
          escapeBack mark esc t ++ post :: mark :: pre :: rest' := by
        by_cases hc : c = mark
        · by_cases hd : d = mark
          · rw [if_pos hc, if_pos hd] at h
            exact ⟨hc.trans hd.symm, (List.cons.inj (List.cons.inj h).2).2⟩
          · rw [if_pos hc, if_neg hd] at h
            exact absurd (List.cons.inj h).1.symm hd
        · by_cases hd : d = mark
          · rw [if_neg hc, if_pos hd] at h
            exact absurd (List.cons.inj h).1 hc
          · rw [if_neg hc, if_neg hd] at h
            exact List.cons.inj h
      obtain ⟨heq, hrest⟩ := ih hcancel.2
      exact ⟨by rw [hcancel.1, heq], hrest⟩

/-- The last field and what is before its separator can be told from the whole. -/
theorem append_escape_inj {pre post : α} (hpost : post ≠ mark) (hpre : pre ≠ esc)
    {before before' s s' : List α} (h : before ++ pre :: mark :: post :: escape mark esc s =
      before' ++ pre :: mark :: post :: escape mark esc s') : before = before' ∧ s = s' := by
  have hback := congrArg List.reverse h
  simp only [List.reverse_append, List.reverse_cons, List.append_assoc, List.cons_append,
    List.nil_append, escape_reverse] at hback
  obtain ⟨hs, hbefore⟩ := escapeBack_inj hpost hpre hback
  exact ⟨List.reverse_injective hbefore, List.reverse_injective hs⟩

end Rdap.Lib
