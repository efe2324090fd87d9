import Mathlib.Data.List.Lex
import Mathlib.Order.Lattice

/-!
# The order of texts

Fields of one width compare field by field. Texts that end with a symbol above all their own
compare as without it, except that such a text stands above its own extensions.
-/

set_option autoImplicit false

namespace Rdap.Lib

universe u
variable {α : Type u} [LinearOrder α]

/-- Of two fields of one width the first difference decides. -/
theorem append_lt_append_iff {a b : List α} (hlength : a.length = b.length) {c d : List α} :
    a ++ c < b ++ d ↔ a < b ∨ (a = b ∧ c < d) := by
  induction a generalizing b with
  | nil =>
    obtain rfl := List.length_eq_zero_iff.mp hlength.symm
    simp
  | cons x a ih =>
    cases b with
    | nil => cases hlength
    | cons y b =>
      have hrest := ih (Nat.succ.inj hlength)
      simp only [List.cons_append, List.cons_lt_cons_iff, hrest, List.cons.injEq]
      constructor
      · rintro (hlt | ⟨rfl, hlt | ⟨rfl, hlt⟩⟩)
        · exact Or.inl (Or.inl hlt)
        · exact Or.inl (Or.inr ⟨rfl, hlt⟩)
        · exact Or.inr ⟨⟨rfl, rfl⟩, hlt⟩
      · rintro ((hlt | ⟨rfl, hlt⟩) | ⟨⟨rfl, rfl⟩, hlt⟩)
        · exact Or.inl hlt
        · exact Or.inr ⟨rfl, Or.inl hlt⟩
        · exact Or.inr ⟨rfl, Or.inr ⟨rfl, hlt⟩⟩

/-- Texts that neither extends the other compare as any texts that begin with them. -/
theorem lt_iff_of_isPrefix {x y xs ys : List α} (hx : x <+: xs) (hy : y <+: ys) (hxy : ¬x <+: y)
    (hyx : ¬y <+: x) : x < y ↔ xs < ys := by
  induction x generalizing y xs ys with
  | nil => exact absurd List.nil_prefix hxy
  | cons a x ih =>
    cases y with
    | nil => exact absurd List.nil_prefix hyx
    | cons b y =>
      obtain ⟨s, rfl⟩ := hx
      obtain ⟨t, rfl⟩ := hy
      rw [List.cons_prefix_cons] at hxy hyx
      simp only [List.cons_append, List.cons_lt_cons_iff]
      by_cases heq : a = b
      · subst heq
        have hrest := ih (List.prefix_append x s) (List.prefix_append y t) (fun h => hxy ⟨rfl, h⟩)
          fun h => hyx ⟨rfl, h⟩
        rw [hrest]
      · simp [heq]

theorem terminated_lt_iff {z : α} {x y : List α} (hx : ∀ c ∈ x, c < z) (hy : ∀ c ∈ y, c < z) :
    x ++ [z] < y ++ [z] ↔ (y <+: x ∧ y ≠ x) ∨ (¬x <+: y ∧ x < y) := by
  induction x generalizing y with
  | nil =>
    cases y with
    | nil => simp
    | cons b y =>
      have hb := hy b List.mem_cons_self
      simp only [List.nil_append, List.cons_append, List.cons_lt_cons_iff]
      constructor
      · rintro (hlt | ⟨rfl, -⟩)
        · exact absurd hlt (lt_asymm hb)
        · exact absurd hb (lt_irrefl z)
      · rintro (⟨hstem, -⟩ | ⟨hnot, -⟩)
        · exact absurd (List.prefix_nil.mp hstem) (List.cons_ne_nil b y)
        · exact absurd List.nil_prefix hnot
  | cons a x ih =>
    have ha := hx a List.mem_cons_self
    cases y with
    | nil =>
      simp only [List.nil_append, List.cons_append, List.cons_lt_cons_iff]
      exact ⟨fun _ => Or.inl ⟨List.nil_prefix, (List.cons_ne_nil a x).symm⟩, fun _ => Or.inl ha⟩
    | cons b y =>
      have hrest := ih (fun c hc => hx c (List.mem_cons_of_mem a hc))
        fun c hc => hy c (List.mem_cons_of_mem b hc)
      simp only [List.cons_append, List.cons_lt_cons_iff, hrest, List.cons_prefix_cons, ne_eq,
        List.cons.injEq]
      by_cases heq : a = b
      · subst heq
        simp
      · have hne : ¬b = a := fun h => heq h.symm
        simp [heq, hne]

end Rdap.Lib
