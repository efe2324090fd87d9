import Mathlib.Data.List.Induction
import Mathlib.Data.List.Nodup

/-!
# The last write wins

A table that entries are written to in turn. A key keeps the place of its first entry and the
value of its last one; along a sorted list the last one is the greatest.
-/

set_option autoImplicit false

namespace Rdap.Lib

universe u v w
variable {κ : Type u} {ν : Type v} {μ : Type w} [DecidableEq κ]

/-- Write `v` at `k`, in the place of `k` or at the end. -/
def upsert (k : κ) (v : ν) : List (κ × ν) → List (κ × ν)
  | [] => [(k, v)]
  | e :: rest => if e.1 = k then (k, v) :: rest else e :: upsert k v rest

/-- The table after all the entries. -/
def lastWrites (entries : List (κ × ν)) : List (κ × ν) :=
  entries.foldl (fun table e => upsert e.1 e.2 table) []

theorem lastWrites_concat (entries : List (κ × ν)) (e : κ × ν) :
    lastWrites (entries ++ [e]) = upsert e.1 e.2 (lastWrites entries) := by
  simp [lastWrites]

theorem keys_upsert (k : κ) (v : ν) (table : List (κ × ν)) :
    (upsert k v table).map Prod.fst =
      if k ∈ table.map Prod.fst then table.map Prod.fst else table.map Prod.fst ++ [k] := by
  induction table with
  | nil => simp [upsert]
  | cons e rest ih =>
    unfold upsert
    by_cases hk : e.1 = k
    · simp [hk]
    · have hne : ¬k = e.1 := fun h => hk h.symm
      simp only [if_neg hk, List.map_cons, ih, List.mem_cons, hne, false_or]
      split <;> simp

theorem upsert_nodup {table : List (κ × ν)} (h : (table.map Prod.fst).Nodup) (k : κ) (v : ν) :
    ((upsert k v table).map Prod.fst).Nodup := by
  rw [keys_upsert]
  split
  · exact h
  · rename_i hnew
    rw [← List.concat_eq_append]
    exact h.concat hnew

theorem lastWrites_nodup (entries : List (κ × ν)) : ((lastWrites entries).map Prod.fst).Nodup := by
  induction entries using List.reverseRecOn with
  | nil => simp [lastWrites]
  | append_singleton entries e ih =>
    rw [lastWrites_concat]
    exact upsert_nodup ih e.1 e.2

theorem mem_upsert {k : κ} {v : ν} {table : List (κ × ν)} (hnodup : (table.map Prod.fst).Nodup)
    (e : κ × ν) : e ∈ upsert k v table ↔ e = (k, v) ∨ (e.1 ≠ k ∧ e ∈ table) := by
  induction table with
  | nil => simp [upsert]
  | cons first rest ih =>
    rw [List.map_cons, List.nodup_cons] at hnodup
    obtain ⟨hfirst, hrest⟩ := hnodup
    unfold upsert
    by_cases hk : first.1 = k
    · rw [if_pos hk, List.mem_cons, List.mem_cons]
      constructor
      · rintro (rfl | he)
        · exact Or.inl rfl
        · right
          refine ⟨fun hek => hfirst ?_, Or.inr he⟩
          rw [hk, ← hek]
          exact List.mem_map_of_mem he
      · rintro (rfl | ⟨hne, rfl | he⟩)
        · exact Or.inl rfl
        · exact absurd hk hne
        · exact Or.inr he
    · rw [if_neg hk, List.mem_cons, List.mem_cons, ih hrest]
      constructor
      · rintro (rfl | rfl | ⟨hne, he⟩)
        · exact Or.inr ⟨hk, Or.inl rfl⟩
        · exact Or.inl rfl
        · exact Or.inr ⟨hne, Or.inr he⟩
      · rintro (rfl | ⟨hne, rfl | he⟩)
        · exact Or.inr (Or.inl rfl)
        · exact Or.inl rfl
        · exact Or.inr (Or.inr ⟨hne, he⟩)

theorem mem_lastWrites (entries : List (κ × ν)) (e : κ × ν) : e ∈ lastWrites entries ↔
    ∃ before after, entries = before ++ e :: after ∧ ∀ e' ∈ after, e'.1 ≠ e.1 := by
  induction entries using List.reverseRecOn with
  | nil => simp [lastWrites]
  | append_singleton entries last ih =>
    rw [lastWrites_concat, mem_upsert (lastWrites_nodup entries), ih]
    constructor
    · rintro (rfl | ⟨hne, before, after, rfl, hafter⟩)
      · exact ⟨entries, [], rfl, by simp⟩
      · refine ⟨before, after ++ [last], by simp, ?_⟩
        intro e' he'
        rcases List.mem_append.mp he' with he' | he'
        · exact hafter e' he'
        · rw [List.mem_singleton.mp he']
          exact hne.symm
    · rintro ⟨before, after, hsplit, hafter⟩
      rcases List.eq_nil_or_concat after with rfl | ⟨after, last', rfl⟩
      · left
        exact (List.append_inj' hsplit rfl).2 |> List.singleton_inj.mp |>.symm
      · right
        have hsplit' : entries ++ [last] = (before ++ e :: after) ++ [last'] := by
          rw [hsplit, List.concat_eq_append]
          simp
        obtain ⟨hinit, hlast⟩ := List.append_inj' hsplit' rfl
        rw [List.singleton_inj] at hlast
        subst hlast
        refine ⟨fun h => ?_, before, after, hinit, fun e' he' => hafter e' ?_⟩
        · exact hafter last (by simp) h.symm
        · simp [he']

/-- A key that is written to stays in the table. -/
theorem exists_lastWrite {entries : List (κ × ν)} {e : κ × ν} (he : e ∈ entries) :
    ∃ v, (e.1, v) ∈ lastWrites entries := by
  induction entries using List.reverseRecOn with
  | nil => cases he
  | append_singleton entries last ih =>
    rw [lastWrites_concat]
    by_cases hkey : last.1 = e.1
    · exact ⟨last.2, (mem_upsert (lastWrites_nodup entries) _).mpr (Or.inl (by rw [hkey]))⟩
    · rcases List.mem_append.mp he with he | he
      · obtain ⟨v, hv⟩ := ih he
        exact ⟨v, (mem_upsert (lastWrites_nodup entries) _).mpr (Or.inr ⟨fun h => hkey h.symm, hv⟩)⟩
      · rw [List.mem_singleton] at he
        exact absurd (congrArg Prod.fst he).symm hkey

/-- A table of images is the image of the table. -/
theorem lastWrites_map (f : ν → μ) (entries : List (κ × ν)) :
    lastWrites (entries.map fun e => (e.1, f e.2)) = (lastWrites entries).map fun e => (e.1, f e.2) := by
  have hupsert : ∀ (k : κ) (v : ν) (table : List (κ × ν)),
      upsert k (f v) (table.map fun e => (e.1, f e.2)) = (upsert k v table).map fun e => (e.1, f e.2) := by
    intro k v table
    induction table with
    | nil => rfl
    | cons e rest ih =>
      simp only [List.map_cons, upsert, ih]
      split <;> rfl
  induction entries using List.reverseRecOn with
  | nil => rfl
  | append_singleton entries e ih =>
    rw [List.map_append, List.map_cons, List.map_nil, lastWrites_concat, lastWrites_concat, ih, hupsert]

/-- Along a sorted list the winner of a key is its greatest entry. -/
theorem mem_lastWrites_of_sorted {r : ν → ν → Prop} {entries : List (κ × ν)}
    (hsorted : entries.Pairwise fun a b => r a.2 b.2) (hrefl : ∀ v, r v v)
    (hanti : ∀ a ∈ entries, ∀ b ∈ entries, r a.2 b.2 → r b.2 a.2 → a = b) (hnodup : entries.Nodup)
    (e : κ × ν) : e ∈ lastWrites entries ↔ e ∈ entries ∧ ∀ e' ∈ entries, e'.1 = e.1 → r e'.2 e.2 := by
  rw [mem_lastWrites]
  constructor
  · rintro ⟨before, after, rfl, hafter⟩
    refine ⟨by simp, ?_⟩
    intro e' he' hkey
    rcases List.mem_append.mp he' with he' | he'
    · exact (List.pairwise_append.mp hsorted).2.2 e' he' e List.mem_cons_self
    · rcases List.mem_cons.mp he' with rfl | he'
      · exact hrefl _
      · exact absurd hkey (hafter e' he')
  · rintro ⟨he, hmax⟩
    obtain ⟨before, after, rfl⟩ := List.append_of_mem he
    refine ⟨before, after, rfl, ?_⟩
    intro e' he' hkey
    have hmem : e' ∈ before ++ e :: after := by simp [he']
    have hle := hmax e' hmem hkey
    have hge := (List.pairwise_cons.mp (List.pairwise_append.mp hsorted).2.1).1 e' he'
    have heq := hanti e' hmem e he hle hge
    subst heq
    exact (List.nodup_cons.mp (List.nodup_append.mp hnodup).2.1).1 he'

end Rdap.Lib
