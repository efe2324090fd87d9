import Mathlib.Data.List.Nodup
import Mathlib.Algebra.GroupWithZero.Nat
import Mathlib.Algebra.BigOperators.Group.List.Basic

/-!
# Finite tables with one row per key

The rows are kept in order of insertion and the uniqueness of keys is a field, so a
table with two rows under one key cannot be built. This is what a dictionary and an
SQL table with a primary key have in common. Everything about lookups goes through
`get?_eq_some`, which turns a lookup into membership of a row.
-/

set_option autoImplicit false

namespace Rdap.Lib

universe u v
variable {κ : Type u} {ν : Type v}

structure KeyedTable (κ : Type u) (ν : Type v) where
  rows : List (κ × ν)
  nodup : (rows.map Prod.fst).Nodup

namespace KeyedTable

@[ext] theorem ext {t u : KeyedTable κ ν} (h : t.rows = u.rows) : t = u := by
  cases t
  cases u
  simpa using h

def empty : KeyedTable κ ν := ⟨[], by simp⟩

@[simp] theorem empty_rows : (empty : KeyedTable κ ν).rows = [] := rfl

/-- The rows that satisfy a predicate: what is left after a deletion. -/
def filter (t : KeyedTable κ ν) (p : κ × ν → Bool) : KeyedTable κ ν where
  rows := t.rows.filter p
  nodup := t.nodup.sublist (List.Sublist.map Prod.fst (List.filter_sublist (l := t.rows)))

@[simp] theorem filter_rows (t : KeyedTable κ ν) (p : κ × ν → Bool) :
    (t.filter p).rows = t.rows.filter p := rfl

/-- Two rows under one key are the same row. -/
theorem row_unique (t : KeyedTable κ ν) {k : κ} {v w : ν}
    (hv : (k, v) ∈ t.rows) (hw : (k, w) ∈ t.rows) : v = w := by
  have hinj := List.inj_on_of_nodup_map t.nodup hv hw rfl
  simpa using hinj

def weight (t : KeyedTable κ ν) (f : κ × ν → Nat) : Nat := (t.rows.map f).sum

def count (t : KeyedTable κ ν) : Nat := t.rows.length

@[simp] theorem count_empty : (empty : KeyedTable κ ν).count = 0 := rfl

@[simp] theorem weight_empty (f : κ × ν → Nat) : (empty : KeyedTable κ ν).weight f = 0 := rfl

theorem count_eq_weight (t : KeyedTable κ ν) : t.count = t.weight fun _ => 1 := by
  simp [count, weight]

/-- A deletion splits the weight of a table into what stays and what goes. -/
theorem weight_filter_add (t : KeyedTable κ ν) (p : κ × ν → Bool) (f : κ × ν → Nat) :
    (t.filter p).weight f + (t.filter fun r => !p r).weight f = t.weight f := by
  unfold weight
  simp only [filter_rows]
  induction t.rows with
  | nil => rfl
  | cons r rs ih =>
    cases hp : p r <;> simp only [List.filter_cons, hp, Bool.not_true, Bool.not_false, if_true,
      Bool.false_eq_true, if_false, List.map_cons, List.sum_cons] at ih ⊢ <;> omega

section Lookup
variable [DecidableEq κ]

def get? (t : KeyedTable κ ν) (k : κ) : Option ν :=
  (t.rows.find? fun r => r.1 = k).map Prod.snd

def contains (t : KeyedTable κ ν) (k : κ) : Bool := (t.get? k).isSome

theorem get?_eq_some (t : KeyedTable κ ν) {k : κ} {v : ν} :
    t.get? k = some v ↔ (k, v) ∈ t.rows := by
  unfold get?
  constructor
  · intro h
    obtain ⟨r, hr, rfl⟩ := Option.map_eq_some_iff.mp h
    have hk : r.1 = k := by simpa using List.find?_some hr
    subst hk
    exact List.mem_of_find?_eq_some hr
  · intro h
    cases hf : t.rows.find? fun r => r.1 = k with
    | none =>
      have := List.find?_eq_none.mp hf (k, v) h
      simp at this
    | some r =>
      have hk : r.1 = k := by simpa using List.find?_some hf
      subst hk
      have hrow := t.row_unique (List.mem_of_find?_eq_some hf) h
      simp [hrow]

theorem get?_eq_none (t : KeyedTable κ ν) {k : κ} :
    t.get? k = none ↔ ∀ v, (k, v) ∉ t.rows := by
  constructor
  · intro h v hv
    rw [(t.get?_eq_some).mpr hv] at h
    simp at h
  · intro h
    cases hg : t.get? k with
    | none => rfl
    | some v => exact absurd ((t.get?_eq_some).mp hg) (h v)

@[simp] theorem get?_empty (k : κ) : (empty : KeyedTable κ ν).get? k = none := rfl

theorem get?_filter (t : KeyedTable κ ν) (p : κ × ν → Bool) (k : κ) :
    (t.filter p).get? k = (t.get? k).filter fun v => p (k, v) := by
  apply Option.ext
  intro v
  simp only [get?_eq_some, filter_rows, List.mem_filter, Option.filter_eq_some_iff]

def erase (t : KeyedTable κ ν) (k : κ) : KeyedTable κ ν := t.filter fun r => r.1 ≠ k

theorem get?_erase (t : KeyedTable κ ν) (k j : κ) :
    (t.erase k).get? j = if j = k then none else t.get? j := by
  unfold erase
  rw [get?_filter]
  split
  · rename_i h
    cases t.get? j <;> simp [h]
  · rename_i h
    cases t.get? j <;> simp [h]

@[simp] theorem get?_erase_self (t : KeyedTable κ ν) (k : κ) : (t.erase k).get? k = none := by
  simp [get?_erase]

theorem erase_of_absent (t : KeyedTable κ ν) {k : κ} (h : t.get? k = none) : t.erase k = t := by
  apply ext
  apply List.filter_eq_self.mpr
  rintro ⟨j, v⟩ hrow
  have hne : j ≠ k := by
    rintro rfl
    exact (t.get?_eq_none).mp h v hrow
  simpa using hne

theorem filter_key_of_mem {rows : List (κ × ν)} (hn : (rows.map Prod.fst).Nodup) {k : κ} {v : ν}
    (h : (k, v) ∈ rows) : (rows.filter fun r => r.1 = k) = [(k, v)] := by
  induction rows with
  | nil => simp at h
  | cons r rs ih =>
    obtain ⟨hfresh, hrest⟩ := List.nodup_cons.mp hn
    rcases List.mem_cons.mp h with rfl | htail
    · have hnone : (rs.filter fun r => r.1 = k) = [] := by
        apply List.filter_eq_nil_iff.mpr
        intro a ha hk
        apply hfresh
        exact List.mem_map.mpr ⟨a, ha, by simpa using hk⟩
      simp [hnone]
    · have hne : r.1 ≠ k := by
        rintro rfl
        exact hfresh (List.mem_map.mpr ⟨_, htail, rfl⟩)
      simpa [hne] using ih hrest htail

/-- Erasing a key takes exactly the weight of its row out of the table. -/
theorem weight_erase_add (t : KeyedTable κ ν) (k : κ) (f : κ × ν → Nat) :
    (t.erase k).weight f + ((t.get? k).map fun v => f (k, v)).getD 0 = t.weight f := by
  rw [← t.weight_filter_add (fun r => r.1 ≠ k) f]
  refine congrArg ((t.erase k).weight f + ·) ?_
  have hkey : (fun r : κ × ν => !decide (r.1 ≠ k)) = fun r => decide (r.1 = k) := by
    funext r
    by_cases hr : r.1 = k <;> simp [hr]
  rw [hkey]
  unfold weight
  rw [filter_rows]
  cases hg : t.get? k with
  | none =>
    have habsent : (t.rows.filter fun r => r.1 = k) = [] := by
      apply List.filter_eq_nil_iff.mpr
      rintro ⟨j, v⟩ hrow hk
      obtain rfl : j = k := by simpa using hk
      exact (t.get?_eq_none).mp hg v hrow
    simp [habsent]
  | some v => simp [filter_key_of_mem t.nodup ((t.get?_eq_some).mp hg)]

/-- A fresh row is appended; an existing one is overwritten in place. -/
def set (t : KeyedTable κ ν) (k : κ) (v : ν) : KeyedTable κ ν where
  rows := if t.contains k then t.rows.map fun r => if r.1 = k then (k, v) else r
    else t.rows ++ [(k, v)]
  nodup := by
    split
    · have hkeys : (t.rows.map fun r => if r.1 = k then (k, v) else r).map Prod.fst =
          t.rows.map Prod.fst := by
        rw [List.map_map]
        apply List.map_congr_left
        intro r _
        by_cases hr : r.1 = k <;> simp [hr]
      rw [hkeys]
      exact t.nodup
    · rename_i hk
      rw [List.map_append, List.nodup_append]
      refine ⟨t.nodup, by simp, ?_⟩
      intro a ha b hb
      obtain ⟨r, hr, rfl⟩ := List.mem_map.mp ha
      obtain rfl : b = k := by simpa using hb
      rintro rfl
      have hsome := (t.get?_eq_some).mpr (show (r.1, r.2) ∈ t.rows from hr)
      simp [contains, hsome] at hk

theorem get?_set (t : KeyedTable κ ν) (k : κ) (v : ν) (j : κ) :
    (t.set k v).get? j = if j = k then some v else t.get? j := by
  apply Option.ext
  intro w
  rw [get?_eq_some]
  by_cases hc : t.contains k = true
  · simp only [set, hc, if_true, List.mem_map]
    constructor
    · rintro ⟨r, hr, he⟩
      by_cases hrk : r.1 = k
      · rw [if_pos hrk] at he
        obtain ⟨rfl, rfl⟩ : k = j ∧ v = w := by simpa using he
        simp
      · rw [if_neg hrk] at he
        subst he
        rw [if_neg hrk]
        exact (t.get?_eq_some).mpr hr
    · intro h
      split at h
      · rename_i hj
        subst hj
        obtain ⟨x, hx⟩ := Option.isSome_iff_exists.mp hc
        refine ⟨(j, x), (t.get?_eq_some).mp hx, ?_⟩
        simpa using h
      · rename_i hj
        exact ⟨(j, w), (t.get?_eq_some).mp h, by simp [hj]⟩
  · have hnone : t.get? k = none := by simpa [contains] using hc
    simp only [set, hc, Bool.false_eq_true, if_false, List.mem_append, List.mem_singleton,
      Prod.mk.injEq]
    constructor
    · rintro (hr | ⟨rfl, rfl⟩)
      · have hj : j ≠ k := by
          rintro rfl
          exact (t.get?_eq_none).mp hnone w hr
        rw [if_neg hj]
        exact (t.get?_eq_some).mpr hr
      · simp
    · intro h
      split at h
      · rename_i hj
        exact Or.inr ⟨hj, (Option.some.inj h).symm⟩
      · exact Or.inl ((t.get?_eq_some).mp h)

@[simp] theorem get?_set_self (t : KeyedTable κ ν) (k : κ) (v : ν) :
    (t.set k v).get? k = some v := by
  simp [get?_set]

theorem get?_set_ne (t : KeyedTable κ ν) {k j : κ} (v : ν) (h : j ≠ k) :
    (t.set k v).get? j = t.get? j := by
  simp [get?_set, h]

theorem weight_set_of_absent (t : KeyedTable κ ν) {k : κ} (v : ν) (f : κ × ν → Nat)
    (h : t.get? k = none) : (t.set k v).weight f = t.weight f + f (k, v) := by
  have hc : t.contains k = false := by simp [contains, h]
  simp [weight, set, hc]

/-- The table of a list of rows; a later row replaces an earlier one under its key. -/
def ofRows (rows : List (κ × ν)) : KeyedTable κ ν := rows.foldl (fun t r => t.set r.1 r.2) empty

theorem foldl_set_rows (t : KeyedTable κ ν) {rows : List (κ × ν)}
    (hn : ((t.rows ++ rows).map Prod.fst).Nodup) :
    (rows.foldl (fun t r => t.set r.1 r.2) t).rows = t.rows ++ rows := by
  induction rows generalizing t with
  | nil => simp
  | cons r rest ih =>
    have hfresh : t.contains r.1 = false := by
      rw [contains, Option.isSome_eq_false_iff, Option.isNone_iff_eq_none]
      apply (t.get?_eq_none).mpr
      intro v hv
      have hdisjoint := (List.nodup_append.mp (by simpa using hn)).2.2
      exact hdisjoint r.1 (List.mem_map.mpr ⟨(r.1, v), hv, rfl⟩) r.1 List.mem_cons_self rfl
    have hset : (t.set r.1 r.2).rows = t.rows ++ [r] := by simp [set, hfresh]
    rw [List.foldl_cons, ih (t.set r.1 r.2) (by simpa [hset] using hn), hset]
    simp

@[simp] theorem ofRows_rows (t : KeyedTable κ ν) : ofRows t.rows = t := by
  apply ext
  unfold ofRows
  rw [foldl_set_rows]
  · rfl
  · exact t.nodup

theorem mem_of_get?_foldl {t : KeyedTable κ ν} {rows : List (κ × ν)} {k : κ} {v : ν}
    (h : (rows.foldl (fun t r => t.set r.1 r.2) t).get? k = some v) :
    (k, v) ∈ rows ∨ t.get? k = some v := by
  induction rows generalizing t with
  | nil => exact Or.inr h
  | cons r rest ih =>
    rcases ih h with hrest | hset
    · exact Or.inl (List.mem_cons_of_mem r hrest)
    · rw [get?_set] at hset
      split at hset
      · rename_i hk
        obtain rfl := Option.some.inj hset
        subst hk
        exact Or.inl List.mem_cons_self
      · exact Or.inr hset

theorem mem_of_get?_ofRows {rows : List (κ × ν)} {k : κ} {v : ν}
    (h : (ofRows rows).get? k = some v) : (k, v) ∈ rows := by
  rcases mem_of_get?_foldl h with hmem | hempty
  · exact hmem
  · cases hempty

/-- A table cannot have fewer keys than another of its size. -/
theorem absent_of_count {μ : Type v} {t : KeyedTable κ ν} {u : KeyedTable κ μ}
    (hkeys : ∀ k v, t.get? k = some v → ∃ w, u.get? k = some w) (hcount : t.count = u.count) {k : κ}
    (h : t.get? k = none) : u.get? k = none := by
  have hsubset : t.rows.map Prod.fst ⊆ u.rows.map Prod.fst := by
    intro j hj
    obtain ⟨r, hr, rfl⟩ := List.mem_map.mp hj
    obtain ⟨w, hw⟩ := hkeys r.1 r.2 ((t.get?_eq_some).mpr hr)
    exact List.mem_map.mpr ⟨(r.1, w), (u.get?_eq_some).mp hw, rfl⟩
  have hperm : (t.rows.map Prod.fst).Perm (u.rows.map Prod.fst) := by
    apply (List.subperm_of_subset t.nodup hsubset).perm_of_length_le
    simpa [count] using Nat.le_of_eq hcount.symm
  apply (u.get?_eq_none).mpr
  intro w hw
  have hmem : k ∈ t.rows.map Prod.fst := hperm.mem_iff.mpr (List.mem_map.mpr ⟨(k, w), hw, rfl⟩)
  obtain ⟨r, hr, rfl⟩ := List.mem_map.mp hmem
  exact (t.get?_eq_none).mp h r.2 hr

end Lookup

end KeyedTable

end Rdap.Lib
