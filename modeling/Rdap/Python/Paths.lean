import Rdap.Python.Equality
import Rdap.Python.JsonValues

/-!
# Assignments in dictionaries within dictionaries

What stands under a path of keys after one of the dictionaries on the way was assigned to.
-/

set_option autoImplicit false

namespace Rdap.Python
open Lib Json

/-- `d.update(others)` -/
def dictUpdate (d others : Dict) : Dict := others.foldl (fun d item => dictSet d item.1 item.2) d

theorem get?_foldl_absent {rows : Dict} {key : PyStr} (h : ∀ item ∈ rows, item.1 ≠ key) (t : Object) :
    (rows.foldl (fun t r => t.set r.1 r.2) t).get? key = t.get? key := by
  induction rows generalizing t with
  | nil => rfl
  | cons row rows ih =>
    rw [List.foldl_cons, ih fun item hitem => h item (List.mem_cons_of_mem _ hitem)]
    exact KeyedTable.get?_set_ne _ _ (h row List.mem_cons_self).symm

/-- Rows under other keys do not matter. -/
theorem get?_foldl_congr (rows : Dict) (key : PyStr) {t u : Object} (h : t.get? key = u.get? key) :
    (rows.foldl (fun t r => t.set r.1 r.2) t).get? key = (rows.foldl (fun t r => t.set r.1 r.2) u).get? key := by
  induction rows generalizing t u with
  | nil => exact h
  | cons row rows ih =>
    apply ih
    rw [KeyedTable.get?_set, KeyedTable.get?_set, h]

theorem get?_foldl_assigned (rows : Dict) (key k : PyStr) (v : Value) (t : Object) :
    ((rows.map fun item => if item.1 = key then (key, v) else item).foldl (fun t r => t.set r.1 r.2) t).get? k =
      if k = key ∧ rows.any (fun item => item.1 = key) then some v
      else (rows.foldl (fun t r => t.set r.1 r.2) t).get? k := by
  induction rows generalizing t with
  | nil => simp
  | cons row rows ih =>
    rw [List.map_cons, List.foldl_cons, ih, List.any_cons, List.foldl_cons]
    by_cases hk : k = key
    · subst hk
      by_cases hrest : rows.any (fun item => item.1 = k) = true
      · simp [hrest]
      · have habsent : ∀ item ∈ rows, item.1 ≠ k := by
          intro item hitem heq
          exact hrest (List.any_eq_true.mpr ⟨item, hitem, decide_eq_true heq⟩)
        rw [get?_foldl_absent habsent, get?_foldl_absent habsent]
        by_cases hrow : row.1 = k
        · simp [hrest, hrow]
        · simp [hrest, hrow]
    · simp only [hk, false_and, if_false]
      apply get?_foldl_congr
      by_cases hrow : row.1 = key
      · rw [if_pos hrow, KeyedTable.get?_set_ne _ _ hk, KeyedTable.get?_set_ne _ _ (hrow ▸ hk)]
      · rw [if_neg hrow]

theorem get?_dictSet (d : Dict) (key k : PyStr) (v : Value) :
    (KeyedTable.ofRows (dictSet d key v)).get? k = if k = key then some v else (KeyedTable.ofRows d).get? k := by
  unfold dictSet KeyedTable.ofRows
  split
  · rename_i hany
    rw [get?_foldl_assigned]
    simp [hany]
  · rw [List.foldl_append]
    exact KeyedTable.get?_set _ _ _ _

theorem get?_dictUpdate_of_absent {others : Dict} {k : PyStr} (h : ∀ item ∈ others, item.1 ≠ k) (d : Dict) :
    (KeyedTable.ofRows (dictUpdate d others)).get? k = (KeyedTable.ofRows d).get? k := by
  unfold dictUpdate
  induction others generalizing d with
  | nil => rfl
  | cons item others ih =>
    rw [List.foldl_cons, ih fun other hother => h other (List.mem_cons_of_mem _ hother), get?_dictSet,
      if_neg (h item List.mem_cons_self).symm]

theorem get?_dictUpdate {others : Dict} (hnodup : (others.map Prod.fst).Nodup) {item : PyStr × Value}
    (h : item ∈ others) (d : Dict) :
    (KeyedTable.ofRows (dictUpdate d others)).get? item.1 = some item.2 := by
  unfold dictUpdate
  induction others generalizing d with
  | nil => cases h
  | cons first others ih =>
    rw [List.map_cons, List.nodup_cons] at hnodup
    rw [List.foldl_cons]
    rcases List.mem_cons.mp h with rfl | hrest
    · have habsent : ∀ other ∈ others, other.1 ≠ item.1 := fun other hother heq =>
        hnodup.1 (heq ▸ List.mem_map_of_mem hother)
      exact (get?_dictUpdate_of_absent habsent _).trans (by rw [get?_dictSet, if_pos rfl])
    · exact ih hnodup.2 hrest _

/-! ## Tables -/

theorem getD_rows (t : Object) (key : PyStr) (default : Value) :
    Dict.getD t.rows key default = (t.get? key).getD default := rfl

theorem dictSet_rows (t : Object) (key : PyStr) (v : Value) : dictSet t.rows key v = (t.set key v).rows := by
  have hcontains : t.contains key = t.rows.any fun item => item.1 = key := by
    rw [KeyedTable.contains, KeyedTable.get?, Option.isSome_map, Bool.eq_iff_iff, List.find?_isSome, List.any_eq_true]
  have hset : (t.set key v).rows = if t.contains key then t.rows.map fun item => if item.1 = key then (key, v) else item
    else t.rows ++ [(key, v)] := rfl
  rw [hset, hcontains, dictSet]

theorem dictUpdate_rows (t : Object) (others : Dict) :
    dictUpdate t.rows others = (others.foldl (fun t item => t.set item.1 item.2) t).rows := by
  unfold dictUpdate
  induction others generalizing t with
  | nil => rfl
  | cons item others ih => rw [List.foldl_cons, List.foldl_cons, dictSet_rows, ih]

/-- An update with a whole table. -/
theorem get?_dictUpdate_table (d : Dict) (others : Object) (key : PyStr) :
    (KeyedTable.ofRows (dictUpdate d others.rows)).get? key = (others.get? key).or ((KeyedTable.ofRows d).get? key) := by
  cases hother : others.get? key with
  | some v => exact @get?_dictUpdate _ others.nodup (key, v) ((others.get?_eq_some).mp hother) d
  | none =>
    apply get?_dictUpdate_of_absent
    rintro item hitem rfl
    exact (others.get?_eq_none).mp hother item.2 hitem

/-! ## Paths -/

theorem valueAt_key (d : Dict) (key : PyStr) (path : List PyStr) :
    valueAt (.dict d) (key :: path) = ((KeyedTable.ofRows d).get? key).bind fun v => valueAt v path := rfl

/-- An assignment is seen under its key only. -/
theorem valueAt_dictSet_ne (d : Dict) {key : PyStr} (v : Value) {k : PyStr} (path : List PyStr) (h : k ≠ key) :
    valueAt (.dict (dictSet d key v)) (k :: path) = valueAt (.dict d) (k :: path) := by
  rw [valueAt_key, get?_dictSet, if_neg h, valueAt_key]

theorem valueAt_dictSet_self (d : Dict) (key : PyStr) (v : Value) (path : List PyStr) :
    valueAt (.dict (dictSet d key v)) (key :: path) = valueAt v path := by
  rw [valueAt_key, get?_dictSet, if_pos rfl, Option.bind_some]

end Rdap.Python
