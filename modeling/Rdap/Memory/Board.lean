import Rdap.Lib.LastWrite
import Rdap.Memory.DeltaReads
import Rdap.Python.JsonValues

/-!
# The task board

The board and the last writes of a store are two projections of the same records, in which the
last record of a task wins. The records are sorted, so the last one is the greatest, whatever
order the files were found or had arrived in.
-/

set_option autoImplicit false

namespace Rdap.Memory
open Python Lib

structure BoardRow where
  id : PyStr
  title : Value
  owner : Value
  status : Value
  notes : Value

def boardRow (tid : PyStr) (rec : Dict) : BoardRow where
  id := tid
  title := rec.getD (lit "title") (.str [])
  owner := rec.getD (lit "owner") (.str [])
  status := rec.getD (lit "status") (.str (lit "open"))
  notes := rec.getD (lit "notes") (.str [])

def taskKind : PyStr := lit "task"

variable (P : Platform) (latest : Nat)

/-- `str(rec.get(key, ''))` -/
def recordKey (key : PyStr) (rec : Dict) : Except PyExc PyStr := pyStr P (rec.getD key (.str []))

/-- `tasks[i] = row` for the first row with the id of `row`. -/
def replaceRow (row : BoardRow) : List BoardRow → List BoardRow
  | [] => []
  | r :: rest => if r.id = row.id then row :: rest else r :: replaceRow row rest

/-- One record, with the rows so far and the ids seen. -/
def boardStep (state : List BoardRow × List PyStr) (rec : Dict) :
    Except PyExc (List BoardRow × List PyStr) := do
  let tid ← recordKey P (lit "id") rec
  if tid = [] then return state
  else if tid ∈ state.2 then return (replaceRow (boardRow tid rec) state.1, state.2)
  else return (state.1 ++ [boardRow tid rec], tid :: state.2)

/-- `TeamMemory._parse_board_rows` -/
def parseBoardRows (tree : DeltaTree) : Except PyExc (List BoardRow) := do
  let state ← (DeltaStore.read P latest taskKind tree).foldlM (boardStep P) ([], [])
  return state.1

def latestStep (key : PyStr) (seen : List (PyStr × Dict)) (rec : Dict) :
    Except PyExc (List (PyStr × Dict)) := do
  let k ← recordKey P key rec
  if k = [] then return seen else return upsert k rec seen

def DeltaStore.latestBy (kind key : PyStr) (tree : DeltaTree) : Except PyExc (List Dict) := do
  let seen ← (DeltaStore.read P latest kind tree).foldlM (latestStep P key) []
  return seen.map Prod.snd

/-! ## Both projections as last writes -/

variable {P latest}

theorem upsert_of_mem {k : PyStr} {rec : Dict} {table : List (PyStr × Dict)}
    (hk : k ∈ table.map Prod.fst) :
    replaceRow (boardRow k rec) (table.map fun e => boardRow e.1 e.2) =
      (upsert k rec table).map fun e => boardRow e.1 e.2 := by
  induction table with
  | nil => simp at hk
  | cons e rest ih =>
    have hid : ∀ (t : PyStr) (r : Dict), (boardRow t r).id = t := fun _ _ => rfl
    simp only [List.map_cons, replaceRow, upsert, hid]
    by_cases he : e.1 = k
    · simp [he]
    · rw [if_neg he, if_neg he, List.map_cons]
      rw [List.map_cons, List.mem_cons] at hk
      rcases hk with hk | hk
      · exact absurd hk.symm he
      · rw [ih hk]

theorem upsert_of_notMem {k : PyStr} {rec : Dict} {table : List (PyStr × Dict)}
    (hk : k ∉ table.map Prod.fst) : upsert k rec table = table ++ [(k, rec)] := by
  induction table with
  | nil => rfl
  | cons e rest ih =>
    rw [List.map_cons, List.mem_cons, not_or] at hk
    rw [upsert, if_neg fun h => hk.1 h.symm, ih hk.2, List.cons_append]

/-- The entries that records with known keys write. -/
def entriesFor (f : Dict → PyStr) (records : List Dict) : List (PyStr × Dict) :=
  (records.map fun r => (f r, r)).filter fun e => e.1 ≠ []

theorem boardFold {f : Dict → PyStr} {records : List Dict}
    (h : ∀ r ∈ records, recordKey P (lit "id") r = .ok (f r)) {table : List (PyStr × Dict)}
    {seen : List PyStr} (hseen : ∀ k, k ∈ seen ↔ k ∈ table.map Prod.fst) :
    ∃ seen', records.foldlM (boardStep P) (table.map fun e => boardRow e.1 e.2, seen) =
      .ok (((entriesFor f records).foldl (fun t e => upsert e.1 e.2 t) table).map
        fun e => boardRow e.1 e.2, seen') := by
  induction records generalizing table seen with
  | nil => exact ⟨seen, rfl⟩
  | cons r rest ih =>
    have hr := h r List.mem_cons_self
    have hrest := fun x hx => h x (List.mem_cons_of_mem r hx)
    rw [List.foldlM_cons]
    unfold boardStep
    rw [hr]
    simp only [bind, Except.bind, pure, Except.pure]
    by_cases hempty : f r = []
    · have hentries : entriesFor f (r :: rest) = entriesFor f rest := by simp [entriesFor, hempty]
      rw [hentries]
      simp only [if_pos hempty]
      exact ih hrest hseen
    · have hentries : entriesFor f (r :: rest) = (f r, r) :: entriesFor f rest := by
        simp [entriesFor, hempty]
      rw [hentries, List.foldl_cons]
      simp only [if_neg hempty]
      by_cases hmem : f r ∈ seen
      · simp only [if_pos hmem]
        rw [upsert_of_mem ((hseen _).mp hmem)]
        apply ih hrest
        intro k
        rw [keys_upsert, if_pos ((hseen _).mp hmem)]
        exact hseen k
      · have hnew : f r ∉ table.map Prod.fst := fun hm => hmem ((hseen _).mpr hm)
        simp only [if_neg hmem]
        rw [upsert_of_notMem hnew, ← List.map_singleton (f := fun e => boardRow e.1 e.2) (a := (f r, r)),
          ← List.map_append]
        apply ih hrest
        intro k
        rw [List.mem_cons, hseen, List.map_append, List.mem_append, or_comm]
        simp

theorem latestFold {f : Dict → PyStr} {key : PyStr} {records : List Dict}
    (h : ∀ r ∈ records, recordKey P key r = .ok (f r)) (table : List (PyStr × Dict)) :
    records.foldlM (latestStep P key) table =
      .ok ((entriesFor f records).foldl (fun t e => upsert e.1 e.2 t) table) := by
  induction records generalizing table with
  | nil => rfl
  | cons r rest ih =>
    have hr := h r List.mem_cons_self
    have hrest := fun x hx => h x (List.mem_cons_of_mem r hx)
    rw [List.foldlM_cons]
    unfold latestStep
    rw [hr]
    simp only [bind, Except.bind, pure, Except.pure]
    by_cases hempty : f r = []
    · have hentries : entriesFor f (r :: rest) = entriesFor f rest := by simp [entriesFor, hempty]
      rw [hentries]
      simp only [if_pos hempty]
      exact ih hrest table
    · have hentries : entriesFor f (r :: rest) = (f r, r) :: entriesFor f rest := by
        simp [entriesFor, hempty]
      rw [hentries, List.foldl_cons]
      simp only [if_neg hempty]
      exact ih hrest _

end Rdap.Memory
