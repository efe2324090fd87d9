import Rdap.Lib.Escaping
import Rdap.Memory.Board
import Rdap.Python.Raise
import Rdap.Python.Strip

/-!
# The text of the board

A task is a line of the board, and its cells are parted by bars. The bars in a cell are escaped,
the id is not, and line breaks stay as they are. The cells of a line can be told from its end;
which lines are one task can be told if no task brings line breaks of its own.
-/

set_option autoImplicit false

namespace Rdap.Memory
open Python Lib

def boardHeader : PyStr :=
  lit "# Team Board\n\n| id | title | owner | status | notes |\n|----|-------|-------|--------|-------|\n"

/-- `_cell` of a text: `text.replace('|', '\\|')`. -/
def cell (text : PyStr) : PyStr := escape 124 92 text

variable (P : Platform) (latest : Nat)

def boardLine (row : BoardRow) : Except PyExc PyStr := do
  let title ← pyStr P row.title
  let owner ← pyStr P row.owner
  let status ← pyStr P row.status
  let notes ← pyStr P row.notes
  pure (lit "| " ++ row.id ++ lit " | " ++ cell title ++ lit " | " ++ cell owner ++ lit " | " ++
    cell status ++ lit " | " ++ cell notes ++ lit " |")

def boardText (rows : List BoardRow) : Except PyExc PyStr := do
  let lines ← rows.mapM (boardLine P)
  let joined := List.intercalate (lit "\n") lines
  pure (boardHeader ++ if joined ≠ [] then joined ++ lit "\n" else [])

def readBoard (tree : DeltaTree) : Except PyExc PyStr := do
  let rows ← parseBoardRows P latest tree
  boardText P rows

/-! ## Tasks of texts -/

structure TaskRow where
  id : PyStr
  title : PyStr
  owner : PyStr
  status : PyStr
  notes : PyStr
  deriving DecidableEq

def TaskRow.row (t : TaskRow) : BoardRow := ⟨t.id, .str t.title, .str t.owner, .str t.status, .str t.notes⟩

def TaskRow.line (t : TaskRow) : PyStr :=
  lit "| " ++ t.id ++ lit " | " ++ cell t.title ++ lit " | " ++ cell t.owner ++ lit " | " ++
    cell t.status ++ lit " | " ++ cell t.notes ++ lit " |"

def TaskRow.cells (t : TaskRow) : List PyStr := [t.id, t.title, t.owner, t.status, t.notes]

def textOf : Value → PyStr
  | .str s => s
  | _ => []

def taskId (rec : Dict) : PyStr := textOf (rec.getD (lit "id") (.str []))

def taskRow (tid : PyStr) (rec : Dict) : TaskRow :=
  let row := boardRow tid rec
  ⟨tid, textOf row.title, textOf row.owner, textOf row.status, textOf row.notes⟩

/-- The five fields of a task are texts. -/
structure TextTask (rec : Dict) : Prop where
  id : ∃ s, rec.getD (lit "id") (.str []) = .str s
  title : ∃ s, (boardRow [] rec).title = .str s
  owner : ∃ s, (boardRow [] rec).owner = .str s
  status : ∃ s, (boardRow [] rec).status = .str s
  notes : ∃ s, (boardRow [] rec).notes = .str s

def TextTasks (tree : DeltaTree) : Prop := ∀ rec ∈ DeltaStore.read P latest taskKind tree, TextTask rec

/-- For each id, in the order of first mention, the cells of its last delta. -/
def latestTasks (tree : DeltaTree) : List TaskRow :=
  (lastWrites (entriesFor taskId (DeltaStore.read P latest taskKind tree))).map fun e => taskRow e.1 e.2

variable {P latest}

theorem boardLine_row (t : TaskRow) : boardLine P t.row = .ok t.line := rfl

theorem TextTask.row_eq {rec : Dict} (h : TextTask rec) (tid : PyStr) :
    boardRow tid rec = (taskRow tid rec).row := by
  obtain ⟨title, htitle⟩ := h.title
  obtain ⟨owner, howner⟩ := h.owner
  obtain ⟨status, hstatus⟩ := h.status
  obtain ⟨notes, hnotes⟩ := h.notes
  simp only [boardRow] at htitle howner hstatus hnotes
  simp only [taskRow, TaskRow.row, boardRow, htitle, howner, hstatus, hnotes, textOf]

theorem mem_of_lastWrites {records : List Dict} {e : PyStr × Dict}
    (he : e ∈ lastWrites (entriesFor taskId records)) : e.2 ∈ records ∧ e.1 = taskId e.2 ∧ e.1 ≠ [] := by
  obtain ⟨before, after, hsplit, -⟩ := (mem_lastWrites _ _).mp he
  have hmem : e ∈ entriesFor taskId records := by rw [hsplit]; simp
  obtain ⟨hmap, hne⟩ := List.mem_filter.mp hmem
  obtain ⟨r, hr, rfl⟩ := List.mem_map.mp hmap
  exact ⟨hr, rfl, by simpa using hne⟩

/-- The rows of the board are the latest tasks. -/
theorem parseBoardRows_eq {tree : DeltaTree} (h : TextTasks P latest tree) :
    parseBoardRows P latest tree = .ok ((latestTasks P latest tree).map TaskRow.row) := by
  have hids : ∀ r ∈ DeltaStore.read P latest taskKind tree, recordKey P (lit "id") r = .ok (taskId r) := by
    intro r hr
    obtain ⟨s, hs⟩ := (h r hr).id
    unfold recordKey taskId
    rw [hs]
    rfl
  obtain ⟨seen, hfold⟩ := @boardFold P _ _ hids [] [] (by simp)
  have hrows : (lastWrites (entriesFor taskId (DeltaStore.read P latest taskKind tree))).map
      (fun e => boardRow e.1 e.2) = (latestTasks P latest tree).map TaskRow.row := by
    unfold latestTasks
    rw [List.map_map]
    apply List.map_congr_left
    intro e he
    exact (h e.2 (mem_of_lastWrites he).1).row_eq e.1
  rw [List.map_nil] at hfold
  unfold parseBoardRows
  rw [hfold, ← hrows]
  rfl

/-- There is one row for each id, and for each id of a delta. -/
theorem latestTasks_nodup (tree : DeltaTree) : ((latestTasks P latest tree).map TaskRow.id).Nodup := by
  have hkeys := lastWrites_nodup (entriesFor taskId (DeltaStore.read P latest taskKind tree))
  unfold latestTasks
  rw [List.map_map]
  exact hkeys

theorem mem_latestTasks_id {tree : DeltaTree} {tid : PyStr} :
    tid ∈ (latestTasks P latest tree).map TaskRow.id ↔
      tid ≠ [] ∧ ∃ rec ∈ DeltaStore.read P latest taskKind tree, taskId rec = tid := by
  unfold latestTasks
  rw [List.map_map]
  constructor
  · intro h
    obtain ⟨e, he, rfl⟩ := List.mem_map.mp h
    obtain ⟨hrec, hid, hne⟩ := mem_of_lastWrites he
    exact ⟨hne, e.2, hrec, hid.symm⟩
  · rintro ⟨hne, rec, hrec, rfl⟩
    have hentry : (taskId rec, rec) ∈ entriesFor taskId (DeltaStore.read P latest taskKind tree) :=
      List.mem_filter.mpr ⟨List.mem_map_of_mem hrec, by simpa using hne⟩
    obtain ⟨v, hv⟩ := exists_lastWrite hentry
    exact List.mem_map.mpr ⟨_, hv, rfl⟩

theorem intercalate_terminated {c : CodePoint} {lines : List PyStr} (h : lines ≠ []) :
    List.intercalate [c] lines ++ [c] = terminated c lines := by
  induction lines with
  | nil => exact absurd rfl h
  | cons line rest ih =>
    by_cases hrest : rest = []
    · subst hrest
      simp [terminated]
    · rw [List.intercalate_cons_of_ne_nil hrest, terminated_cons, ← ih hrest]
      simp

/-- The header, and every row with a line feed behind it. -/
theorem boardText_rows (tasks : List TaskRow) :
    boardText P (tasks.map TaskRow.row) = .ok (boardHeader ++ terminated 10 (tasks.map TaskRow.line)) := by
  have hlines : (tasks.map TaskRow.row).mapM (boardLine P) = .ok (tasks.map TaskRow.line) := by
    apply mapM_ok.mpr
    rw [List.forall₂_map_left_iff, List.forall₂_map_right_iff]
    exact List.forall₂_same.mpr fun t _ => boardLine_row t
  have hfeed : lit "\n" = [10] := rfl
  unfold boardText
  rw [hlines, hfeed]
  cases tasks with
  | nil => rfl
  | cons t rest =>
    have hjoined := intercalate_terminated (c := 10) (List.cons_ne_nil t.line (rest.map TaskRow.line))
    have hne : List.intercalate [10] ((t :: rest).map TaskRow.line) ≠ [] := by
      intro hnil
      have hlength := congrArg List.length hjoined
      have hbar : (lit "| ").length = 2 := rfl
      rw [List.map_cons] at hnil
      rw [hnil, terminated_cons] at hlength
      simp only [TaskRow.line, List.length_append, List.length_cons, List.length_nil, hbar] at hlength
      omega
    show Except.ok (boardHeader ++ if _ then _ else _) = _
    rw [if_pos hne, List.map_cons, hjoined]

theorem readBoard_eq {tree : DeltaTree} (h : TextTasks P latest tree) : readBoard P latest tree =
    .ok (boardHeader ++ terminated 10 ((latestTasks P latest tree).map TaskRow.line)) := by
  unfold readBoard
  rw [parseBoardRows_eq h]
  exact boardText_rows _

/-! ## The cells of a line -/

theorem cellPart_inj {before before' s s' : PyStr}
    (h : before ++ lit " | " ++ cell s = before' ++ lit " | " ++ cell s') : before = before' ∧ s = s' := by
  have hsep : lit " | " = [32, 124, 32] := rfl
  rw [hsep, List.append_assoc, List.append_assoc] at h
  exact append_escape_inj (by decide) (by decide) h

/-- Whatever is in the cells. -/
theorem line_injective {t u : TaskRow} (h : t.line = u.line) : t = u := by
  obtain ⟨hhead, hnotes⟩ := cellPart_inj (List.append_cancel_right h)
  obtain ⟨hhead, hstatus⟩ := cellPart_inj hhead
  obtain ⟨hhead, howner⟩ := cellPart_inj hhead
  obtain ⟨hhead, htitle⟩ := cellPart_inj hhead
  have hid := List.append_cancel_left hhead
  cases t
  cases u
  simp_all

/-! ## The lines of the board -/

/-- What ends a line: the line feed, and no printable character of ASCII. -/
structure LineEnds where
  ends : CodePoint → Bool
  lineFeed : ends 10 = true
  printable : ∀ c : CodePoint, 32 ≤ c.val → c.val < 127 → ends c = false

variable (E : LineEnds)

/-- The lines of a text that ends with a line end. -/
def tableLines (body : PyStr) : List PyStr := (body.splitOnP E.ends).dropLast

def NoBreaks (tasks : List TaskRow) : Prop := ∀ t ∈ tasks, ∀ text ∈ t.cells, ∀ c ∈ text, E.ends c = false

variable (P latest) in
/-- The text is the header and one line for each id of a task delta. -/
structure OneLineEach (tree : DeltaTree) : Prop where
  ids_nodup : ((latestTasks P latest tree).map TaskRow.id).Nodup
  ids_mem : ∀ tid, tid ∈ (latestTasks P latest tree).map TaskRow.id ↔
    tid ≠ [] ∧ ∃ rec ∈ DeltaStore.read P latest taskKind tree, taskId rec = tid
  lines : ∃ body, readBoard P latest tree = .ok (boardHeader ++ body) ∧
    tableLines E body = (latestTasks P latest tree).map TaskRow.line

variable {E}

theorem tableLines_iff {lines : List PyStr} : tableLines E (terminated 10 lines) = lines ↔
    ∀ line ∈ lines, ∀ c ∈ line, E.ends c = false := by
  constructor
  · intro h line hline c hc
    rw [← h] at hline
    exact (mem_splitOnP (List.mem_of_mem_dropLast hline) c hc).2
  · intro h
    have hsplit : (terminated 10 lines).splitOnP E.ends = lines ++ [[]] := by
      induction lines with
      | nil => rfl
      | cons line rest ih =>
        rw [terminated_cons, List.splitOnP_append_cons_of_forall_mem (h line List.mem_cons_self) 10 E.lineFeed,
          ih fun l hl => h l (List.mem_cons_of_mem line hl)]
        rfl
    rw [tableLines, hsplit, List.dropLast_concat]

theorem cell_breaks_iff {text : PyStr} :
    (∀ c ∈ cell text, E.ends c = false) ↔ ∀ c ∈ text, E.ends c = false := by
  constructor
  · exact fun h c hc => h c (mem_escape_of_mem hc)
  · intro h c hc
    rcases mem_escape hc with rfl | hc
    · exact E.printable _ (by decide) (by decide)
    · exact h c hc

/-- The bars and the blanks around the cells end no line. -/
theorem line_breaks_iff (t : TaskRow) : (∀ c ∈ t.line, E.ends c = false) ↔
    ∀ text ∈ t.cells, ∀ c ∈ text, E.ends c = false := by
  have hblank : E.ends 32 = false := E.printable _ (by decide) (by decide)
  have hbar : E.ends 124 = false := E.printable _ (by decide) (by decide)
  have hopen : ∀ c ∈ lit "| ", E.ends c = false := by
    have hlit : lit "| " = [124, 32] := rfl
    simp [hlit, hblank, hbar]
  have hsep : ∀ c ∈ lit " | ", E.ends c = false := by
    have hlit : lit " | " = [32, 124, 32] := rfl
    simp [hlit, hblank, hbar]
  have hclose : ∀ c ∈ lit " |", E.ends c = false := by
    have hlit : lit " |" = [32, 124] := rfl
    simp [hlit, hblank, hbar]
  simp only [TaskRow.line, TaskRow.cells, List.forall_mem_append, List.forall_mem_cons, cell_breaks_iff,
    iff_true_intro hopen, iff_true_intro hsep, iff_true_intro hclose, List.not_mem_nil,
    false_imp_iff, implies_true, true_and, and_true, and_assoc]

theorem oneLineEach_iff {tree : DeltaTree} (h : TextTasks P latest tree) :
    OneLineEach P latest E tree ↔ NoBreaks E (latestTasks P latest tree) := by
  have hlines : tableLines E (terminated 10 ((latestTasks P latest tree).map TaskRow.line)) =
      (latestTasks P latest tree).map TaskRow.line ↔ NoBreaks E (latestTasks P latest tree) := by
    rw [tableLines_iff, List.forall_mem_map]
    exact forall₂_congr fun t _ => line_breaks_iff t
  rw [← hlines]
  constructor
  · rintro ⟨-, -, body, hbody, hone⟩
    rw [readBoard_eq h] at hbody
    rw [List.append_cancel_left (Except.ok.inj hbody)]
    exact hone
  · intro hone
    exact ⟨latestTasks_nodup tree, fun tid => mem_latestTasks_id, _, readBoard_eq h, hone⟩

/-- Two boards have a line for each task and are told apart if no latest task has a line break in it,
and only then. -/
theorem board_unambiguous_iff {tree tree' : DeltaTree} (h : TextTasks P latest tree)
    (h' : TextTasks P latest tree') :
    (OneLineEach P latest E tree ∧ OneLineEach P latest E tree' ∧
      (readBoard P latest tree = readBoard P latest tree' →
        latestTasks P latest tree = latestTasks P latest tree')) ↔
    NoBreaks E (latestTasks P latest tree) ∧ NoBreaks E (latestTasks P latest tree') := by
  rw [← oneLineEach_iff h, ← oneLineEach_iff h']
  constructor
  · rintro ⟨hone, hone', -⟩
    exact ⟨hone, hone'⟩
  · rintro ⟨hone, hone'⟩
    refine ⟨hone, hone', fun hsame => ?_⟩
    obtain ⟨-, -, body, hbody, hlines⟩ := hone
    obtain ⟨-, -, body', hbody', hlines'⟩ := hone'
    have hbodies : body = body' := by
      rw [hbody, hbody'] at hsame
      exact List.append_cancel_left (Except.ok.inj hsame)
    rw [hbodies, hlines'] at hlines
    exact (List.map_injective_iff.mpr fun t u => line_injective) hlines.symm

/-! ## An id in the form of a row -/

def boardPlatform : Platform := Platform.ofTable []

def sampleDelta (name text : String) : DeltaFile :=
  ⟨lit name, true, true, 1, (lit text).map fun c => UInt8.ofNat c.val, true⟩

/-- Two tasks. -/
def twoTasks : DeltaTree := some [⟨lit "w", some [
  sampleDelta "task-1.json" "\x7b\"at\":0,\"kind\":\"task\",\"w\":\"w\",\"id\":\"a\"\x7d",
  sampleDelta "task-2.json" "\x7b\"at\":0,\"kind\":\"task\",\"w\":\"w\",\"id\":\"b\"\x7d"], true⟩]

/-- Another task. -/
def otherTask : DeltaTree := some [⟨lit "w", some [
  sampleDelta "task-1.json" "\x7b\"at\":0,\"kind\":\"task\",\"w\":\"w\",\"id\":\"c\"\x7d"], true⟩]

/-- One task, the row of `a` before its id. -/
def oneTask : DeltaTree := some [⟨lit "w", some [
  sampleDelta "task-1.json"
    "\x7b\"at\":0,\"kind\":\"task\",\"w\":\"w\",\"id\":\"a |  |  | open |  |\\n| b\"\x7d"], true⟩]

def isTextTask (rec : Dict) : Bool :=
  let row := boardRow [] rec
  [rec.getD (lit "id") (.str []), row.title, row.owner, row.status, row.notes].all fun v =>
    match v with
    | .str _ => true
    | _ => false

theorem textTask_of_check {rec : Dict} (h : isTextTask rec = true) : TextTask rec := by
  have htext : ∀ v ∈ [rec.getD (lit "id") (.str []), (boardRow [] rec).title, (boardRow [] rec).owner,
      (boardRow [] rec).status, (boardRow [] rec).notes], ∃ s, v = .str s := by
    intro v hv
    have hcheck := List.all_eq_true.mp h v hv
    cases v with
    | str s => exact ⟨s, rfl⟩
    | _ => cases hcheck
  simp only [List.forall_mem_cons] at htext
  obtain ⟨hid, htitle, howner, hstatus, hnotes, -⟩ := htext
  exact ⟨hid, htitle, howner, hstatus, hnotes⟩

def plainRow (tid : PyStr) : TaskRow := ⟨tid, [], [], lit "open", []⟩

theorem twoTasks_read : (DeltaStore.read boardPlatform 0 taskKind twoTasks).all isTextTask = true ∧
    latestTasks boardPlatform 0 twoTasks = [plainRow (lit "a"), plainRow (lit "b")] := by
  decide +kernel

theorem otherTask_read : (DeltaStore.read boardPlatform 0 taskKind otherTask).all isTextTask = true ∧
    latestTasks boardPlatform 0 otherTask = [plainRow (lit "c")] := by
  decide +kernel

theorem oneTask_read : (DeltaStore.read boardPlatform 0 taskKind oneTask).all isTextTask = true ∧
    latestTasks boardPlatform 0 oneTask = [plainRow (lit "a |  |  | open |  |\n| b")] := by
  decide +kernel

theorem twoTasks_text : TextTasks boardPlatform 0 twoTasks := fun rec hrec =>
  textTask_of_check (List.all_eq_true.mp twoTasks_read.1 rec hrec)

theorem otherTask_text : TextTasks boardPlatform 0 otherTask := fun rec hrec =>
  textTask_of_check (List.all_eq_true.mp otherTask_read.1 rec hrec)

theorem oneTask_text : TextTasks boardPlatform 0 oneTask := fun rec hrec =>
  textTask_of_check (List.all_eq_true.mp oneTask_read.1 rec hrec)

def feedEnds : LineEnds where
  ends c := c == 10
  lineFeed := rfl
  printable c hlow _ := beq_eq_false_iff_ne.mpr fun h => by rw [h] at hlow; exact absurd hlow (by decide)

theorem plain_noBreaks {rows : List TaskRow} (h : rows.all (fun t =>
    t.cells.all fun text => text.all fun c => !feedEnds.ends c) = true) : NoBreaks feedEnds rows := by
  intro t ht text htext c hc
  have hc' := List.all_eq_true.mp (List.all_eq_true.mp (List.all_eq_true.mp h t ht) text htext) c hc
  simpa using hc'

theorem twoTasks_unambiguous :
    OneLineEach boardPlatform 0 feedEnds twoTasks ∧ OneLineEach boardPlatform 0 feedEnds otherTask ∧
      (readBoard boardPlatform 0 twoTasks = readBoard boardPlatform 0 otherTask →
        latestTasks boardPlatform 0 twoTasks = latestTasks boardPlatform 0 otherTask) := by
  have htwo : NoBreaks feedEnds (latestTasks boardPlatform 0 twoTasks) := by
    rw [twoTasks_read.2]
    exact plain_noBreaks (by decide)
  have hother : NoBreaks feedEnds (latestTasks boardPlatform 0 otherTask) := by
    rw [otherTask_read.2]
    exact plain_noBreaks (by decide)
  exact (board_unambiguous_iff twoTasks_text otherTask_text).mpr ⟨htwo, hother⟩

/-- Two tasks and one have the same board, and the one task has two lines. -/
theorem same_board : readBoard boardPlatform 0 twoTasks = readBoard boardPlatform 0 oneTask ∧
    latestTasks boardPlatform 0 twoTasks ≠ latestTasks boardPlatform 0 oneTask ∧
    ∃ body, readBoard boardPlatform 0 oneTask = .ok (boardHeader ++ body) ∧
      (latestTasks boardPlatform 0 oneTask).length = 1 ∧ (tableLines feedEnds body).length = 2 := by
  refine ⟨?_, ?_, _, readBoard_eq oneTask_text, ?_, ?_⟩
  · rw [readBoard_eq twoTasks_text, readBoard_eq oneTask_text, twoTasks_read.2, oneTask_read.2]
    rfl
  · rw [twoTasks_read.2, oneTask_read.2]
    decide
  · rw [oneTask_read.2]
    rfl
  · rw [oneTask_read.2]
    decide

end Rdap.Memory
