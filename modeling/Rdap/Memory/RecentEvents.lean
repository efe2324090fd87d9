import Rdap.Memory.DeltaReads
import Rdap.Memory.DeltaWrites

/-!
# Recent events

The monitor has a scanner of its own for the events. It takes the directory entries as they
come, has smaller budgets than the store, and cuts what it shows of a text.
-/

set_option autoImplicit false

namespace Rdap.Memory
open Python Lib Python.Json

def maxRecentEventWriters : Nat := 128
def maxRecentEventDirectoryEntries : Nat := 4096
def maxRecentEventEntriesPerWriter : Nat := 512
def maxRecentEventFiles : Nat := 2048
def maxRecentEventFileBytes : Nat := 16 * 1024
def maxRecentEventTotalBytes : Nat := 2 * 1024 * 1024
def maxRecentEventsLimit : Nat := 200
def maxRecentEventTextChars : Nat := 400

def eventKind : PyStr := lit "event"

/-- How many events a call of `recent_events` asks for. -/
def requestedEvents : Value → Nat
  | .int limit => min limit.toNat maxRecentEventsLimit
  | _ => 50

/-! ## One record -/

/-- A finite `float(timestamp)` as the integer that orders it among the finite doubles. -/
def instantOf : Value → Option Int
  | .int n => (floatOfNat n.natAbs).map fun (bits : Nat) => if 0 ≤ n then (bits : Int) else -(bits : Int)
  | .float bits =>
    if isFinite bits then
      some (if bits.toNat < 2 ^ 63 then (bits.toNat : Int) else -((bits.toNat - 2 ^ 63 : Nat) : Int))
    else none
  | _ => none

/-- `{'w': ..., 'at': ..., 'kind': ..., 'text': ...}` -/
structure EventView where
  writer : PyStr
  instant : Int
  kind : PyStr
  text : PyStr
deriving DecidableEq

/-- `(sort_timestamp, writer_name, event_entry.name, projected)` -/
structure EventEntry where
  instant : Int
  writer : PyStr
  file : PyStr
  view : EventView

/-- The order of the first three items. -/
def entryOrder (a b : EventEntry) : Prop :=
  a.instant < b.instant ∨ (a.instant = b.instant ∧
    (a.writer < b.writer ∨ (a.writer = b.writer ∧ a.file ≤ b.file)))

instance decidableEntryOrder : DecidableRel entryOrder := fun a b =>
  inferInstanceAs (Decidable (a.instant < b.instant ∨ (a.instant = b.instant ∧
    (a.writer < b.writer ∨ (a.writer = b.writer ∧ a.file ≤ b.file)))))

variable (P : Platform)
/- The characters of the Unicode categories Cc, Cf and Cs. -/
variable (hidden : CodePoint → Bool)

/-- `_sanitize_event_text` -/
def sanitizeEventText (text : PyStr) : PyStr :=
  (text.take maxRecentEventTextChars).map fun c => if hidden c then 32 else c

def viewOf (writer : PyStr) (record : Dict) : Option EventView :=
  match instantOf (Dict.getD record (lit "at") .none), Dict.getD record (lit "kind") .none,
    Dict.getD record (lit "w") .none, Dict.getD record (lit "text") .none with
  | some instant, .str kind, .str w, .str text =>
    if kind = eventKind ∧ w = writer then
      some ⟨writer, instant, eventKind, sanitizeEventText hidden text⟩
    else none
  | _, _, _, _ => none

def readEvent (writer : PyStr) (content : Bytes) : Option EventView :=
  match decodeUtf8 .strict content with
  | .error _ => none
  | .ok text =>
    match loads P text with
    | .ok (.dict record) => viewOf hidden writer record
    | _ => none

/-! ## The scan -/

/-- `_read_stable_regular_file` of a file that nobody touches meanwhile: what it returns, and the
bytes it took. -/
def readStableRegularFile (f : DeltaFile) (budget : Nat) : Option Bytes × Nat :=
  if budget = 0 ∨ f.regular = false ∨ f.nlink ≠ 1 ∨ maxRecentEventFileBytes < f.content.length ∨
      budget < f.content.length + 1 then (none, 0)
  else if f.openOk = false then (none, 0)
  else (some f.content, f.content.length)

structure EventScan where
  writers : Nat := 0
  entries : Nat := 0
  files : Nat := 0
  bytes : Nat := 0
  accepted : List EventEntry := []
  stop : Bool := false

/-- A file whose name is that of an event. -/
def visitEventFile (writer : PyStr) (f : DeltaFile) (scan : EventScan) : EventScan :=
  if f.statOk = false ∨ f.regular = false then scan
  else
    let read := readStableRegularFile f (maxRecentEventTotalBytes - scan.bytes)
    let scan := { scan with bytes := scan.bytes + read.2 }
    match read.1 with
    | none => { scan with stop := maxRecentEventTotalBytes ≤ scan.bytes }
    | some content =>
      match readEvent P hidden writer content with
      | none => scan
      | some view => { scan with accepted := scan.accepted ++ [⟨view.instant, writer, f.name, view⟩] }

/-- The files of one writer, of which so many have been seen. -/
def visitEventFiles (writer : PyStr) : List DeltaFile → Nat → EventScan → EventScan
  | [], _, scan => scan
  | f :: rest, seen, scan =>
    if seen < maxRecentEventEntriesPerWriter ∧ scan.entries < maxRecentEventDirectoryEntries ∧
        scan.files < maxRecentEventFiles then
      let scan := { scan with entries := scan.entries + 1 }
      if f.named eventKind = false then visitEventFiles writer rest (seen + 1) scan
      else
        let scan := visitEventFile P hidden writer f { scan with files := scan.files + 1 }
        if scan.stop then scan else visitEventFiles writer rest (seen + 1) scan
    else scan

def visitEventWriters : List DeltaWriter → EventScan → EventScan
  | [], scan => scan
  | w :: rest, scan =>
    if scan.writers < maxRecentEventWriters ∧ scan.entries < maxRecentEventDirectoryEntries then
      let scan := { scan with entries := scan.entries + 1 }
      if isWriterName w.name = false ∨ w.files.isNone = true ∧ w.directory = false then
        visitEventWriters rest scan
      else
        -- a directory that cannot be listed counts as a writer without files
        let scan := visitEventFiles P hidden w.name (w.files.getD []) 0
          { scan with writers := scan.writers + 1 }
        if scan.stop = true ∨ maxRecentEventFiles ≤ scan.files then scan
        else visitEventWriters rest scan
    else scan

/-- `accepted.sort(key=lambda item: item[:3], reverse=True)` -/
def sortDescending (entries : List EventEntry) : List EventEntry :=
  (entries.reverse.insertionSort entryOrder).reverse

/-- `recent_events`, where a tree that cannot be listed has no events. -/
def recentEvents (limit : Value) (tree : DeltaTree) : List EventView :=
  if requestedEvents limit = 0 then []
  else match tree with
    | none => []
    | some writers =>
      ((sortDescending (visitEventWriters P hidden writers {}).accepted).take
        (requestedEvents limit)).map EventEntry.view

/-! ## What there is to show -/

/-- The event in a file, if the scan takes one from it. -/
def eventOf (writer : PyStr) (f : DeltaFile) : Option EventEntry :=
  if f.named eventKind then
    (readEvent P hidden writer f.content).map fun view => ⟨view.instant, writer, f.name, view⟩
  else none

def writerEvents (w : DeltaWriter) : List EventEntry :=
  (w.files.getD []).filterMap (eventOf P hidden w.name)

/-- A file with one name that can be read. -/
structure DeltaFile.Sound (f : DeltaFile) : Prop where
  stat : f.statOk = true
  regular : f.regular = true
  link : f.nlink = 1
  opens : f.openOk = true

theorem DeltaFile.Sound.eq {f : DeltaFile} (h : f.Sound) : f = ⟨f.name, true, true, 1, f.content, true⟩ := by
  obtain ⟨hstat, hregular, hlink, hopens⟩ := h
  cases f
  simp only at hstat hregular hlink hopens
  subst hstat hregular hlink hopens
  rfl

/-- The files of a directory that are events by their names. -/
def namedEvents (files : List DeltaFile) : List DeltaFile := files.filter (DeltaFile.named eventKind)

def totalBytes (files : List DeltaFile) : Nat := (files.map fun f => f.content.length).sum

variable {P hidden}

theorem namedEvents_cons (f : DeltaFile) (rest : List DeltaFile) : namedEvents (f :: rest) =
    if f.named eventKind = true then f :: namedEvents rest else namedEvents rest := List.filter_cons

/-- Without names of events there are no events. -/
theorem filterMap_eventOf_nil {writer : PyStr} {files : List DeltaFile} (h : namedEvents files = []) :
    files.filterMap (eventOf P hidden writer) = [] := by
  rw [List.filterMap_eq_nil_iff]
  intro f hf
  have hnamed := List.filter_eq_nil_iff.mp h f hf
  unfold eventOf
  rw [if_neg hnamed]

/-- Below the limits a sound file is read. -/
theorem visitEventFile_sound {writer : PyStr} {f : DeltaFile} {scan : EventScan} (hsound : f.Sound)
    (hnamed : f.named eventKind = true) (hsize : f.content.length ≤ maxRecentEventFileBytes)
    (hbytes : scan.bytes + f.content.length < maxRecentEventTotalBytes) :
    visitEventFile P hidden writer f scan = { scan with
      bytes := scan.bytes + f.content.length
      accepted := scan.accepted ++ [f].filterMap (eventOf P hidden writer) } := by
  have hread : readStableRegularFile f (maxRecentEventTotalBytes - scan.bytes) =
      (some f.content, f.content.length) := by
    unfold readStableRegularFile
    rw [if_neg, if_neg]
    · simp [hsound.opens]
    · simp only [hsound.regular, hsound.link, Bool.true_eq_false, ne_eq, not_true_eq_false, false_or]
      omega
  have hbad : ¬(f.statOk = false ∨ f.regular = false) := by simp [hsound.stat, hsound.regular]
  unfold visitEventFile
  rw [if_neg hbad, hread]
  cases hview : readEvent P hidden writer f.content with
  | none => simp [eventOf, hnamed, hview]
  | some view => simp [eventOf, hnamed, hview]

/-- The files of a writer below the limits: every event is taken. -/
theorem visitEventFiles_all {writer : PyStr} {files : List DeltaFile} {seen : Nat} {scan : EventScan}
    (hseen : seen + files.length ≤ maxRecentEventEntriesPerWriter)
    (hentries : scan.entries + files.length ≤ maxRecentEventDirectoryEntries)
    (hfiles : scan.files + (namedEvents files).length ≤ maxRecentEventFiles)
    (hbytes : scan.bytes + totalBytes (namedEvents files) < maxRecentEventTotalBytes)
    (hsound : ∀ f ∈ files, f.Sound)
    (hsize : ∀ f ∈ namedEvents files, f.content.length ≤ maxRecentEventFileBytes)
    (hstop : scan.stop = false) :
    ∃ entries ≤ scan.entries + files.length, visitEventFiles P hidden writer files seen scan = { scan with
      entries := entries
      files := scan.files + (namedEvents files).length
      bytes := scan.bytes + totalBytes (namedEvents files)
      accepted := scan.accepted ++ files.filterMap (eventOf P hidden writer) } := by
  induction files generalizing seen scan with
  | nil => exact ⟨scan.entries, le_refl _, by simp [visitEventFiles, namedEvents, totalBytes]⟩
  | cons f rest ih =>
    rw [List.length_cons] at hseen hentries
    have hsound' : ∀ g ∈ rest, g.Sound := fun g hg => hsound g (List.mem_cons_of_mem f hg)
    have hcons : (f :: rest).filterMap (eventOf P hidden writer) =
        [f].filterMap (eventOf P hidden writer) ++ rest.filterMap (eventOf P hidden writer) :=
      List.filterMap_append (l := [f])
    by_cases hroom : scan.files < maxRecentEventFiles
    · have hguard : seen < maxRecentEventEntriesPerWriter ∧
          scan.entries < maxRecentEventDirectoryEntries ∧ scan.files < maxRecentEventFiles :=
        ⟨by omega, by omega, hroom⟩
      unfold visitEventFiles
      simp only [if_pos hguard]
      cases hnamed : f.named eventKind with
      | false =>
        rw [namedEvents_cons, hnamed] at hfiles hbytes hsize
        simp only [Bool.false_eq_true, if_false] at hfiles hbytes hsize
        have hnone : eventOf P hidden writer f = none := by simp [eventOf, hnamed]
        obtain ⟨entries, hle, heq⟩ := @ih (seen + 1) { scan with entries := scan.entries + 1 } (by omega)
          (by simp only; omega) hfiles hbytes hsound' hsize hstop
        refine ⟨entries, by simp only at hle; rw [List.length_cons]; omega, ?_⟩
        simp only [if_true]
        rw [heq, namedEvents_cons, hnamed, List.filterMap_cons_none hnone]
        rfl
      | true =>
        rw [namedEvents_cons, hnamed] at hfiles hbytes hsize
        simp only [if_true, List.length_cons, totalBytes, List.map_cons, List.sum_cons] at hfiles hbytes
        simp only [if_true] at hsize
        have hvisit := @visitEventFile_sound P hidden writer f
          { scan with entries := scan.entries + 1, files := scan.files + 1 } (hsound f List.mem_cons_self)
          hnamed (hsize f List.mem_cons_self) (by simp only; omega)
        simp only [Bool.true_eq_false, if_false]
        rw [hvisit]
        simp only [hstop, Bool.false_eq_true, if_false]
        obtain ⟨entries, hle, heq⟩ := @ih (seen + 1) { scan with
            entries := scan.entries + 1
            files := scan.files + 1
            bytes := scan.bytes + f.content.length
            accepted := scan.accepted ++ [f].filterMap (eventOf P hidden writer)
            stop := false } (by omega) (by simp only; omega) (by simp only; omega)
          (by simp only [totalBytes]; omega) hsound' (fun g hg => hsize g (List.mem_cons_of_mem f hg)) rfl
        refine ⟨entries, by simp only at hle; rw [List.length_cons]; omega, ?_⟩
        rw [heq, namedEvents_cons, hnamed, hcons]
        simp only [if_true, List.length_cons, totalBytes, List.map_cons, List.sum_cons, List.append_assoc,
          EventScan.mk.injEq, true_and, and_true]
        omega
    · -- no files are left to count, so no names of events either
      have hnil : namedEvents (f :: rest) = [] := List.eq_nil_of_length_eq_zero (by omega)
      have hguard : ¬(seen < maxRecentEventEntriesPerWriter ∧
          scan.entries < maxRecentEventDirectoryEntries ∧ scan.files < maxRecentEventFiles) :=
        fun h => hroom h.2.2
      refine ⟨scan.entries, by omega, ?_⟩
      unfold visitEventFiles
      rw [if_neg hguard, filterMap_eventOf_nil hnil, hnil]
      simp [totalBytes]

/-! ## All writers -/

/-- The files of all writers, in the order of the scan. -/
def filesOf (writers : List DeltaWriter) : List DeltaFile := writers.flatMap fun w => w.files.getD []

theorem filesOf_cons (w : DeltaWriter) (rest : List DeltaWriter) :
    filesOf (w :: rest) = w.files.getD [] ++ filesOf rest := List.flatMap_cons

theorem namedEvents_append (xs ys : List DeltaFile) :
    namedEvents (xs ++ ys) = namedEvents xs ++ namedEvents ys := List.filter_append _ _

theorem totalBytes_append (xs ys : List DeltaFile) :
    totalBytes (xs ++ ys) = totalBytes xs + totalBytes ys := by
  unfold totalBytes
  rw [List.map_append, List.sum_append]

/-- The scan below its limits takes every event of every writer. -/
theorem visitEventWriters_all {writers : List DeltaWriter} {scan : EventScan}
    (hwriters : scan.writers + writers.length ≤ maxRecentEventWriters)
    (hentries : scan.entries + entriesOf writers ≤ maxRecentEventDirectoryEntries)
    (hperWriter : ∀ w ∈ writers, (w.files.getD []).length ≤ maxRecentEventEntriesPerWriter)
    (hfiles : scan.files + (namedEvents (filesOf writers)).length ≤ maxRecentEventFiles)
    (hbytes : scan.bytes + totalBytes (namedEvents (filesOf writers)) < maxRecentEventTotalBytes)
    (hnames : ∀ w ∈ writers, isWriterName w.name = true)
    (hlisted : ∀ w ∈ writers, w.files.isSome = true)
    (hsound : ∀ f ∈ filesOf writers, f.Sound)
    (hsize : ∀ f ∈ namedEvents (filesOf writers), f.content.length ≤ maxRecentEventFileBytes)
    (hstop : scan.stop = false) :
    (visitEventWriters P hidden writers scan).accepted =
      scan.accepted ++ writers.flatMap (writerEvents P hidden) := by
  induction writers generalizing scan with
  | nil => simp [visitEventWriters]
  | cons w rest ih =>
    obtain ⟨files, hsome⟩ := Option.isSome_iff_exists.mp (hlisted w List.mem_cons_self)
    have hget : w.files.getD [] = files := by rw [hsome, Option.getD_some]
    have hper := hperWriter w List.mem_cons_self
    rw [entriesOf_cons] at hentries
    rw [filesOf_cons, hget] at hfiles hbytes hsize hsound
    rw [namedEvents_append] at hfiles hbytes hsize
    rw [List.length_append] at hfiles
    rw [totalBytes_append] at hbytes
    rw [List.length_cons] at hwriters
    rw [hget] at hper
    have hone : entriesOf [w] = 1 + files.length := by simp [entriesOf, hget]
    have hguard : scan.writers < maxRecentEventWriters ∧ scan.entries < maxRecentEventDirectoryEntries :=
      ⟨by omega, by omega⟩
    have hname : ¬(isWriterName w.name = false ∨ w.files.isNone = true ∧ w.directory = false) := by
      simp [hnames w List.mem_cons_self, hsome]
    obtain ⟨entries, hle, heq⟩ := @visitEventFiles_all P hidden w.name files 0
      { scan with entries := scan.entries + 1, writers := scan.writers + 1 } (by omega)
      (by simp only; omega) (by simp only; omega) (by simp only; omega)
      (fun f hf => hsound f (List.mem_append_left _ hf))
      (fun f hf => hsize f (List.mem_append_left _ hf)) hstop
    simp only at hle heq
    have hevents : writerEvents P hidden w = files.filterMap (eventOf P hidden w.name) := by
      unfold writerEvents
      rw [hget]
    unfold visitEventWriters
    simp only [if_pos hguard, if_neg hname, hget, heq]
    simp only [hstop, Bool.false_eq_true, false_or]
    by_cases hfull : maxRecentEventFiles ≤ scan.files + (namedEvents files).length
    · -- the scan stops here, and the writers that follow have no events
      have hnil : namedEvents (filesOf rest) = [] := List.eq_nil_of_length_eq_zero (by omega)
      have hrest : rest.flatMap (writerEvents P hidden) = [] := by
        rw [List.flatMap_eq_nil_iff]
        intro v hv
        apply filterMap_eventOf_nil
        rw [namedEvents, List.filter_eq_nil_iff] at hnil ⊢
        intro f hf
        exact hnil f (List.mem_flatMap.mpr ⟨v, hv, hf⟩)
      rw [if_pos hfull, List.flatMap_cons, hrest, hevents, List.append_nil]
    · rw [if_neg hfull]
      have hnext := @ih { scan with
          writers := scan.writers + 1
          entries := entries
          files := scan.files + (namedEvents files).length
          bytes := scan.bytes + totalBytes (namedEvents files)
          accepted := scan.accepted ++ files.filterMap (eventOf P hidden w.name)
          stop := false }
        (by simp only; omega) (by simp only; omega) (fun v hv => hperWriter v (List.mem_cons_of_mem w hv))
        (by simp only; omega) (by simp only; omega) (fun v hv => hnames v (List.mem_cons_of_mem w hv))
        (fun v hv => hlisted v (List.mem_cons_of_mem w hv))
        (fun f hf => hsound f (List.mem_append_right _ hf))
        (fun f hf => hsize f (List.mem_append_right _ hf)) rfl
      rw [List.flatMap_cons, hevents, ← List.append_assoc]
      exact hnext

end Rdap.Memory
