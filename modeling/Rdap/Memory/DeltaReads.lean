import Rdap.Memory.Deltas

/-!
# Complete and cut readings

A reading that gives up returns nothing. One that runs out of directory entries between two
writers leaves the loop instead, and returns the deltas of the writers before.
-/

set_option autoImplicit false

namespace Rdap.Memory
open Python Lib

variable (P : Platform) (latest : Nat) (kind : PyStr)

/-! ## What there is to read -/

/-- The scan opens the file and reads it. -/
def DeltaFile.reads (f : DeltaFile) : Bool := f.named kind && f.plain && f.openOk

/-- The delta in a file, if it is a valid one. -/
def deltaOf (writer : PyStr) (f : DeltaFile) : Option Delta :=
  if f.reads kind = true then
    (readRecord P latest kind f.content).map fun r => ⟨r.1, writer, f.name, r.2⟩
  else none

def writerDeltas (w : DeltaWriter) : List Delta :=
  (w.files.getD []).filterMap (deltaOf P latest kind w.name)

def validDeltas (writers : List DeltaWriter) : List Delta :=
  writers.flatMap (writerDeltas P latest kind)

def allDeltas (tree : DeltaTree) : List Delta := validDeltas P latest kind (tree.getD [])

/-- The directory entries that a list of writers takes. -/
def entriesOf (writers : List DeltaWriter) : Nat :=
  (writers.map fun w => 1 + (w.files.getD []).length).sum

/-! ## The budgets for files and bytes -/

def readCount (files : List DeltaFile) : Nat := files.countP (DeltaFile.reads kind)

def readBytes (files : List DeltaFile) : Nat :=
  ((files.filter (DeltaFile.reads kind)).map fun f => f.content.length).sum

/-- There is room for a file after so many files and bytes. -/
def Room (files bytes : Nat) (f : DeltaFile) : Prop :=
  f.named kind = true → files < maxDeltaFiles ∧ bytes < maxDeltaTotalBytes ∧
    (f.plain = true → f.content.length ≤ maxDeltaTotalBytes - bytes)

/-- There is room for each file when its turn comes. -/
def Fits : Nat → Nat → List DeltaFile → Prop
  | _, _, [] => True
  | files, bytes, f :: rest => Room kind files bytes f ∧
      Fits (files + readCount kind [f]) (bytes + readBytes kind [f]) rest

/-- The files of the writers in the order of the scan. -/
def scannedFiles (writers : List DeltaWriter) : List DeltaFile :=
  writers.flatMap fun w => sortByName DeltaFile.name (w.files.getD [])

def scannedDeltas (writers : List DeltaWriter) : List Delta :=
  writers.flatMap fun w =>
    (sortByName DeltaFile.name (w.files.getD [])).filterMap (deltaOf P latest kind w.name)

variable {P latest kind}

theorem readCount_append (xs ys : List DeltaFile) :
    readCount kind (xs ++ ys) = readCount kind xs + readCount kind ys := List.countP_append

theorem readBytes_append (xs ys : List DeltaFile) :
    readBytes kind (xs ++ ys) = readBytes kind xs + readBytes kind ys := by
  unfold readBytes
  rw [List.filter_append, List.map_append, List.sum_append]

theorem readCount_cons (f : DeltaFile) (rest : List DeltaFile) :
    readCount kind (f :: rest) = readCount kind [f] + readCount kind rest :=
  readCount_append [f] rest

theorem readBytes_cons (f : DeltaFile) (rest : List DeltaFile) :
    readBytes kind (f :: rest) = readBytes kind [f] + readBytes kind rest :=
  readBytes_append [f] rest

theorem fits_append {files bytes : Nat} {xs ys : List DeltaFile} :
    Fits kind files bytes (xs ++ ys) ↔ Fits kind files bytes xs ∧
      Fits kind (files + readCount kind xs) (bytes + readBytes kind xs) ys := by
  induction xs generalizing files bytes with
  | nil => simp [Fits, readCount, readBytes]
  | cons f rest ih =>
    rw [List.cons_append, Fits, Fits, ih, readCount_cons f rest, readBytes_cons f rest, and_assoc,
      Nat.add_assoc, Nat.add_assoc]

/-! ## The scan of one directory -/

/-- The scan after these files of a writer, all of which it had room for. -/
def DeltaScan.past (P : Platform) (latest : Nat) (kind writer : PyStr) (files : List DeltaFile)
    (scan : DeltaScan) : DeltaScan where
  entriesSeen := scan.entriesSeen + files.length
  filesSeen := scan.filesSeen + readCount kind files
  bytesRead := scan.bytesRead + readBytes kind files
  accepted := scan.accepted ++ files.filterMap (deltaOf P latest kind writer)

theorem visitFile_eq (P : Platform) (latest : Nat) (kind writer : PyStr) (f : DeltaFile)
    (scan : DeltaScan) :
    (Room kind scan.filesSeen scan.bytesRead f ∧
      visitFile P latest kind writer f { scan with entriesSeen := scan.entriesSeen + 1 } =
        some (scan.past P latest kind writer [f])) ∨
    (¬Room kind scan.filesSeen scan.bytesRead f ∧
      visitFile P latest kind writer f { scan with entriesSeen := scan.entriesSeen + 1 } = none) := by
  unfold visitFile Room DeltaScan.past readCount readBytes deltaOf DeltaFile.reads
  simp only
  cases hnamed : f.named kind with
  | false => simp [hnamed]
  | true =>
    by_cases hfull : maxDeltaFiles ≤ scan.filesSeen ∨ maxDeltaTotalBytes ≤ scan.bytesRead
    · right
      refine ⟨?_, ?_⟩
      · intro hroom
        obtain ⟨hfiles, hbytes, -⟩ := hroom rfl
        omega
      · simp [hfull]
    · obtain ⟨hfiles, hbytes⟩ := not_or.mp hfull
      cases hplain : f.plain with
      | false =>
        left
        refine ⟨fun _ => ⟨by omega, by omega, by simp⟩, ?_⟩
        simp [hfull, hnamed, hplain]
      | true =>
        by_cases hlarge : maxDeltaTotalBytes - scan.bytesRead < f.content.length
        · right
          refine ⟨?_, ?_⟩
          · intro hroom
            have hle := (hroom rfl).2.2 rfl
            omega
          · simp [hfull, hlarge]
        · left
          refine ⟨fun _ => ⟨by omega, by omega, fun _ => by omega⟩, ?_⟩
          cases hopen : f.openOk with
          | false => simp [hfull, hlarge, hnamed, hplain, hopen]
          | true =>
            cases hrecord : readRecord P latest kind f.content <;>
              simp [hfull, hlarge, hnamed, hplain, hopen, hrecord]

theorem past_cons {writer : PyStr} {f : DeltaFile} {rest : List DeltaFile} {scan : DeltaScan} :
    (scan.past P latest kind writer [f]).past P latest kind writer rest =
      scan.past P latest kind writer (f :: rest) := by
  have hdeltas : (f :: rest).filterMap (deltaOf P latest kind writer) =
      [f].filterMap (deltaOf P latest kind writer) ++ rest.filterMap (deltaOf P latest kind writer) :=
    List.filterMap_append (l := [f])
  unfold DeltaScan.past
  rw [readCount_cons f rest, readBytes_cons f rest, hdeltas]
  simp only [List.length_cons, List.length_nil, DeltaScan.mk.injEq, List.append_assoc, and_true]
  omega

theorem scanFiles_eq (P : Platform) (latest : Nat) (kind writer : PyStr) {files : List DeltaFile} {scan : DeltaScan}
    (hentries : scan.entriesSeen + files.length ≤ maxDeltaDirectoryEntries) :
    (Fits kind scan.filesSeen scan.bytesRead files ∧
      scanFiles P latest kind writer files scan = some (scan.past P latest kind writer files)) ∨
    (¬Fits kind scan.filesSeen scan.bytesRead files ∧
      scanFiles P latest kind writer files scan = none) := by
  induction files generalizing scan with
  | nil =>
    left
    refine ⟨trivial, ?_⟩
    simp [scanFiles, DeltaScan.past, readCount, readBytes]
  | cons f rest ih =>
    rw [List.length_cons] at hentries
    have hgo : ¬maxDeltaDirectoryEntries < scan.entriesSeen + 1 := by omega
    unfold scanFiles Fits
    simp only [if_neg hgo]
    rcases visitFile_eq P latest kind writer f scan with
      ⟨hroom, hvisit⟩ | ⟨hroom, hvisit⟩
    · rw [hvisit]
      have hnext : (scan.past P latest kind writer [f]).entriesSeen + rest.length ≤
          maxDeltaDirectoryEntries := by
        simp only [DeltaScan.past, List.length_singleton]
        omega
      rcases ih hnext with ⟨hfits, hscan⟩ | ⟨hfits, hscan⟩
      · exact Or.inl ⟨⟨hroom, hfits⟩, hscan.trans (congrArg some past_cons)⟩
      · exact Or.inr ⟨fun h => hfits h.2, hscan⟩
    · rw [hvisit]
      exact Or.inr ⟨fun h => hroom h.1, rfl⟩

/-! ## The scan of all directories -/

/-- The scan after these writers, with room for all their files. -/
def DeltaScan.after (P : Platform) (latest : Nat) (kind : PyStr) (writers : List DeltaWriter)
    (scan : DeltaScan) : DeltaScan where
  entriesSeen := scan.entriesSeen + entriesOf writers
  filesSeen := scan.filesSeen + readCount kind (scannedFiles writers)
  bytesRead := scan.bytesRead + readBytes kind (scannedFiles writers)
  accepted := scan.accepted ++ scannedDeltas P latest kind writers

theorem sortByName_length {α : Type} (name : α → PyStr) (entries : List α) :
    (sortByName name entries).length = entries.length := List.length_insertionSort _ _

/-- A writer whose entries fit is scanned like the list of its files. -/
theorem scanWriter_eq (P : Platform) (latest : Nat) (kind : PyStr) {w : DeltaWriter} {scan : DeltaScan}
    (hentries : scan.entriesSeen + entriesOf [w] ≤ maxDeltaDirectoryEntries) :
    (Fits kind scan.filesSeen scan.bytesRead (scannedFiles [w]) ∧
      scanWriter P latest kind w { scan with entriesSeen := scan.entriesSeen + 1 } =
        some (scan.after P latest kind [w])) ∨
    (¬Fits kind scan.filesSeen scan.bytesRead (scannedFiles [w]) ∧
      scanWriter P latest kind w { scan with entriesSeen := scan.entriesSeen + 1 } = none) := by
  have hcount : entriesOf [w] = 1 + (w.files.getD []).length := by simp [entriesOf]
  have hfiles : scannedFiles [w] = sortByName DeltaFile.name (w.files.getD []) := by
    simp [scannedFiles]
  have hafter : ({ scan with entriesSeen := scan.entriesSeen + 1 } : DeltaScan).past P latest kind w.name
      (sortByName DeltaFile.name (w.files.getD [])) = scan.after P latest kind [w] := by
    unfold DeltaScan.past DeltaScan.after
    rw [hcount, hfiles, sortByName_length]
    simp only [DeltaScan.mk.injEq, scannedDeltas, List.flatMap_cons, List.flatMap_nil, List.append_nil,
      and_self, and_true]
    omega
  rw [hcount] at hentries
  rw [hfiles]
  unfold scanWriter
  cases hw : w.files with
  | none =>
    left
    rw [hw] at hafter
    refine ⟨trivial, ?_⟩
    rw [← hafter]
    simp [DeltaScan.past, sortByName, readCount, readBytes]
  | some files =>
    rw [hw] at hafter hentries
    simp only [Option.getD_some] at hafter hentries ⊢
    rw [if_neg (by omega)]
    have hlength := sortByName_length DeltaFile.name files
    have hroom : ({ scan with entriesSeen := scan.entriesSeen + 1 } : DeltaScan).entriesSeen +
        (sortByName DeltaFile.name files).length ≤ maxDeltaDirectoryEntries := by
      rw [hlength]
      simp only
      omega
    rcases scanFiles_eq P latest kind w.name hroom with
      ⟨hfits, hscan⟩ | ⟨hfits, hscan⟩
    · exact Or.inl ⟨hfits, by rw [hscan, hafter]⟩
    · exact Or.inr ⟨hfits, hscan⟩

theorem scannedFiles_cons (w : DeltaWriter) (rest : List DeltaWriter) :
    scannedFiles (w :: rest) = scannedFiles [w] ++ scannedFiles rest := by simp [scannedFiles]

theorem scannedDeltas_cons (w : DeltaWriter) (rest : List DeltaWriter) :
    scannedDeltas P latest kind (w :: rest) =
      scannedDeltas P latest kind [w] ++ scannedDeltas P latest kind rest := by simp [scannedDeltas]

theorem entriesOf_cons (w : DeltaWriter) (rest : List DeltaWriter) :
    entriesOf (w :: rest) = entriesOf [w] + entriesOf rest := by simp [entriesOf]

/-- The step of the loop over the writers, for one whose entries fit. -/
theorem scanWriters_cons (P : Platform) (latest : Nat) (kind : PyStr) {w : DeltaWriter}
    (rest : List DeltaWriter) {scan : DeltaScan}
    (hentries : scan.entriesSeen + entriesOf [w] ≤ maxDeltaDirectoryEntries) :
    (Fits kind scan.filesSeen scan.bytesRead (scannedFiles [w]) ∧
      scanWriters P latest kind (w :: rest) scan =
        scanWriters P latest kind rest (scan.after P latest kind [w])) ∨
    (¬Fits kind scan.filesSeen scan.bytesRead (scannedFiles [w]) ∧
      scanWriters P latest kind (w :: rest) scan = none) := by
  have hone : 1 ≤ entriesOf [w] := by
    simp [entriesOf]
  have hgo : ¬maxDeltaDirectoryEntries < scan.entriesSeen + 1 := by omega
  rw [scanWriters]
  simp only [if_neg hgo]
  rcases scanWriter_eq P latest kind hentries with
    ⟨hfits, hscan⟩ | ⟨hfits, hscan⟩
  · rw [hscan]
    have hstay : ¬maxDeltaDirectoryEntries < (scan.after P latest kind [w]).entriesSeen := by
      simp only [DeltaScan.after]
      omega
    simp only [if_neg hstay]
    exact Or.inl ⟨hfits, trivial⟩
  · rw [hscan]
    exact Or.inr ⟨hfits, rfl⟩

theorem scanWriters_cases (P : Platform) (latest : Nat) (kind : PyStr) (writers : List DeltaWriter)
    {scan : DeltaScan}
    (hentries : scan.entriesSeen ≤ maxDeltaDirectoryEntries) :
    scanWriters P latest kind writers scan = none ∨
    ∃ before rest result, writers = before ++ rest ∧
      (rest = [] ∨ scan.entriesSeen + entriesOf before = maxDeltaDirectoryEntries) ∧
      Fits kind scan.filesSeen scan.bytesRead (scannedFiles before) ∧
      scanWriters P latest kind writers scan = some result ∧
      result.accepted = scan.accepted ++ scannedDeltas P latest kind before := by
  induction writers generalizing scan with
  | nil =>
    right
    exact ⟨[], [], scan, rfl, Or.inl rfl, trivial, rfl, by simp [scannedDeltas]⟩
  | cons w rest ih =>
    by_cases hfit : scan.entriesSeen + entriesOf [w] ≤ maxDeltaDirectoryEntries
    · rcases scanWriters_cons P latest kind rest hfit with
        ⟨hfits, hscan⟩ | ⟨-, hscan⟩
      · rw [hscan]
        have hnext : (scan.after P latest kind [w]).entriesSeen ≤ maxDeltaDirectoryEntries := hfit
        rcases ih hnext with
          hnone | ⟨before, after, result, rfl, hend, hfits', hresult, haccepted⟩
        · exact Or.inl hnone
        · right
          refine ⟨w :: before, after, result, rfl, ?_, ?_, hresult, ?_⟩
          · rcases hend with hend | hend
            · exact Or.inl hend
            · right
              rw [entriesOf_cons]
              simp only [DeltaScan.after] at hend
              omega
          · rw [scannedFiles_cons, fits_append]
            exact ⟨hfits, hfits'⟩
          · rw [haccepted, scannedDeltas_cons w before]
            simp only [DeltaScan.after, List.append_assoc]
      · exact Or.inl hscan
    · rw [scanWriters]
      by_cases hfull : maxDeltaDirectoryEntries < scan.entriesSeen + 1
      · -- the entry of the writer is the one too many: the loop is left with what it has
        right
        have hexact : scan.entriesSeen = maxDeltaDirectoryEntries := by omega
        simp only [if_pos hfull]
        exact ⟨[], w :: rest, _, rfl, Or.inr (by simp [entriesOf, hexact]), trivial, rfl,
          by simp [scannedDeltas]⟩
      · left
        simp only [if_neg hfull]
        unfold scanWriter
        cases hw : w.files with
        | none =>
          simp only [entriesOf, List.map_cons, List.map_nil, List.sum_cons, List.sum_nil, hw,
            Option.getD_none, List.length_nil] at hfit
          omega
        | some files =>
          simp only [entriesOf, List.map_cons, List.map_nil, List.sum_cons, List.sum_nil, hw,
            Option.getD_some] at hfit
          simp only
          rw [if_pos (by omega)]

/-- A reading that has used up its entries between two writers ends there. -/
theorem scanWriters_cut {before rest : List DeltaWriter} {scan : DeltaScan}
    (hentries : scan.entriesSeen + entriesOf before = maxDeltaDirectoryEntries)
    (hfits : Fits kind scan.filesSeen scan.bytesRead (scannedFiles before)) (hrest : rest ≠ []) :
    ∃ result, scanWriters P latest kind (before ++ rest) scan = some result ∧
      result.accepted = scan.accepted ++ scannedDeltas P latest kind before := by
  induction before generalizing scan with
  | nil =>
    obtain ⟨w, after, rfl⟩ : ∃ w after, rest = w :: after := by
      cases rest with
      | nil => exact absurd rfl hrest
      | cons w after => exact ⟨w, after, rfl⟩
    have hfull : maxDeltaDirectoryEntries < scan.entriesSeen + 1 := by
      simp only [entriesOf, List.map_nil, List.sum_nil] at hentries
      omega
    rw [List.nil_append, scanWriters]
    simp only [if_pos hfull]
    exact ⟨_, rfl, by simp [scannedDeltas]⟩
  | cons w before ih =>
    rw [entriesOf_cons] at hentries
    rw [scannedFiles_cons, fits_append] at hfits
    have hfit : scan.entriesSeen + entriesOf [w] ≤ maxDeltaDirectoryEntries := by omega
    rcases scanWriters_cons P latest kind (before ++ rest) hfit with
      ⟨-, hscan⟩ | ⟨hnot, -⟩
    · rw [List.cons_append, hscan]
      have hnext : (scan.after P latest kind [w]).entriesSeen + entriesOf before =
          maxDeltaDirectoryEntries := by
        simp only [DeltaScan.after]
        omega
      obtain ⟨result, hresult, haccepted⟩ := ih hnext hfits.2
      refine ⟨result, hresult, ?_⟩
      rw [haccepted, scannedDeltas_cons w before]
      simp only [DeltaScan.after, List.append_assoc]
    · exact absurd hfits.1 hnot

/-! ## All or nothing -/

theorem scannedDeltas_perm (writers : List DeltaWriter) :
    (scannedDeltas P latest kind writers).Perm (validDeltas P latest kind writers) := by
  apply List.Perm.flatMap_left
  intro w _
  exact (List.perm_insertionSort _ _).filterMap _

theorem sortByName_perm {α : Type} (name : α → PyStr) (entries : List α) :
    (sortByName name entries).Perm entries := List.perm_insertionSort _ _

theorem validDeltas_perm {xs ys : List DeltaWriter} (h : xs.Perm ys) :
    (validDeltas P latest kind xs).Perm (validDeltas P latest kind ys) := h.flatMap_right _

theorem validDeltas_append (xs ys : List DeltaWriter) :
    validDeltas P latest kind (xs ++ ys) =
      validDeltas P latest kind xs ++ validDeltas P latest kind ys := List.flatMap_append

variable (P latest kind) in
/-- The entries run out between two writers, and there are deltas before and after. -/
def CutShort (tree : DeltaTree) : Prop :=
  ∃ writers before rest, tree = some writers ∧ writers.length ≤ maxDeltaWriters ∧
    sortByName DeltaWriter.name writers = before ++ rest ∧
    entriesOf before = maxDeltaDirectoryEntries ∧ Fits kind 0 0 (scannedFiles before) ∧
    validDeltas P latest kind before ≠ [] ∧ validDeltas P latest kind rest ≠ []

/-- What a reading returns, up to its order: nothing, all deltas, or those before a cut. -/
theorem readDeltas_cases (P : Platform) (latest : Nat) (kind : PyStr) (tree : DeltaTree) :
    readDeltas P latest kind tree = [] ∨
    (readDeltas P latest kind tree).Perm (allDeltas P latest kind tree) ∨
    ∃ writers before rest, isDeltaKind kind = true ∧ tree = some writers ∧
      writers.length ≤ maxDeltaWriters ∧ sortByName DeltaWriter.name writers = before ++ rest ∧
      entriesOf before = maxDeltaDirectoryEntries ∧ Fits kind 0 0 (scannedFiles before) ∧
      (readDeltas P latest kind tree).Perm (validDeltas P latest kind before) := by
  unfold readDeltas
  cases hkind : isDeltaKind kind with
  | false => exact Or.inl rfl
  | true =>
    cases tree with
    | none => exact Or.inl rfl
    | some writers =>
      simp only [Bool.true_eq_false, if_false]
      by_cases hmany : maxDeltaWriters < writers.length
      · simp only [if_pos hmany]
        exact Or.inl trivial
      · simp only [if_neg hmany]
        have hstart : ({} : DeltaScan).entriesSeen ≤ maxDeltaDirectoryEntries := Nat.zero_le _
        rcases scanWriters_cases P latest kind (sortByName DeltaWriter.name writers) hstart with
          hnone | ⟨before, rest, result, hsplit, hend, hfits, hresult, haccepted⟩
        · rw [hnone]
          exact Or.inl rfl
        · rw [hresult]
          have hscanned : (result.accepted.insertionSort deltaOrder).Perm
              (validDeltas P latest kind before) := by
            rw [haccepted]
            exact (List.perm_insertionSort _ _).trans (scannedDeltas_perm before)
          rcases hend with rfl | hend
          · right
            left
            rw [List.append_nil] at hsplit
            refine hscanned.trans ?_
            rw [← hsplit]
            exact validDeltas_perm (sortByName_perm _ _)
          · right
            right
            refine ⟨writers, before, rest, trivial, rfl, by omega, hsplit, ?_, hfits, hscanned⟩
            simpa using hend

theorem read_cut {tree : DeltaTree} (hkind : isDeltaKind kind = true)
    (h : CutShort P latest kind tree) : ∃ before rest,
      (readDeltas P latest kind tree).Perm (validDeltas P latest kind before) ∧
      (allDeltas P latest kind tree).Perm
        (validDeltas P latest kind before ++ validDeltas P latest kind rest) ∧
      validDeltas P latest kind before ≠ [] ∧ validDeltas P latest kind rest ≠ [] := by
  obtain ⟨writers, before, rest, rfl, hfew, hsplit, hentries, hfits, hbefore, hrest⟩ := h
  have hsome : rest ≠ [] := by
    rintro rfl
    exact hrest rfl
  have hcount : ({} : DeltaScan).entriesSeen + entriesOf before = maxDeltaDirectoryEntries := by
    simpa using hentries
  obtain ⟨result, hresult, haccepted⟩ := scanWriters_cut (P := P) hcount hfits hsome
  refine ⟨before, rest, ?_, ?_, hbefore, hrest⟩
  · unfold readDeltas
    rw [hkind]
    simp only [Bool.true_eq_false, if_false]
    rw [if_neg (by omega), hsplit, hresult]
    simp only
    rw [haccepted]
    exact (List.perm_insertionSort _ _).trans (scannedDeltas_perm before)
  · rw [← validDeltas_append, ← hsplit]
    exact (validDeltas_perm (sortByName_perm _ _)).symm

theorem read_complete_iff (P : Platform) (latest : Nat) (kind : PyStr) (tree : DeltaTree) :
    (DeltaStore.read P latest kind tree = [] ∨
      (DeltaStore.read P latest kind tree).Perm ((allDeltas P latest kind tree).map Delta.record)) ↔
    ¬(isDeltaKind kind = true ∧ CutShort P latest kind tree) := by
  unfold DeltaStore.read
  constructor
  · rintro hread ⟨hkind, hcut⟩
    obtain ⟨before, rest, hpart, hall, hbefore, hrest⟩ := read_cut hkind hcut
    have hlen := hpart.length_eq
    have hlen' := hall.length_eq
    rw [List.length_append] at hlen'
    have hpos := List.length_pos_of_ne_nil hbefore
    have hpos' := List.length_pos_of_ne_nil hrest
    rcases hread with hnil | hperm
    · rw [List.map_eq_nil_iff.mp hnil, List.length_nil] at hlen
      omega
    · have hsame := hperm.length_eq
      rw [List.length_map, List.length_map] at hsame
      omega
  · intro hnot
    rcases readDeltas_cases P latest kind tree with
      hnil | hperm | ⟨writers, before, rest, hkind, rfl, hfew, hsplit, hentries, hfits, hpart⟩
    · rw [hnil]
      exact Or.inl rfl
    · exact Or.inr (hperm.map _)
    · by_cases hbefore : validDeltas P latest kind before = []
      · left
        rw [hbefore, List.perm_nil] at hpart
        rw [hpart]
        rfl
      · have hrest : validDeltas P latest kind rest = [] := by
          by_contra hrest
          exact hnot ⟨hkind, writers, before, rest, rfl, hfew, hsplit, hentries, hfits, hbefore, hrest⟩
        right
        apply List.Perm.map
        refine hpart.trans ?_
        have hall : (validDeltas P latest kind (sortByName DeltaWriter.name writers)).Perm
            (validDeltas P latest kind writers) := validDeltas_perm (sortByName_perm _ _)
        rw [hsplit, validDeltas_append, hrest, List.append_nil] at hall
        exact hall

section Sample

def deltaKind : PyStr := lit "task"

/-- The smallest record that is accepted. -/
def taskContent : Bytes :=
  [0x7b, 0x22, 0x61, 0x74, 0x22, 0x3a, 0x30, 0x2c, 0x22, 0x6b, 0x69, 0x6e, 0x64, 0x22, 0x3a, 0x22,
    0x74, 0x61, 0x73, 0x6b, 0x22, 0x2c, 0x22, 0x77, 0x22, 0x3a, 0x22, 0x61, 0x22, 0x7d]

def taskFile : DeltaFile := ⟨lit "task-0.json", true, true, 1, taskContent, true⟩

/-- Files that are no deltas, under names of their own. -/
@[irreducible] def idleFiles (n : Nat) : List DeltaFile :=
  (List.range n).map fun i => ⟨lit "x" ++ natDecimal i, true, true, 1, [], true⟩

/-- The first writer and its files are as many entries as are allowed. -/
def fullWriter : DeltaWriter := ⟨lit "a", some (taskFile :: idleFiles 16382), true⟩

def lateWriter : DeltaWriter := ⟨lit "b", some [taskFile], true⟩

def cutTree : DeltaTree := some [fullWriter, lateWriter]

theorem fits_of_few {kind : PyStr} {F : List DeltaFile} {files bytes : Nat}
    (hfiles : files + F.countP (DeltaFile.named kind) ≤ maxDeltaFiles)
    (hbytes : bytes + ((F.filter (DeltaFile.named kind)).map fun f => f.content.length + 1).sum ≤
      maxDeltaTotalBytes) : Fits kind files bytes F := by
  induction F generalizing files bytes with
  | nil => trivial
  | cons f rest ih =>
    rw [List.countP_cons] at hfiles
    rw [List.filter_cons] at hbytes
    have hcount : readCount kind [f] ≤ 1 ∧ readBytes kind [f] ≤ f.content.length := by
      unfold readCount readBytes
      cases hreads : f.reads kind <;> simp [hreads]
    obtain ⟨hone, hsize⟩ := hcount
    cases hnamed : f.named kind with
    | false =>
      have hreads : f.reads kind = false := by simp [DeltaFile.reads, hnamed]
      have hnone : readCount kind [f] = 0 ∧ readBytes kind [f] = 0 := by
        simp [readCount, readBytes, hreads]
      simp only [hnamed, Bool.false_eq_true, if_false] at hfiles hbytes
      refine ⟨fun h => absurd (hnamed.symm.trans h) Bool.false_ne_true, ih (by omega) (by omega)⟩
    | true =>
      simp only [hnamed, if_true, List.map_cons, List.sum_cons] at hfiles hbytes
      exact ⟨fun _ => ⟨by omega, by omega, fun _ => by omega⟩, ih (by omega) (by omega)⟩

theorem idle_not_named {n : Nat} {f : DeltaFile} (h : f ∈ idleFiles n) :
    f.named deltaKind = false := by
  unfold idleFiles at h
  obtain ⟨i, -, rfl⟩ := List.mem_map.mp h
  have hfirst : startsWith (lit "x" ++ natDecimal i) (deltaKind ++ lit "-") = false := rfl
  unfold DeltaFile.named
  rw [hfirst, Bool.false_and]

theorem taskFile_delta (writer : PyStr) : ∃ record,
    deltaOf (Platform.ofTable []) 0 deltaKind writer taskFile =
      some ⟨0, writer, taskFile.name, record⟩ := by
  have hreads : taskFile.reads deltaKind = true := by decide +kernel
  have hrecord : (readRecord (Platform.ofTable []) 0 deltaKind taskContent).map Prod.fst = some 0 := by
    decide +kernel
  obtain ⟨⟨stamp, record⟩, hread, rfl⟩ := Option.map_eq_some_iff.mp hrecord
  refine ⟨record, ?_⟩
  unfold deltaOf
  rw [if_pos hreads]
  show (readRecord (Platform.ofTable []) 0 deltaKind taskContent).map _ = _
  rw [hread]
  rfl

theorem validDeltas_ne_nil {w : DeltaWriter} {f : DeltaFile} {d : Delta} (hf : f ∈ w.files.getD [])
    (hdelta : deltaOf P latest kind w.name f = some d) : validDeltas P latest kind [w] ≠ [] := by
  have hmem : d ∈ writerDeltas P latest kind w := List.mem_filterMap.mpr ⟨f, hf, hdelta⟩
  exact List.ne_nil_of_mem (List.mem_flatMap.mpr ⟨w, List.mem_singleton_self w, hmem⟩)

theorem cutTree_cut : CutShort (Platform.ofTable []) 0 deltaKind cutTree := by
  have hsorted : sortByName DeltaWriter.name [fullWriter, lateWriter] = [fullWriter] ++ [lateWriter] := by
    unfold sortByName
    apply List.Pairwise.insertionSort_eq
    have hnames : nameOrder fullWriter.name lateWriter.name := by decide
    simp [hnames]
  have hentries : entriesOf [fullWriter] = maxDeltaDirectoryEntries := by
    simp [entriesOf, fullWriter, idleFiles, maxDeltaDirectoryEntries]
  have hidle : (idleFiles 16382).filter (DeltaFile.named deltaKind) = [] := by
    rw [List.filter_eq_nil_iff]
    intro f hf
    rw [idle_not_named hf]
    exact Bool.false_ne_true
  have hnamed : (scannedFiles [fullWriter]).filter (DeltaFile.named deltaKind) = [taskFile] := by
    have hperm : ((scannedFiles [fullWriter]).filter (DeltaFile.named deltaKind)).Perm
        ((taskFile :: idleFiles 16382).filter (DeltaFile.named deltaKind)) := by
      apply List.Perm.filter
      simp only [scannedFiles, List.flatMap_cons, List.flatMap_nil, List.append_nil]
      exact sortByName_perm _ _
    have htask : taskFile.named deltaKind = true := by decide
    rw [List.filter_cons, htask, hidle] at hperm
    simp only [if_true, List.perm_singleton] at hperm
    exact hperm
  have hfits : Fits deltaKind 0 0 (scannedFiles [fullWriter]) := by
    refine fits_of_few ?_ ?_
    · rw [List.countP_eq_length_filter, hnamed]
      decide
    · rw [hnamed]
      decide
  obtain ⟨first, hfirst⟩ := taskFile_delta fullWriter.name
  obtain ⟨last, hlast⟩ := taskFile_delta lateWriter.name
  have hbefore : validDeltas (Platform.ofTable []) 0 deltaKind [fullWriter] ≠ [] :=
    validDeltas_ne_nil List.mem_cons_self hfirst
  have hafter : validDeltas (Platform.ofTable []) 0 deltaKind [lateWriter] ≠ [] :=
    validDeltas_ne_nil List.mem_cons_self hlast
  have hfew : [fullWriter, lateWriter].length ≤ maxDeltaWriters := by
    simp only [List.length_cons, List.length_nil, maxDeltaWriters]
    omega
  exact ⟨_, _, _, rfl, hfew, hsorted, hentries, hfits, hbefore, hafter⟩

/-- The second writer adds one entry too many, and the deltas of the first alone are returned. -/
theorem partial_reading :
    DeltaStore.read (Platform.ofTable []) 0 deltaKind cutTree ≠ [] ∧
    ¬(DeltaStore.read (Platform.ofTable []) 0 deltaKind cutTree).Perm
      ((allDeltas (Platform.ofTable []) 0 deltaKind cutTree).map Delta.record) := by
  have hkind : isDeltaKind deltaKind = true := by decide
  obtain ⟨before, rest, hpart, hall, hbefore, hrest⟩ := read_cut hkind cutTree_cut
  have hlen := hpart.length_eq
  have hlen' := hall.length_eq
  rw [List.length_append] at hlen'
  have hpos := List.length_pos_of_ne_nil hbefore
  have hpos' := List.length_pos_of_ne_nil hrest
  unfold DeltaStore.read
  constructor
  · intro hnil
    rw [List.map_eq_nil_iff.mp hnil, List.length_nil] at hlen
    omega
  · intro hperm
    have hsame := hperm.length_eq
    rw [List.length_map, List.length_map] at hsame
    omega

end Sample

end Rdap.Memory
