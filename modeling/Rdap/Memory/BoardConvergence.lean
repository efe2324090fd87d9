import Rdap.Memory.Board

/-!
# Replicas of a board

A store is read below its limits, and the names in its directories are distinct, so that a
delta is found again by its writer and file. The sorted records are then a function of the set
of valid deltas, and for each task the winner is the greatest of its deltas.
-/

set_option autoImplicit false

namespace Rdap.Memory
open Python Lib

/-! ## The order of deltas -/

theorem deltaOrder_refl (a : Delta) : deltaOrder a a := Or.inr ⟨rfl, Or.inr ⟨rfl, le_refl a.file⟩⟩

theorem deltaOrder_total (a b : Delta) : deltaOrder a b ∨ deltaOrder b a :=
  lexLe_total (a.stamp, a.writer, a.file) (b.stamp, b.writer, b.file)

theorem deltaOrder_trans {a b c : Delta} (hab : deltaOrder a b) (hbc : deltaOrder b c) :
    deltaOrder a c :=
  @lexLe_trans _ _ _ _ _ _ (a.stamp, a.writer, a.file) (b.stamp, b.writer, b.file)
    (c.stamp, c.writer, c.file) hab hbc

/-- Deltas of equal rank come from the same file. -/
theorem deltaOrder_antisymm {a b : Delta} (hab : deltaOrder a b) (hba : deltaOrder b a) :
    a.writer = b.writer ∧ a.file = b.file := by
  have hkeys : (a.stamp, a.writer, a.file) = (b.stamp, b.writer, b.file) := lexLe_antisymm hab hba
  exact Prod.mk.inj (Prod.mk.inj hkeys).2

instance deltaOrder_isTotal : Std.Total deltaOrder := ⟨deltaOrder_total⟩

instance deltaOrder_isTrans : IsTrans Delta deltaOrder := ⟨fun _ _ _ => deltaOrder_trans⟩

/-! ## Replicas -/

/-- A store of task deltas below the limits of a reading. -/
structure BoardReplica where
  writers : List DeltaWriter
  names : (writers.map DeltaWriter.name).Nodup
  fileNames : ∀ w ∈ writers, ((w.files.getD []).map DeltaFile.name).Nodup
  few : writers.length ≤ maxDeltaWriters
  entries : entriesOf writers ≤ maxDeltaDirectoryEntries
  fits : Fits taskKind 0 0 (scannedFiles (sortByName DeltaWriter.name writers))

variable (P : Platform) (latest : Nat)

def BoardReplica.tree (s : BoardReplica) : DeltaTree := some s.writers

/-- The valid task deltas of the replica. -/
def BoardReplica.deltas (s : BoardReplica) : List Delta := validDeltas P latest taskKind s.writers

def BoardReplica.board (s : BoardReplica) : Except PyExc (List BoardRow) := parseBoardRows P latest s.tree

def BoardReplica.lastWritten (s : BoardReplica) : Except PyExc (List Dict) :=
  DeltaStore.latestBy P latest taskKind (lit "id") s.tree

variable {P latest}

/-- A reading whose entries, files and bytes all fit takes every delta. -/
theorem scanWriters_all {writers : List DeltaWriter} {kind : PyStr} {scan : DeltaScan}
    (hentries : scan.entriesSeen + entriesOf writers ≤ maxDeltaDirectoryEntries)
    (hfits : Fits kind scan.filesSeen scan.bytesRead (scannedFiles writers)) :
    ∃ result, scanWriters P latest kind writers scan = some result ∧
      result.accepted = scan.accepted ++ scannedDeltas P latest kind writers := by
  induction writers generalizing scan with
  | nil => exact ⟨scan, rfl, by simp [scannedDeltas]⟩
  | cons w rest ih =>
    rw [entriesOf_cons] at hentries
    rw [scannedFiles_cons, fits_append] at hfits
    rcases scanWriters_cons P latest kind rest (by omega : scan.entriesSeen + entriesOf [w] ≤ maxDeltaDirectoryEntries) with
      ⟨-, hscan⟩ | ⟨hnot, -⟩
    · have hnext : (scan.after P latest kind [w]).entriesSeen + entriesOf rest ≤
          maxDeltaDirectoryEntries := by
        simp only [DeltaScan.after]
        omega
      obtain ⟨result, hresult, haccepted⟩ := ih hnext hfits.2
      refine ⟨result, hscan.trans hresult, ?_⟩
      rw [haccepted, scannedDeltas_cons w rest]
      simp only [DeltaScan.after, List.append_assoc]
    · exact absurd hfits.1 hnot

theorem entriesOf_perm {xs ys : List DeltaWriter} (h : xs.Perm ys) : entriesOf xs = entriesOf ys :=
  (h.map _).sum_eq

theorem deltaOf_path {kind writer : PyStr} {f : DeltaFile} {d : Delta}
    (h : deltaOf P latest kind writer f = some d) : d.writer = writer ∧ d.file = f.name := by
  unfold deltaOf at h
  split at h
  · obtain ⟨r, -, rfl⟩ := Option.map_eq_some_iff.mp h
    exact ⟨rfl, rfl⟩
  · cases h

theorem writerDeltas_nodup {kind writer : PyStr} {files : List DeltaFile}
    (hnames : (files.map DeltaFile.name).Nodup) :
    (files.filterMap (deltaOf P latest kind writer)).Nodup := by
  induction files with
  | nil => exact List.nodup_nil
  | cons f rest ih =>
    rw [List.map_cons, List.nodup_cons] at hnames
    cases hdelta : deltaOf P latest kind writer f with
    | none =>
      rw [List.filterMap_cons_none hdelta]
      exact ih hnames.2
    | some d =>
      rw [List.filterMap_cons_some hdelta, List.nodup_cons]
      refine ⟨fun hd => hnames.1 ?_, ih hnames.2⟩
      obtain ⟨f', hf', hdelta'⟩ := List.mem_filterMap.mp hd
      rw [← (deltaOf_path hdelta).2, (deltaOf_path hdelta').2]
      exact List.mem_map_of_mem hf'

theorem mem_validDeltas {kind : PyStr} {writers : List DeltaWriter} {d : Delta} :
    d ∈ validDeltas P latest kind writers ↔ ∃ w ∈ writers, ∃ f ∈ w.files.getD [],
      deltaOf P latest kind w.name f = some d := by
  simp only [validDeltas, writerDeltas, List.mem_flatMap, List.mem_filterMap]

theorem validDeltas_nodup {kind : PyStr} {writers : List DeltaWriter}
    (hnames : (writers.map DeltaWriter.name).Nodup)
    (hfiles : ∀ w ∈ writers, ((w.files.getD []).map DeltaFile.name).Nodup) :
    (validDeltas P latest kind writers).Nodup := by
  induction writers with
  | nil => exact List.nodup_nil
  | cons w rest ih =>
    rw [List.map_cons, List.nodup_cons] at hnames
    have hcons : validDeltas P latest kind (w :: rest) =
        writerDeltas P latest kind w ++ validDeltas P latest kind rest := by simp [validDeltas]
    rw [hcons, List.nodup_append]
    refine ⟨writerDeltas_nodup (hfiles w List.mem_cons_self),
      ih hnames.2 fun x hx => hfiles x (List.mem_cons_of_mem w hx), ?_⟩
    intro a ha b hb heq
    subst heq
    obtain ⟨f, -, hdelta⟩ := List.mem_filterMap.mp ha
    obtain ⟨w', hw', f', -, hdelta'⟩ := mem_validDeltas.mp hb
    apply hnames.1
    rw [← (deltaOf_path hdelta).1, (deltaOf_path hdelta').1]
    exact List.mem_map_of_mem hw'

/-- A delta is known by its writer and its file. -/
theorem validDeltas_unique {kind : PyStr} {writers : List DeltaWriter}
    (hnames : (writers.map DeltaWriter.name).Nodup)
    (hfiles : ∀ w ∈ writers, ((w.files.getD []).map DeltaFile.name).Nodup) {a b : Delta}
    (ha : a ∈ validDeltas P latest kind writers) (hb : b ∈ validDeltas P latest kind writers)
    (hwriter : a.writer = b.writer) (hfile : a.file = b.file) : a = b := by
  obtain ⟨w, hw, f, hf, hdelta⟩ := mem_validDeltas.mp ha
  obtain ⟨w', hw', f', hf', hdelta'⟩ := mem_validDeltas.mp hb
  obtain ⟨hname, hfname⟩ := deltaOf_path hdelta
  obtain ⟨hname', hfname'⟩ := deltaOf_path hdelta'
  have hsame : w = w' := by
    apply List.inj_on_of_nodup_map hnames hw hw'
    rw [← hname, ← hname', hwriter]
  subst hsame
  have hsame' : f = f' := by
    apply List.inj_on_of_nodup_map (hfiles w hw) hf hf'
    rw [← hfname, ← hfname', hfile]
  subst hsame'
  exact Option.some.inj (hdelta.symm.trans hdelta')

/-- A reading below its limits returns the valid deltas, sorted. -/
theorem readDeltas_within {kind : PyStr} {writers : List DeltaWriter} (hkind : isDeltaKind kind = true)
    (hnames : (writers.map DeltaWriter.name).Nodup)
    (hfiles : ∀ w ∈ writers, ((w.files.getD []).map DeltaFile.name).Nodup)
    (hfew : writers.length ≤ maxDeltaWriters) (hentries : entriesOf writers ≤ maxDeltaDirectoryEntries)
    (hfits : Fits kind 0 0 (scannedFiles (sortByName DeltaWriter.name writers))) :
    readDeltas P latest kind (some writers) =
      (validDeltas P latest kind writers).insertionSort deltaOrder := by
  have hsorted := sortByName_perm DeltaWriter.name writers
  have hentries' : ({} : DeltaScan).entriesSeen + entriesOf (sortByName DeltaWriter.name writers) ≤
      maxDeltaDirectoryEntries := by
    rw [entriesOf_perm hsorted]
    simpa using hentries
  obtain ⟨result, hresult, haccepted⟩ := scanWriters_all (P := P) hentries' hfits
  unfold readDeltas
  rw [hkind]
  simp only [Bool.true_eq_false, if_false]
  rw [if_neg (by omega), hresult]
  simp only
  have hperm : result.accepted.Perm (validDeltas P latest kind writers) := by
    rw [haccepted]
    exact (scannedDeltas_perm _).trans (validDeltas_perm hsorted)
  apply insertionSort_eq_of_perm hperm
  intro a ha b hb hab hba
  obtain ⟨hwriter, hfile⟩ := deltaOrder_antisymm hab hba
  exact validDeltas_unique hnames hfiles (hperm.mem_iff.mp ha) (hperm.mem_iff.mp hb) hwriter hfile

namespace BoardReplica

theorem deltas_unique (s : BoardReplica) {a b : Delta} (ha : a ∈ s.deltas P latest)
    (hb : b ∈ s.deltas P latest) (hwriter : a.writer = b.writer) (hfile : a.file = b.file) : a = b :=
  validDeltas_unique s.names s.fileNames ha hb hwriter hfile

/-- The sorted deltas of the replica are what it reads. -/
theorem readDeltas_eq (s : BoardReplica) :
    readDeltas P latest taskKind s.tree = (s.deltas P latest).insertionSort deltaOrder :=
  readDeltas_within (by decide) s.names s.fileNames s.few s.entries s.fits

/-- What is read depends on the set of the valid deltas alone. -/
theorem readDeltas_of_same {s s' : BoardReplica}
    (h : ∀ d, d ∈ s.deltas P latest ↔ d ∈ s'.deltas P latest) :
    readDeltas P latest taskKind s.tree = readDeltas P latest taskKind s'.tree := by
  rw [readDeltas_eq, readDeltas_eq]
  have hperm : (s.deltas P latest).Perm (s'.deltas P latest) :=
    (List.perm_ext_iff_of_nodup (validDeltas_nodup s.names s.fileNames)
      (validDeltas_nodup s'.names s'.fileNames)).mpr h
  apply insertionSort_eq_of_perm hperm
  intro a ha b hb hab hba
  obtain ⟨hwriter, hfile⟩ := deltaOrder_antisymm hab hba
  exact s.deltas_unique ha hb hwriter hfile

/-! ## Winners -/

end BoardReplica

theorem readRecord_printable {kind : PyStr} {content : Bytes} {r : Nat × Dict}
    (h : readRecord P latest kind content = some r) : Json.Printable (.dict r.2) := by
  unfold readRecord at h
  split at h
  · cases h
  · rename_i text _
    split at h
    · rename_i record hload
      split at h
      · split at h
        · cases h
          exact Json.loads_printable hload
        · cases h
      · cases h
    · cases h

variable (P) in
/-- The task of a record, which is always defined. -/
def taskOf (rec : Dict) : PyStr := (recordKey P (lit "id") rec).toOption.getD []

theorem recordKey_of_mem {kind : PyStr} {writers : List DeltaWriter} {d : Delta}
    (hd : d ∈ validDeltas P latest kind writers) :
    recordKey P (lit "id") d.record = .ok (taskOf P d.record) := by
  obtain ⟨w, -, f, -, hdelta⟩ := mem_validDeltas.mp hd
  obtain ⟨k, hk⟩ : ∃ k, recordKey P (lit "id") d.record = .ok k := by
    unfold deltaOf at hdelta
    split at hdelta
    · obtain ⟨r, hread, rfl⟩ := Option.map_eq_some_iff.mp hdelta
      apply pyStr_defined
      exact getD_printable (readRecord_printable hread) _ trivial
    · cases hdelta
  unfold taskOf
  rw [hk]
  rfl

namespace BoardReplica

variable (P latest) in
/-- `d` is the greatest delta of the task `k`. -/
def Wins (s : BoardReplica) (k : PyStr) (d : Delta) : Prop :=
  k ≠ [] ∧ d ∈ s.deltas P latest ∧ recordKey P (lit "id") d.record = .ok k ∧
    ∀ d' ∈ s.deltas P latest, recordKey P (lit "id") d'.record = .ok k → deltaOrder d' d

variable (P latest) in
/-- The sorted deltas with their tasks, without those that have none. -/
def entriesByTask (s : BoardReplica) : List (PyStr × Delta) :=
  ((readDeltas P latest taskKind s.tree).map fun d => (taskOf P d.record, d)).filter fun e => e.1 ≠ []

theorem mem_readDeltas (s : BoardReplica) {d : Delta} :
    d ∈ readDeltas P latest taskKind s.tree ↔ d ∈ s.deltas P latest := by
  rw [readDeltas_eq]
  exact List.mem_insertionSort deltaOrder

theorem mem_entriesByTask (s : BoardReplica) {e : PyStr × Delta} :
    e ∈ s.entriesByTask P latest ↔
      e.1 ≠ [] ∧ e.2 ∈ s.deltas P latest ∧ recordKey P (lit "id") e.2.record = .ok e.1 := by
  unfold entriesByTask
  simp only [List.mem_filter, List.mem_map, mem_readDeltas, decide_eq_true_eq]
  constructor
  · rintro ⟨⟨d, hd, rfl⟩, hne⟩
    exact ⟨hne, hd, recordKey_of_mem hd⟩
  · rintro ⟨hne, hd, hkey⟩
    refine ⟨⟨e.2, hd, ?_⟩, hne⟩
    have hsame := Except.ok.inj ((recordKey_of_mem hd).symm.trans hkey)
    rw [hsame]

/-- The winners are the last writes, each the greatest delta of its task. -/
theorem wins_iff (s : BoardReplica) (k : PyStr) (d : Delta) :
    (k, d) ∈ lastWrites (s.entriesByTask P latest) ↔ s.Wins P latest k d := by
  have hread : readDeltas P latest taskKind s.tree = (s.deltas P latest).insertionSort deltaOrder :=
    s.readDeltas_eq
  have hsortedDeltas : (readDeltas P latest taskKind s.tree).Pairwise deltaOrder := by
    rw [hread]
    exact List.pairwise_insertionSort deltaOrder _
  have hnodupDeltas : (readDeltas P latest taskKind s.tree).Nodup := by
    rw [hread]
    exact (List.perm_insertionSort deltaOrder _).nodup_iff.mpr (validDeltas_nodup s.names s.fileNames)
  have hsorted : (s.entriesByTask P latest).Pairwise fun a b => deltaOrder a.2 b.2 := by
    apply List.Pairwise.filter
    rw [List.pairwise_map]
    exact hsortedDeltas
  have hnodup : (s.entriesByTask P latest).Nodup := by
    apply List.Nodup.filter
    apply hnodupDeltas.map
    intro a b hab
    exact (Prod.mk.inj hab).2
  have hanti : ∀ a ∈ s.entriesByTask P latest, ∀ b ∈ s.entriesByTask P latest,
      deltaOrder a.2 b.2 → deltaOrder b.2 a.2 → a = b := by
    intro a ha b hb hab hba
    obtain ⟨-, hda, hka⟩ := s.mem_entriesByTask.mp ha
    obtain ⟨-, hdb, hkb⟩ := s.mem_entriesByTask.mp hb
    obtain ⟨hwriter, hfile⟩ := deltaOrder_antisymm hab hba
    have hsame := s.deltas_unique hda hdb hwriter hfile
    rw [hsame, hkb] at hka
    exact Prod.ext (Except.ok.inj hka).symm hsame
  rw [mem_lastWrites_of_sorted hsorted deltaOrder_refl hanti hnodup, mem_entriesByTask]
  constructor
  · rintro ⟨⟨hne, hd, hkey⟩, hmax⟩
    refine ⟨hne, hd, hkey, ?_⟩
    intro d' hd' hkey'
    exact hmax (k, d') (s.mem_entriesByTask.mpr ⟨hne, hd', hkey'⟩) rfl
  · rintro ⟨hne, hd, hkey, hmax⟩
    refine ⟨⟨hne, hd, hkey⟩, ?_⟩
    rintro ⟨k', d'⟩ he' rfl
    obtain ⟨-, hd', hkey'⟩ := s.mem_entriesByTask.mp he'
    exact hmax d' hd' hkey'

theorem entriesFor_read (s : BoardReplica) :
    entriesFor (taskOf P) (DeltaStore.read P latest taskKind s.tree) =
      (s.entriesByTask P latest).map fun e => (e.1, e.2.record) := by
  unfold entriesFor entriesByTask DeltaStore.read
  rw [List.map_map, List.filter_map, List.filter_map, List.map_map]
  rfl

theorem board_eq (s : BoardReplica) : s.board P latest =
    .ok ((lastWrites (s.entriesByTask P latest)).map fun e => boardRow e.1 e.2.record) := by
  have hkeys : ∀ r ∈ DeltaStore.read P latest taskKind s.tree,
      recordKey P (lit "id") r = .ok (taskOf P r) := by
    intro r hr
    obtain ⟨d, hd, rfl⟩ := List.mem_map.mp hr
    exact recordKey_of_mem (s.mem_readDeltas.mp hd)
  have hstart : ∀ k : PyStr, k ∈ ([] : List PyStr) ↔ k ∈ ([] : List (PyStr × Dict)).map Prod.fst := by
    simp
  obtain ⟨seen, hfold⟩ := boardFold hkeys hstart
  unfold board parseBoardRows
  rw [List.map_nil] at hfold
  rw [hfold, entriesFor_read]
  show Except.ok _ = _
  have hmap := lastWrites_map Delta.record (s.entriesByTask P latest)
  unfold lastWrites at hmap ⊢
  rw [hmap, List.map_map]
  rfl

theorem lastWritten_eq (s : BoardReplica) : s.lastWritten P latest =
    .ok ((lastWrites (s.entriesByTask P latest)).map fun e => e.2.record) := by
  have hkeys : ∀ r ∈ DeltaStore.read P latest taskKind s.tree,
      recordKey P (lit "id") r = .ok (taskOf P r) := by
    intro r hr
    obtain ⟨d, hd, rfl⟩ := List.mem_map.mp hr
    exact recordKey_of_mem (s.mem_readDeltas.mp hd)
  unfold lastWritten DeltaStore.latestBy
  rw [latestFold hkeys, entriesFor_read]
  show Except.ok _ = _
  have hmap := lastWrites_map Delta.record (s.entriesByTask P latest)
  unfold lastWrites at hmap ⊢
  rw [hmap, List.map_map]
  rfl

variable (P latest) in
/-- `u` holds the valid deltas of both replicas, as after a merge. -/
def IsUnion (a b u : BoardReplica) : Prop :=
  ∀ d, d ∈ u.deltas P latest ↔ d ∈ a.deltas P latest ∨ d ∈ b.deltas P latest

variable (P latest) in
/-- Both projections agree. -/
def SameBoard (s s' : BoardReplica) : Prop :=
  s.board P latest = s'.board P latest ∧ s.lastWritten P latest = s'.lastWritten P latest

theorem sameBoard_of_same {s s' : BoardReplica}
    (h : ∀ d, d ∈ s.deltas P latest ↔ d ∈ s'.deltas P latest) : SameBoard P latest s s' := by
  unfold SameBoard
  rw [board_eq, board_eq, lastWritten_eq, lastWritten_eq]
  unfold entriesByTask
  rw [readDeltas_of_same h]
  exact ⟨rfl, rfl⟩

/-- A task of which there is a delta has a winner. -/
theorem wins_exists (s : BoardReplica) {k : PyStr} {d : Delta} (hk : k ≠ [])
    (hd : d ∈ s.deltas P latest) (hkey : recordKey P (lit "id") d.record = .ok k) :
    ∃ w, s.Wins P latest k w := by
  have hentry : (k, d) ∈ s.entriesByTask P latest := s.mem_entriesByTask.mpr ⟨hk, hd, hkey⟩
  obtain ⟨w, hw⟩ := exists_lastWrite hentry
  exact ⟨w, (s.wins_iff k w).mp hw⟩

theorem wins_of_greater {a b u : BoardReplica} (h : IsUnion P latest a b u) {k : PyStr} {d : Delta}
    (ha : a.Wins P latest k d) (hb : ∀ d', b.Wins P latest k d' → deltaOrder d' d) :
    u.Wins P latest k d := by
  obtain ⟨hk, hd, hkey, hmax⟩ := ha
  refine ⟨hk, (h d).mpr (Or.inl hd), hkey, ?_⟩
  intro d' hd' hkey'
  rcases (h d').mp hd' with hd' | hd'
  · exact hmax d' hd' hkey'
  · obtain ⟨w, hw⟩ := b.wins_exists hk hd' hkey'
    exact deltaOrder_trans (hw.2.2.2 d' hd' hkey') (hb w hw)

theorem greater_of_wins {a b u : BoardReplica} (h : IsUnion P latest a b u) {k : PyStr} {d : Delta}
    (hu : u.Wins P latest k d) (hd : d ∈ a.deltas P latest) :
    a.Wins P latest k d ∧ ∀ d', b.Wins P latest k d' → deltaOrder d' d := by
  obtain ⟨hk, -, hkey, hmax⟩ := hu
  constructor
  · refine ⟨hk, hd, hkey, fun d' hd' hkey' => ?_⟩
    exact hmax d' ((h d').mpr (Or.inl hd')) hkey'
  · intro d' hd'
    exact hmax d' ((h d').mpr (Or.inr hd'.2.1)) hd'.2.2.1

theorem IsUnion.symm {a b u : BoardReplica} (h : IsUnion P latest a b u) : IsUnion P latest b a u := by
  intro d
  rw [h d, or_comm]

/-- In a union the greater of two winners wins. -/
theorem wins_union {a b u : BoardReplica} (h : IsUnion P latest a b u) (k : PyStr) (d : Delta) :
    u.Wins P latest k d ↔
      (a.Wins P latest k d ∧ ∀ d', b.Wins P latest k d' → deltaOrder d' d) ∨
      (b.Wins P latest k d ∧ ∀ d', a.Wins P latest k d' → deltaOrder d' d) := by
  constructor
  · intro hu
    rcases (h d).mp hu.2.1 with hd | hd
    · exact Or.inl (greater_of_wins h hu hd)
    · exact Or.inr (greater_of_wins h.symm hu hd)
  · rintro (⟨hw, hmax⟩ | ⟨hw, hmax⟩)
    · exact wins_of_greater h hw hmax
    · exact wins_of_greater h.symm hw hmax

end BoardReplica

open BoardReplica in
/-- The board is a function of the set of the valid deltas; each of its tasks is the greatest delta
of that task, once, as in the last writes; and the boards of merged replicas do not depend on the
order, the grouping or the repetition of the merges. -/
theorem board_converges (P : Platform) (latest : Nat) (s : BoardReplica) :
    (∀ s', (∀ d, d ∈ s.deltas P latest ↔ d ∈ s'.deltas P latest) → SameBoard P latest s s') ∧
    (∃ winners : List (PyStr × Delta),
      s.board P latest = .ok (winners.map fun e => boardRow e.1 e.2.record) ∧
      s.lastWritten P latest = .ok (winners.map fun e => e.2.record) ∧
      (winners.map Prod.fst).Nodup ∧
      ∀ k d, (k, d) ∈ winners ↔ s.Wins P latest k d) ∧
    (∀ t u, IsUnion P latest s t u → ∀ k d, u.Wins P latest k d ↔
      (s.Wins P latest k d ∧ ∀ d', t.Wins P latest k d' → deltaOrder d' d) ∨
      (t.Wins P latest k d ∧ ∀ d', s.Wins P latest k d' → deltaOrder d' d)) ∧
    (∀ t u u', IsUnion P latest s t u → IsUnion P latest t s u' → SameBoard P latest u u') ∧
    (∀ t v st tv u u', IsUnion P latest s t st → IsUnion P latest st v u → IsUnion P latest t v tv →
      IsUnion P latest s tv u' → SameBoard P latest u u') ∧
    (∀ u, IsUnion P latest s s u → SameBoard P latest u s) := by
  refine ⟨fun s' h => sameBoard_of_same h, ?_, fun t u h => wins_union h, ?_, ?_, ?_⟩
  · exact ⟨lastWrites (s.entriesByTask P latest), s.board_eq, s.lastWritten_eq, lastWrites_nodup _,
      s.wins_iff⟩
  · intro t u u' h h'
    apply sameBoard_of_same
    intro d
    rw [h d, h' d, or_comm]
  · intro t v st tv u u' hst hu htv hu'
    apply sameBoard_of_same
    intro d
    rw [hu d, hst d, hu' d, htv d, or_assoc]
  · intro u h
    apply sameBoard_of_same
    intro d
    rw [h d, or_self]

/-! ## Two clones -/

def clonePlatform : Platform := Platform.ofTable []

/-- The bits of the double 2. -/
def cloneLatest : Nat := 0x4000000000000000

def cloneFile (name text : String) : DeltaFile :=
  ⟨lit name, true, true, 1, (lit text).map fun c => UInt8.ofNat c.val, true⟩

def openedA : DeltaFile :=
  cloneFile "task-1.json" "\x7b\"at\":1,\"kind\":\"task\",\"w\":\"v\",\"id\":\"a\"\x7d"

def openedB : DeltaFile :=
  cloneFile "task-2.json" "\x7b\"at\":1,\"kind\":\"task\",\"w\":\"v\",\"id\":\"b\"\x7d"

def closedA : DeltaFile :=
  cloneFile "task-1.json"
    "\x7b\"at\":2,\"kind\":\"task\",\"w\":\"w\",\"id\":\"a\",\"status\":\"done\"\x7d"

/-- The clone of `v`, with two tasks. -/
def cloneV : BoardReplica where
  writers := [⟨lit "v", some [openedA, openedB], true⟩]
  names := by decide
  fileNames := by decide
  few := by decide
  entries := by decide
  fits := fits_of_few (by decide) (le_trans (b := 400) (by decide) (by decide))

/-- The clone of `w`, which has one of them from `v` and has closed it. -/
def cloneW : BoardReplica where
  writers := [⟨lit "v", some [openedA], true⟩, ⟨lit "w", some [closedA], true⟩]
  names := by decide
  fileNames := by decide
  few := by decide
  entries := by decide
  fits := fits_of_few (by decide) (le_trans (b := 400) (by decide) (by decide))

def merged : BoardReplica where
  writers := [⟨lit "v", some [openedA, openedB], true⟩, ⟨lit "w", some [closedA], true⟩]
  names := by decide
  fileNames := by decide
  few := by decide
  entries := by decide
  fits := fits_of_few (by decide) (le_trans (b := 400) (by decide) (by decide))

/-- The same files, listed otherwise. -/
def remerged : BoardReplica where
  writers := [⟨lit "w", some [closedA], true⟩, ⟨lit "v", some [openedB, openedA], true⟩]
  names := by decide
  fileNames := by decide
  few := by decide
  entries := by decide
  fits := fits_of_few (by decide) (le_trans (b := 400) (by decide) (by decide))

/-- The status of the row is `done`. -/
def isDone (row : BoardRow) : Bool :=
  match row.status with
  | .str status => status = lit "done"
  | _ => false

open BoardReplica

theorem merged_isUnion : IsUnion clonePlatform cloneLatest cloneV cloneW merged := by
  have hunion : ∀ p q r : Prop, (p ∨ q) ∨ r ↔ (p ∨ q) ∨ p ∨ r := by tauto
  intro d
  simp only [deltas, mem_validDeltas, cloneV, cloneW, merged, List.mem_cons, List.not_mem_nil,
    or_false, exists_eq_or_imp, exists_eq_left, Option.getD_some]
  exact hunion _ _ _

theorem remerged_isUnion : IsUnion clonePlatform cloneLatest cloneW cloneV remerged := by
  have hunion : ∀ p q r : Prop, r ∨ q ∨ p ↔ (p ∨ r) ∨ p ∨ q := by tauto
  intro d
  simp only [deltas, mem_validDeltas, cloneV, cloneW, remerged, List.mem_cons, List.not_mem_nil,
    or_false, exists_eq_or_imp, exists_eq_left, Option.getD_some]
  exact hunion _ _ _

/-- Both merges of the clones show the two tasks, and the one that was closed as closed. -/
theorem board_converges_sample :
    (merged.board clonePlatform cloneLatest).toOption.any (fun rows =>
      rows.map (fun row => (row.id, isDone row)) = [(lit "a", true), (lit "b", false)]) = true ∧
    SameBoard clonePlatform cloneLatest merged remerged ∧
    ∀ k d, merged.Wins clonePlatform cloneLatest k d ↔
      (cloneV.Wins clonePlatform cloneLatest k d ∧ ∀ d', cloneW.Wins clonePlatform cloneLatest k d' → deltaOrder d' d) ∨
      (cloneW.Wins clonePlatform cloneLatest k d ∧ ∀ d', cloneV.Wins clonePlatform cloneLatest k d' → deltaOrder d' d) := by
  obtain ⟨-, -, hwins, hcomm, -⟩ := board_converges clonePlatform cloneLatest cloneV
  exact ⟨by decide +kernel, hcomm cloneW merged remerged merged_isUnion remerged_isUnion,
    hwins cloneW merged merged_isUnion⟩

end Rdap.Memory
