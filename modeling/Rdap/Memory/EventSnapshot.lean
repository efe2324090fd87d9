import Rdap.Agent.NodeIpc
import Rdap.Memory.BoardConvergence
import Rdap.Memory.BoardText
import Rdap.Memory.RecentEvents

/-!
# The event snapshot and the journal

Both scanners of the events are run on a listing of a store that only writes have touched and
that lies within the limits of both. They accept the same files, but for records whose text is
no string, and they order them in opposite directions.
-/

set_option autoImplicit false

namespace Rdap.Memory
open Python Lib Python.Json Agent

/-! ## Times -/

theorem floatOfNat_pos {n bits : Nat} (h : floatOfNat n = some bits) (hn : n ≠ 0) : 0 < bits := by
  have hcarried : ∀ c : Nat × Nat, (if 1023 < c.2 then none
      else some ((c.2 + 1023) * 2 ^ 52 + (c.1 - 2 ^ 52))) = some bits → 0 < bits := by
    intro c hc
    split at hc
    · cases hc
    · rw [← Option.some.inj hc]
      exact Nat.add_pos_left (Nat.mul_pos (by omega) (Nat.two_pow_pos 52)) _
  unfold floatOfNat at h
  rw [if_neg hn] at h
  exact hcarried _ h

variable {latest : Nat}

theorem filter_latest {stamp : Nat} (hle : stamp ≤ latest) :
    (some stamp).filter (fun s => decide (s ≤ latest)) = some stamp := by
  rw [Option.filter_some, decide_eq_true hle, if_pos rfl]

/-- A time from zero to the latest allowed has the stamp of the store. -/
theorem stampOf_instant {v : Value} {instant : Int} (h : instantOf v = some instant) (hpos : 0 ≤ instant)
    (hle : instant ≤ latest) : stampOf latest v = some instant.toNat := by
  have hbound : instant.toNat ≤ latest := by omega
  cases v with
  | int n =>
    obtain ⟨bits, hbits, hinstant⟩ := Option.map_eq_some_iff.mp h
    by_cases hn : 0 ≤ n
    · rw [if_pos hn] at hinstant
      obtain rfl : bits = instant.toNat := by omega
      have habs : n.toNat = n.natAbs := by omega
      simp only [stampOf, if_pos hn, habs, hbits]
      exact filter_latest hbound
    · rw [if_neg hn] at hinstant
      have hbits := floatOfNat_pos hbits (by omega)
      omega
  | float bits =>
    simp only [instantOf] at h
    split at h
    · rename_i hfinite
      have hnotall : ¬bits.toNat / 2 ^ 52 % 2 ^ 11 = 2047 := of_decide_eq_true hfinite
      have hinstant := Option.some.inj h
      have hstamp : stampOfBits bits.toNat = some instant.toNat := by
        unfold stampOfBits
        rw [if_neg hnotall]
        by_cases hsign : bits.toNat < 2 ^ 63
        · rw [if_pos hsign] at hinstant ⊢
          exact congrArg some (by omega)
        · rw [if_neg hsign] at hinstant ⊢
          have hzero : bits.toNat = 2 ^ 63 := by omega
          have htime : 0 = instant.toNat := by omega
          rw [if_pos hzero, htime]
      simp only [stampOf, hstamp]
      exact filter_latest hbound
    · cases h
  | none => cases h
  | bool b => cases h
  | str s => cases h
  | list items => cases h
  | dict items => cases h

theorem stampOf_none {v : Value} (h : instantOf v = none) : stampOf latest v = none := by
  cases v with
  | int n =>
    have hnone := Option.map_eq_none_iff.mp h
    unfold stampOf
    by_cases hn : 0 ≤ n
    · have habs : n.toNat = n.natAbs := by omega
      simp [hn, habs, hnone]
    · simp [hn]
  | float bits =>
    simp only [instantOf] at h
    split at h
    · cases h
    · rename_i hfinite
      have hall : bits.toNat / 2 ^ 52 % 2 ^ 11 = 2047 := by
        by_contra hnot
        exact hfinite (decide_eq_true hnot)
      simp only [stampOf, stampOfBits, if_pos hall, Option.filter_none]
  | none => rfl
  | bool b => rfl
  | str s => rfl
  | list items => rfl
  | dict items => rfl

/-! ## A listing of a store -/

def eventName (name : PyStr) : Bool := startsWith name (eventKind ++ lit "-") && (lit ".json").isSuffixOf name

/-- The files of the store that are events by their names. -/
def DeltaDirectory.events (s : DeltaDirectory) : List ((PyStr × PyStr) × Bytes) :=
  s.files.filter fun e => eventName e.1.2

/-- The writers and their files as the file system may list them, in any order. -/
structure Lists (s : DeltaDirectory) (writers : List DeltaWriter) : Prop where
  directories : (writers.map DeltaWriter.name).Perm s.writers
  listed : ∀ w ∈ writers, w.files.isSome = true
  sound : ∀ w ∈ writers, ∀ f ∈ w.files.getD [], f.Sound
  files : ∀ w ∈ writers, ((w.files.getD []).map fun f => ((w.name, f.name), f.content)).Perm
    (s.files.filter fun e => e.1.1 = w.name)

/-- The store listed in its own order. -/
def DeltaDirectory.listing (s : DeltaDirectory) : List DeltaWriter := s.writers.map fun w =>
  ⟨w, some ((s.files.filter fun e => e.1.1 = w).map fun e => ⟨e.1.2, true, true, 1, e.2, true⟩), true⟩

theorem lists_listing (s : DeltaDirectory) : Lists s s.listing := by
  refine ⟨?_, ?_, ?_, ?_⟩
  · unfold DeltaDirectory.listing
    rw [List.map_map]
    exact List.Perm.of_eq (List.map_id s.writers)
  · intro w hw
    obtain ⟨name, -, rfl⟩ := List.mem_map.mp hw
    rfl
  · intro w hw f hf
    obtain ⟨name, -, rfl⟩ := List.mem_map.mp hw
    obtain ⟨e, -, rfl⟩ := List.mem_map.mp hf
    exact ⟨rfl, rfl, rfl, rfl⟩
  · intro w hw
    obtain ⟨name, -, rfl⟩ := List.mem_map.mp hw
    apply List.Perm.of_eq
    rw [Option.getD_some, List.map_map]
    rw [List.map_congr_left (g := id), List.map_id]
    intro e he
    have hname : e.1.1 = name := of_decide_eq_true (List.mem_filter.mp he).2
    simp only [Function.comp, ← hname]
    rfl

variable (P : Platform) (latest : Nat)

/-- The time of the event in a file. -/
def eventInstant (content : Bytes) : Option Int :=
  match decodeUtf8 .strict content with
  | .error _ => none
  | .ok text =>
    match loads P text with
    | .ok (.dict record) =>
      match Dict.getD record (lit "kind") .none with
      | .str kind => if kind = eventKind then instantOf (Dict.getD record (lit "at") .none) else none
      | _ => none
    | _ => none

/-- The limits of both readers: those of `recent_events` are the narrower ones but for the times. -/
structure WithinLimits (s : DeltaDirectory) : Prop where
  writers : s.writers.length ≤ maxRecentEventWriters
  entries : s.writers.length + s.files.length ≤ maxRecentEventDirectoryEntries
  perWriter : ∀ w, (s.files.filter fun e => e.1.1 = w).length ≤ maxRecentEventEntriesPerWriter
  files : s.events.length ≤ maxRecentEventFiles
  fileBytes : ∀ e ∈ s.events, e.2.length ≤ maxRecentEventFileBytes
  totalBytes : (s.events.map fun e => e.2.length).sum < maxRecentEventTotalBytes
  times : ∀ e ∈ s.events, ∀ instant ∈ eventInstant P e.2, 0 ≤ instant ∧ instant ≤ latest

variable {P}
variable {latest : Nat} {hidden : CodePoint → Bool} {s : DeltaDirectory} {writers : List DeltaWriter}

namespace Lists

theorem names_nodup (h : Lists s writers) (hs : Written P s) : (writers.map DeltaWriter.name).Nodup :=
  h.directories.nodup_iff.mpr hs.writers_nodup

/-- A listed file is one of the store. -/
theorem mem_files (h : Lists s writers) {w : DeltaWriter} (hw : w ∈ writers) {f : DeltaFile}
    (hf : f ∈ w.files.getD []) : ((w.name, f.name), f.content) ∈ s.files := by
  have hmem := (h.files w hw).mem_iff.mp (List.mem_map_of_mem hf)
  exact (List.mem_filter.mp hmem).1

theorem fileNames_nodup (h : Lists s writers) (hs : Written P s) :
    ∀ w ∈ writers, ((w.files.getD []).map DeltaFile.name).Nodup := by
  intro w hw
  have hpaths : (((w.files.getD []).map fun f => ((w.name, f.name), f.content)).map Prod.fst).Nodup :=
    ((h.files w hw).map Prod.fst).nodup_iff.mpr (hs.files_nodup.sublist (List.filter_sublist.map Prod.fst))
  rw [List.map_map] at hpaths
  apply List.Nodup.of_map (fun name => (w.name, name))
  rw [List.map_map]
  exact hpaths

/-- All listings together hold every file of the store once. -/
theorem perm_files (h : Lists s writers) (hs : Written P s) :
    (writers.flatMap fun w => (w.files.getD []).map fun f => ((w.name, f.name), f.content)).Perm s.files := by
  have hfiles : s.files.Nodup := List.Nodup.of_map Prod.fst hs.files_nodup
  rw [List.perm_ext_iff_of_nodup ?_ hfiles]
  · intro e
    rw [List.mem_flatMap]
    constructor
    · intro hlisted
      obtain ⟨w, hw, he⟩ := hlisted
      exact (List.mem_filter.mp ((h.files w hw).mem_iff.mp he)).1
    · intro he
      obtain ⟨w, hw, hname⟩ := List.mem_map.mp (h.directories.mem_iff.mpr (hs.placed e he))
      refine ⟨w, hw, (h.files w hw).mem_iff.mpr (List.mem_filter.mpr ⟨he, ?_⟩)⟩
      exact decide_eq_true hname.symm
  · rw [List.nodup_flatMap]
    constructor
    · intro w hw
      exact (h.files w hw).nodup_iff.mpr (hfiles.filter _)
    · have hpairwise := List.pairwise_map.mp (h.names_nodup hs)
      apply hpairwise.imp
      intro w v hne e hw hv
      obtain ⟨f, -, rfl⟩ := List.mem_map.mp hw
      obtain ⟨g, -, hg⟩ := List.mem_map.mp hv
      exact hne (Prod.mk.inj (Prod.mk.inj hg).1).1.symm

/-- The listed files with names of events are the events of the store. -/
theorem perm_events (h : Lists s writers) (hs : Written P s) :
    ((namedEvents (filesOf writers)).map fun f => (f.name, f.content)).Perm
      (s.events.map fun e => (e.1.2, e.2)) := by
  have hall : ((filesOf writers).map fun f => (f.name, f.content)).Perm
      (s.files.map fun e => (e.1.2, e.2)) := by
    have hmap := (h.perm_files hs).map fun e => (e.1.2, e.2)
    rw [List.map_flatMap] at hmap
    simp only [List.map_map] at hmap
    unfold filesOf
    rw [List.map_flatMap]
    exact hmap
  have hfilter := hall.filter fun e => eventName e.1
  rw [List.filter_map, List.filter_map] at hfilter
  exact hfilter

theorem entriesOf_eq (h : Lists s writers) (hs : Written P s) :
    entriesOf writers = s.writers.length + s.files.length := by
  have hcount : ∀ ws : List DeltaWriter, entriesOf ws = ws.length + (filesOf ws).length := by
    intro ws
    induction ws with
    | nil => rfl
    | cons w rest ih =>
      rw [entriesOf_cons, ih, filesOf_cons, List.length_cons, List.length_append]
      simp only [entriesOf, List.map_cons, List.map_nil, List.sum_cons, List.sum_nil]
      omega
  have hlength := (h.perm_files hs).length_eq
  have hwriters := h.directories.length_eq
  rw [List.length_map] at hwriters
  rw [hcount, hwriters, ← hlength, filesOf, List.length_flatMap, List.length_flatMap]
  simp

end Lists

/-! ## One file, read twice -/

/-- The record has a text that can be shown. -/
def hasText (record : Dict) : Bool :=
  match Dict.getD record (lit "text") .none with
  | .str _ => true
  | _ => false

variable (hidden) in
/-- A record of the journal, reduced to its writer, time, kind and sanitised text. -/
def reduceEvent (record : Dict) : EventView where
  writer := textOf (Dict.getD record (lit "w") .none)
  instant := (instantOf (Dict.getD record (lit "at") .none)).getD 0
  kind := textOf (Dict.getD record (lit "kind") .none)
  text := sanitizeEventText hidden (textOf (Dict.getD record (lit "text") .none))

variable (hidden) in
/-- What the monitor accepts of a delta of the journal. -/
def entryOf (d : Delta) : Option EventEntry :=
  if hasText d.record then some ⟨d.stamp, d.writer, d.file, reduceEvent hidden d.record⟩ else none

/-- The record of an event names the writer and has a time that the store accepts. -/
structure Journaled (latest : Nat) (writer : PyStr) (record : Dict) : Prop where
  writer : Dict.getD record (lit "w") .none = .str writer
  times : ∀ instant, Dict.getD record (lit "kind") .none = .str eventKind →
    instantOf (Dict.getD record (lit "at") .none) = some instant → 0 ≤ instant ∧ instant ≤ latest

/-- One record counts for both readers, but for its text. -/
theorem viewOf_journaled {writer : PyStr} {record : Dict} (h : Journaled latest writer record)
    (file : PyStr) : ((viewOf hidden writer record).map fun view => EventEntry.mk view.instant writer file view) =
      ((match stampOf latest (Dict.getD record (lit "at") .none), Dict.getD record (lit "kind") .none,
          Dict.getD record (lit "w") .none with
        | some stamp, .str k, .str _ => if k = eventKind then some (stamp, record) else none
        | _, _, _ => none).map fun (r : Nat × Dict) => Delta.mk r.1 writer file r.2).bind (entryOf hidden) := by
  unfold viewOf
  rw [h.writer]
  cases hat : instantOf (Dict.getD record (lit "at") .none) with
  | none =>
    rw [stampOf_none hat]
    rfl
  | some instant =>
    cases hkind : Dict.getD record (lit "kind") .none with
    | str k =>
      by_cases hevent : k = eventKind
      · subst hevent
        obtain ⟨hpos, hle⟩ := h.times instant hkind hat
        rw [stampOf_instant hat hpos hle]
        cases htext : Dict.getD record (lit "text") .none with
        | str text =>
          have hinstant : ((instant.toNat : Nat) : Int) = instant := Int.toNat_of_nonneg hpos
          simp [entryOf, hasText, reduceEvent, h.writer, hat, hkind, htext, textOf, hinstant]
        | _ => simp [entryOf, hasText, htext]
      · have hleft : ¬(k = eventKind ∧ writer = writer) := fun hboth => hevent hboth.1
        cases stampOf latest (Dict.getD record (lit "at") .none) <;>
          cases Dict.getD record (lit "text") .none <;> simp [hevent]
    | _ => cases stampOf latest (Dict.getD record (lit "at") .none) <;> rfl

/-- One file counts for both readers, but for its text. -/
theorem eventOf_eq {writer : PyStr} {f : DeltaFile} (hsound : f.Sound)
    (hsize : f.named eventKind = true → f.content.length ≤ maxRecentEventFileBytes)
    (hjournal : f.named eventKind = true → ∀ text record, decodeUtf8 .strict f.content = .ok text →
      loads P text = .ok (.dict record) → Journaled latest writer record) :
    eventOf P hidden writer f = (deltaOf P latest eventKind writer f).bind (entryOf hidden) := by
  cases hnamed : f.named eventKind with
  | false => simp [eventOf, deltaOf, DeltaFile.reads, hnamed]
  | true =>
    have hplain : f.plain = true := by
      have hlength : f.content.length ≤ maxDeltaFileBytes :=
        le_trans (hsize hnamed) (by unfold maxRecentEventFileBytes maxDeltaFileBytes; omega)
      simp [DeltaFile.plain, hsound.stat, hsound.regular, hsound.link, hlength]
    have hreads : f.reads eventKind = true := by simp [DeltaFile.reads, hnamed, hplain, hsound.opens]
    unfold eventOf deltaOf readEvent readRecord
    rw [if_pos hnamed, if_pos hreads]
    cases hdecode : decodeUtf8 .strict f.content with
    | error e => rfl
    | ok text =>
      cases hload : loads P text with
      | error e => simp [hload]
      | ok v =>
        cases v with
        | dict record =>
          simp only [hload]
          exact viewOf_journaled (hjournal hnamed text record hdecode hload) f.name
        | _ => simp [hload]

/-! ## The order of the snapshot -/

instance entryOrder_isTotal : Std.Total entryOrder where
  total a b := lexLe_total (a.instant, a.writer, a.file) (b.instant, b.writer, b.file)

instance entryOrder_isTrans : IsTrans EventEntry entryOrder where
  trans a b c hab hbc :=
    @lexLe_trans _ _ _ _ _ _ (a.instant, a.writer, a.file) (b.instant, b.writer, b.file)
      (c.instant, c.writer, c.file) hab hbc

theorem entryOrder_antisymm {a b : EventEntry} (hab : entryOrder a b) (hba : entryOrder b a) :
    a.writer = b.writer ∧ a.file = b.file := by
  have hkeys : (a.instant, a.writer, a.file) = (b.instant, b.writer, b.file) := lexLe_antisymm hab hba
  exact Prod.mk.inj (Prod.mk.inj hkeys).2

theorem entryOf_some {d : Delta} {e : EventEntry} (h : entryOf hidden d = some e) :
    hasText d.record = true ∧ e = ⟨d.stamp, d.writer, d.file, reduceEvent hidden d.record⟩ := by
  unfold entryOf at h
  split at h
  · rename_i htext
    exact ⟨htext, (Option.some.inj h).symm⟩
  · cases h

/-- Sorted deltas give sorted entries. -/
theorem pairwise_entries {ds : List Delta} (h : ds.Pairwise deltaOrder) :
    (ds.filterMap (entryOf hidden)).Pairwise entryOrder := by
  apply List.Pairwise.filterMap (entryOf hidden) _ h
  intro d d' horder e he e' he'
  obtain ⟨-, rfl⟩ := entryOf_some he
  obtain ⟨-, rfl⟩ := entryOf_some he'
  unfold deltaOrder at horder
  unfold entryOrder
  simp only [Int.ofNat_lt, Int.ofNat_inj]
  exact horder

theorem views_filterMap (ds : List Delta) : (ds.filterMap (entryOf hidden)).map EventEntry.view =
    ((ds.map Delta.record).filter hasText).map (reduceEvent hidden) := by
  induction ds with
  | nil => rfl
  | cons d rest ih =>
    rw [List.map_cons, List.filter_cons]
    cases htext : hasText d.record with
    | false =>
      have hnone : entryOf hidden d = none := by simp [entryOf, htext]
      rw [List.filterMap_cons_none hnone, ih]
      rfl
    | true =>
      have hsome : entryOf hidden d = some ⟨d.stamp, d.writer, d.file, reduceEvent hidden d.record⟩ := by
        simp [entryOf, htext]
      rw [List.filterMap_cons_some hsome, List.map_cons, ih]
      rfl

/-! ## Both readers on a store -/

theorem named_mem {w : DeltaWriter} (hw : w ∈ writers) {f : DeltaFile} (hf : f ∈ w.files.getD [])
    (hnamed : f.named eventKind = true) : f ∈ namedEvents (filesOf writers) :=
  List.mem_filter.mpr ⟨List.mem_flatMap.mpr ⟨w, hw, hf⟩, hnamed⟩

namespace Lists

variable (hP : ReprFloats P) (hs : Written P s) (h : Lists s writers) (hlimits : WithinLimits P latest s)
include hs h

theorem event_mem {f : DeltaFile} (hf : f ∈ namedEvents (filesOf writers)) :
    ∃ e ∈ s.events, e.2 = f.content := by
  have hmem := (h.perm_events hs).mem_iff.mp (List.mem_map_of_mem hf)
  obtain ⟨e, he, heq⟩ := List.mem_map.mp hmem
  exact ⟨e, he, (Prod.mk.inj heq).2⟩

include hlimits

theorem namedEvents_length : (namedEvents (filesOf writers)).length ≤ maxRecentEventFiles := by
  have hlength := (h.perm_events hs).length_eq
  rw [List.length_map, List.length_map] at hlength
  exact hlength ▸ hlimits.files

theorem namedEvents_bytes : totalBytes (namedEvents (filesOf writers)) < maxRecentEventTotalBytes := by
  have hsum := ((h.perm_events hs).map fun e => e.2.length).sum_eq
  rw [List.map_map, List.map_map] at hsum
  exact lt_of_eq_of_lt hsum hlimits.totalBytes

include hP

/-- What the two readers take from one file. -/
theorem eventOf_listed {w : DeltaWriter} (hw : w ∈ writers) {f : DeltaFile} (hf : f ∈ w.files.getD []) :
    eventOf P hidden w.name f = (deltaOf P latest eventKind w.name f).bind (entryOf hidden) := by
  have hevent : f.named eventKind = true → ∃ e ∈ s.events, e.2 = f.content := fun hnamed =>
    h.event_mem hs (named_mem hw hf hnamed)
  apply eventOf_eq (h.sound w hw f hf)
  · intro hnamed
    obtain ⟨e, he, hcontent⟩ := hevent hnamed
    exact hcontent ▸ hlimits.fileBytes e he
  · intro hnamed text record hdecode hload
    obtain ⟨d, hencoded⟩ := hs.contents _ (h.mem_files hw hf)
    refine ⟨encoded_writer hP hencoded hdecode hload, ?_⟩
    intro instant hkind hat
    obtain ⟨e, he, hcontent⟩ := hevent hnamed
    apply hlimits.times e he
    simp [eventInstant, hcontent, hdecode, hload, hkind, hat]

theorem events_eq : writers.flatMap (writerEvents P hidden) =
    (validDeltas P latest eventKind writers).filterMap (entryOf hidden) := by
  unfold validDeltas
  rw [List.filterMap_flatMap]
  apply List.flatMap_congr
  intro w hw
  unfold writerEvents writerDeltas
  rw [List.filterMap_filterMap]
  apply List.filterMap_congr
  intro f hf
  exact h.eventOf_listed hP hs hlimits hw hf

omit hP

/-- The store reads all its events. -/
theorem readDeltas_eq : readDeltas P latest eventKind (some writers) =
    (validDeltas P latest eventKind writers).insertionSort deltaOrder := by
  have hkind : isDeltaKind eventKind = true := by decide
  have hwriters : writers.length ≤ maxRecentEventWriters := by
    have hlength := h.directories.length_eq
    rw [List.length_map] at hlength
    exact hlength ▸ hlimits.writers
  have hentries := h.entriesOf_eq hs ▸ hlimits.entries
  have hfiles := h.namedEvents_length hs hlimits
  have hbytes := h.namedEvents_bytes hs hlimits
  have hscanned : (scannedFiles (sortByName DeltaWriter.name writers)).Perm (filesOf writers) := by
    have hsorted : (scannedFiles (sortByName DeltaWriter.name writers)).Perm
        (filesOf (sortByName DeltaWriter.name writers)) :=
      List.Perm.flatMap_left _ fun w _ => sortByName_perm _ _
    exact hsorted.trans ((sortByName_perm _ _).flatMap_right _)
  have hnamed := hscanned.filter (DeltaFile.named eventKind)
  apply readDeltas_within hkind (h.names_nodup hs) (h.fileNames_nodup hs)
  · unfold maxRecentEventWriters at hwriters
    unfold maxDeltaWriters
    omega
  · unfold maxRecentEventDirectoryEntries at hentries
    unfold maxDeltaDirectoryEntries
    omega
  · apply fits_of_few
    · rw [List.countP_eq_length_filter, hnamed.length_eq]
      unfold maxRecentEventFiles namedEvents at hfiles
      unfold maxDeltaFiles
      omega
    · have hsum : ∀ fs : List DeltaFile, (fs.map fun f => f.content.length + 1).sum =
          totalBytes fs + fs.length := by
        intro fs
        induction fs with
        | nil => rfl
        | cons f rest ih =>
          simp only [totalBytes, List.map_cons, List.sum_cons, List.length_cons] at ih ⊢
          omega
      rw [(hnamed.map _).sum_eq, hsum]
      unfold maxRecentEventFiles namedEvents at hfiles
      unfold maxRecentEventTotalBytes namedEvents at hbytes
      unfold maxDeltaTotalBytes
      omega

/-- The journal does not depend on how the directories are listed. -/
theorem read_eq {others : List DeltaWriter} (hothers : Lists s others) :
    DeltaStore.read P latest eventKind (some writers) = DeltaStore.read P latest eventKind (some others) := by
  have hdeltas : ∀ {ws : List DeltaWriter}, Lists s ws → ∀ d, d ∈ validDeltas P latest eventKind ws ↔
      ∃ e ∈ s.files, deltaOf P latest eventKind e.1.1 ⟨e.1.2, true, true, 1, e.2, true⟩ = some d := by
    intro ws hws d
    rw [mem_validDeltas]
    constructor
    · intro hd
      obtain ⟨w, hw, f, hf, hdelta⟩ := hd
      refine ⟨_, hws.mem_files hw hf, ?_⟩
      rwa [← (hws.sound w hw f hf).eq]
    · intro hd
      obtain ⟨e, he, hdelta⟩ := hd
      have hlisted := (hws.perm_files hs).mem_iff.mpr he
      obtain ⟨w, hw, hfile⟩ := List.mem_flatMap.mp hlisted
      obtain ⟨f, hf, rfl⟩ := List.mem_map.mp hfile
      refine ⟨w, hw, f, hf, ?_⟩
      rwa [(hws.sound w hw f hf).eq]
  have hperm : (validDeltas P latest eventKind writers).Perm (validDeltas P latest eventKind others) := by
    rw [List.perm_ext_iff_of_nodup (validDeltas_nodup (h.names_nodup hs) (h.fileNames_nodup hs))
      (validDeltas_nodup (hothers.names_nodup hs) (hothers.fileNames_nodup hs))]
    intro d
    rw [hdeltas h, hdeltas hothers]
  unfold DeltaStore.read
  rw [h.readDeltas_eq hs hlimits, hothers.readDeltas_eq hs hlimits]
  congr 1
  apply insertionSort_eq_of_perm hperm
  intro a ha b hb hab hba
  obtain ⟨hwriter, hfile⟩ := deltaOrder_antisymm hab hba
  exact validDeltas_unique (h.names_nodup hs) (h.fileNames_nodup hs) ha hb hwriter hfile

include hP

/-- The snapshot holds the entries of the journal in the opposite order. -/
theorem sortDescending_eq : sortDescending (visitEventWriters P hidden writers {}).accepted =
    ((readDeltas P latest eventKind (some writers)).filterMap (entryOf hidden)).reverse := by
  have hwriters : writers.length ≤ maxRecentEventWriters := by
    have hlength := h.directories.length_eq
    rw [List.length_map] at hlength
    exact hlength ▸ hlimits.writers
  have haccepted : (visitEventWriters P hidden writers {}).accepted =
      (validDeltas P latest eventKind writers).filterMap (entryOf hidden) := by
    rw [← h.events_eq hP hs hlimits]
    have hall := @visitEventWriters_all P hidden writers {} (by simpa using hwriters)
      (by rw [h.entriesOf_eq hs]; simpa using hlimits.entries)
      (fun w hw => by
        have hlength := (h.files w hw).length_eq
        rw [List.length_map] at hlength
        exact hlength ▸ hlimits.perWriter w.name)
      (by simpa using h.namedEvents_length hs hlimits) (by simpa using h.namedEvents_bytes hs hlimits)
      (fun w hw => hs.names _ (h.directories.mem_iff.mp (List.mem_map_of_mem hw))) h.listed
      (fun f hf => by
        obtain ⟨w, hw, hfile⟩ := List.mem_flatMap.mp hf
        exact h.sound w hw f hfile)
      (fun f hf => by
        obtain ⟨e, he, hcontent⟩ := h.event_mem hs hf
        exact hcontent ▸ hlimits.fileBytes e he) rfl
    exact hall
  have hread := h.readDeltas_eq hs hlimits
  have hsorted : ((readDeltas P latest eventKind (some writers)).filterMap (entryOf hidden)).Pairwise
      entryOrder := by
    rw [hread]
    exact pairwise_entries (List.pairwise_insertionSort deltaOrder _)
  have hperm : ((visitEventWriters P hidden writers {}).accepted.reverse.insertionSort entryOrder).Perm
      ((readDeltas P latest eventKind (some writers)).filterMap (entryOf hidden)) := by
    rw [hread, haccepted]
    apply (List.perm_insertionSort entryOrder _).trans
    apply (List.reverse_perm _).trans
    exact (List.perm_insertionSort deltaOrder _).symm.filterMap _
  unfold sortDescending
  rw [hperm.eq_of_pairwise _ (List.pairwise_insertionSort entryOrder _) hsorted]
  intro a b ha hb hab hba
  have hvalid : ∀ e ∈ (readDeltas P latest eventKind (some writers)).filterMap (entryOf hidden),
      ∃ d ∈ validDeltas P latest eventKind writers, entryOf hidden d = some e := by
    intro e he
    obtain ⟨d, hd, hentry⟩ := List.mem_filterMap.mp he
    rw [hread] at hd
    exact ⟨d, (List.mem_insertionSort deltaOrder).mp hd, hentry⟩
  obtain ⟨d, hd, hentry⟩ := hvalid a (hperm.mem_iff.mp ha)
  obtain ⟨d', hd', hentry'⟩ := hvalid b hb
  obtain ⟨hwriter, hfile⟩ := entryOrder_antisymm hab hba
  obtain ⟨-, rfl⟩ := entryOf_some hentry
  obtain ⟨-, rfl⟩ := entryOf_some hentry'
  rw [validDeltas_unique (h.names_nodup hs) (h.fileNames_nodup hs) hd hd' hwriter hfile]

/-- The snapshot of any listing of the store is the end of its journal. -/
theorem recentEvents_eq (limit : Value) : recentEvents P hidden limit (some writers) =
    ((((DeltaStore.read P latest eventKind (some writers)).filter hasText).map
      (reduceEvent hidden)).reverse).take (requestedEvents limit) := by
  unfold recentEvents
  by_cases hzero : requestedEvents limit = 0
  · rw [if_pos hzero, hzero, List.take_zero]
  · rw [if_neg hzero]
    simp only
    rw [h.sortDescending_eq hP hs hlimits, List.map_take, List.map_reverse, views_filterMap]
    rfl

end Lists

/-! ## Every store -/

/-- On a store that writes alone have made, `recent_events` shows, in any listing, the last of the
journal's events with a text, the newest first. -/
theorem recentEvents_snapshot (P : Platform) (hP : ReprFloats P) (latest : Nat) (hidden : CodePoint → Bool)
    (writes : List DeltaWrite) (hlimits : WithinLimits P latest (storeAfter P writes))
    (writers : List DeltaWriter) (hlists : Lists (storeAfter P writes) writers) (limit : Value) :
    recentEvents P hidden limit (some writers) =
      ((((DeltaStore.read P latest eventKind (some writers)).filter hasText).map
        (reduceEvent hidden)).reverse).take (requestedEvents limit) ∧
    ∀ others, Lists (storeAfter P writes) others →
      recentEvents P hidden limit (some others) = recentEvents P hidden limit (some writers) ∧
        DeltaStore.read P latest eventKind (some others) =
          DeltaStore.read P latest eventKind (some writers) := by
  have hs : Written P (storeAfter P writes) := storeAfter_written writes
  refine ⟨hlists.recentEvents_eq hP hs hlimits limit, ?_⟩
  intro others hothers
  have hread := hothers.read_eq hs hlimits hlists
  refine ⟨?_, hread⟩
  rw [hothers.recentEvents_eq hP hs hlimits limit, hlists.recentEvents_eq hP hs hlimits limit, hread]

section Sample

def showAll : CodePoint → Bool := fun _ => false

/-- An event of this writer, with what it has besides the fields of every record. -/
def eventBy (writer : PyStr) (payload : Dict) (h : (payload.map Prod.fst).Nodup) : DeltaWrite :=
  ⟨writer, eventKind, payload, h, 0, 0, lit "abcdef"⟩

/-- Two writers at one time. -/
def textedStore : DeltaDirectory := storeAfter pointedPlatform
  [eventBy (lit "a") [(lit "text", .str (lit "hi"))] (by decide),
    eventBy (lit "b") [(lit "text", .str (lit "yo"))] (by decide)]

theorem textedStore_limits : WithinLimits pointedPlatform 0 textedStore where
  writers := by decide +kernel
  entries := by decide +kernel
  perWriter w := le_trans (List.length_filter_le _ _) (by decide +kernel)
  files := by decide +kernel
  fileBytes := by decide +kernel
  totalBytes := by decide +kernel
  times := by decide +kernel

theorem texted_shown : recentEvents pointedPlatform showAll (.int 5) (some textedStore.listing) =
    [⟨lit "b", 0, eventKind, lit "yo"⟩, ⟨lit "a", 0, eventKind, lit "hi"⟩] := by
  have hsnapshot := recentEvents_snapshot pointedPlatform pointedPlatform_floats 0 showAll _
    textedStore_limits _ (lists_listing _) (.int 5)
  rw [textedStore, hsnapshot.1]
  decide +kernel

/-- An event without a text, which a write accepts. -/
def untextedStore : DeltaDirectory := storeAfter pointedPlatform [eventBy (lit "a") [] List.nodup_nil]

theorem untextedStore_limits : WithinLimits pointedPlatform 0 untextedStore where
  writers := by decide +kernel
  entries := by decide +kernel
  perWriter w := le_trans (List.length_filter_le _ _) (by decide +kernel)
  files := by decide +kernel
  fileBytes := by decide +kernel
  totalBytes := by decide +kernel
  times := by decide +kernel

/-- The journal has the event without a text, and the monitor does not show it. -/
theorem untexted_skipped :
    WithinLimits pointedPlatform 0 untextedStore ∧ Lists untextedStore untextedStore.listing ∧
    recentEvents pointedPlatform showAll (.int 1) (some untextedStore.listing) = [] ∧
    (((DeltaStore.read pointedPlatform 0 eventKind (some untextedStore.listing)).map
      (reduceEvent showAll)).reverse).take (requestedEvents (.int 1)) ≠ [] :=
  ⟨untextedStore_limits, lists_listing _, by decide +kernel, by decide +kernel⟩

end Sample

end Rdap.Memory
