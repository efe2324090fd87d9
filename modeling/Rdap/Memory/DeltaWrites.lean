import Rdap.Lib.LastWrite
import Rdap.Memory.Deltas
import Rdap.Python.JsonSpaced
import Rdap.Python.JsonValues
import Rdap.Python.Raise

/-!
# Writes to the delta store

A write puts one file below the directory of its writer and replaces what stood there under the
same name. Every record of a store that only writes have touched names the directory it is in.
-/

set_option autoImplicit false

namespace Rdap.Memory
open Python Lib Python.Json

/-! ## The writer -/

def maxWriterChars : Nat := 40

/-- `[A-Za-z0-9_.-]` -/
def isWriterChar (c : CodePoint) : Bool :=
  (65 ≤ c.val && c.val ≤ 90) || (97 ≤ c.val && c.val ≤ 122) || (48 ≤ c.val && c.val ≤ 57) ||
    c.val = 95 || c.val = 46 || c.val = 45

/-- `[A-Za-z0-9_.-]{1,40}` -/
def isWriterName (name : PyStr) : Bool :=
  name ≠ [] && name.length ≤ maxWriterChars && name.all isWriterChar

/-- The names that Windows keeps for its devices. -/
def reservedStems : List PyStr :=
  [lit "CON", lit "PRN", lit "AUX", lit "NUL"] ++
    (lit "123456789").flatMap fun number => [lit "COM" ++ [number], lit "LPT" ++ [number]]

variable (P : Platform)

/-- `str(writer or 'system')` -/
def rawWriter (writer : PyStr) : PyStr := if writer = [] then lit "system" else writer

/-- `re.sub(r'[^A-Za-z0-9_.-]', '_', raw_writer)[:40]` -/
def boundedWriter (raw : PyStr) : PyStr :=
  (raw.map fun c => if isWriterChar c then c else 95).take maxWriterChars

/-- `DeltaStore.__init__`: the directory of a writer. -/
def safeWriter (writer : PyStr) : Except PyExc PyStr :=
  let raw := rawWriter writer
  let safe := boundedWriter raw
  let stem := P.upper (safe.takeWhile fun c => c ≠ 46)
  if safe ≠ raw ∨ safe = [] ∨ safe ∈ [lit ".", lit ".."] ∨ stem ∈ reservedStems then do
    let encoded ← encodeUtf8 raw
    return lit "writer-" ++ (hex (P.sha256 encoded)).take 24
  else .ok safe

/-! ## A write -/

/-- One call of `write` on the store of a writer. -/
structure DeltaWrite where
  writer : PyStr
  kind : PyStr
  payload : Dict
  payload_names : (payload.map Prod.fst).Nodup
  /-- `time.time()` for the record. -/
  clock : UInt64
  /-- `int(time.time() * 1000)` for the name of the file. -/
  millis : Int
  /-- `uuid.uuid4().hex[:6]` -/
  token : PyStr

/-- `{**payload, 'w': self.writer, 'at': time.time(), 'kind': kind}` -/
def DeltaWrite.record (d : DeltaWrite) (writer : PyStr) : Dict :=
  dictSet (dictSet (dictSet d.payload (lit "w") (.str writer)) (lit "at") (.float d.clock)) (lit "kind")
    (.str d.kind)

def DeltaWrite.encoded (d : DeltaWrite) (writer : PyStr) : Except PyExc Bytes := do
  let text ← dumpsSpaced P (.dict (d.record writer))
  encodeUtf8 (text ++ lit "\n")

def DeltaWrite.fileName (d : DeltaWrite) : PyStr :=
  d.kind ++ lit "-" ++ intDecimal d.millis ++ lit "-" ++ d.token ++ lit ".json"

/-- The directories of the writers, and the files by writer and name. -/
structure DeltaDirectory where
  writers : List PyStr := []
  files : List ((PyStr × PyStr) × Bytes) := []
deriving DecidableEq

/-- `d.mkdir(parents=True, exist_ok=True)` -/
def DeltaDirectory.mkdir (s : DeltaDirectory) (writer : PyStr) : DeltaDirectory :=
  if writer ∈ s.writers then s else { s with writers := s.writers ++ [writer] }

/-- `os.replace(temporary, f)` -/
def DeltaDirectory.replace (s : DeltaDirectory) (writer file : PyStr) (content : Bytes) : DeltaDirectory :=
  { s with files := upsert (writer, file) content s.files }

/-- `DeltaStore.write`: the store after the call, whether it returns or raises. -/
def DeltaStore.write (d : DeltaWrite) (s : DeltaDirectory) : Except PyExc (PyStr × PyStr) × DeltaDirectory :=
  match safeWriter P d.writer with
  | .error e => (.error e, s)
  | .ok writer =>
    if isDeltaKind d.kind = false then
      (valueError (lit "delta kind must be a bounded lowercase identifier"), s)
    else
      let s := s.mkdir writer
      match d.encoded P writer with
      | .error e => (.error e, s)
      | .ok content =>
        if maxDeltaFileBytes < content.length then
          (valueError (lit "delta exceeds the compiled file-size limit"), s)
        else (.ok (writer, d.fileName), s.replace writer d.fileName content)

/-- The store after these writes to an empty one. -/
def storeAfter (writes : List DeltaWrite) : DeltaDirectory :=
  writes.foldl (fun s d => (DeltaStore.write P d s).2) {}

/-! ## The directory of a writer -/

variable {P}

theorem hexChar_writerChar {d : Nat} (hd : d < 16) : isWriterChar (hexChar d) = true := by
  have hdecide : ∀ d : Fin 16, isWriterChar (hexChar d) = true := by decide
  exact hdecide ⟨d, hd⟩

theorem hex_writerChar (b : Bytes) : (hex b).all isWriterChar = true := by
  simp only [hex, List.all_eq_true, List.mem_flatMap]
  intro c hc
  obtain ⟨x, -, hx⟩ := hc
  have hlt := x.toNat_lt
  rcases List.mem_cons.mp hx with rfl | hx
  · apply hexChar_writerChar
    omega
  · obtain rfl := List.mem_singleton.mp hx
    apply hexChar_writerChar
    omega

theorem boundedWriter_name {raw : PyStr} (h : boundedWriter raw ≠ []) :
    isWriterName (boundedWriter raw) = true := by
  have hlength : (boundedWriter raw).length ≤ maxWriterChars := by
    unfold boundedWriter
    rw [List.length_take]
    omega
  have hchars : (boundedWriter raw).all isWriterChar = true := by
    rw [List.all_eq_true]
    intro c hc
    obtain ⟨c', -, rfl⟩ := List.mem_map.mp (List.mem_of_mem_take hc)
    split
    · assumption
    · rfl
  simp only [isWriterName, Bool.and_eq_true, decide_eq_true_eq]
  exact ⟨⟨h, hlength⟩, hchars⟩

theorem digestWriter_name (digest : Bytes) : isWriterName (lit "writer-" ++ (hex digest).take 24) = true := by
  have hlength : (lit "writer-").length = 7 := rfl
  have hhead : (lit "writer-").all isWriterChar = true := by decide
  have htake : ((hex digest).take 24).all isWriterChar = true := by
    rw [List.all_eq_true]
    intro c hc
    exact List.all_eq_true.mp (hex_writerChar digest) c (List.mem_of_mem_take hc)
  have hne : lit "writer-" ++ (hex digest).take 24 ≠ [] := fun hnil => by cases hnil
  simp only [isWriterName, Bool.and_eq_true, decide_eq_true_eq, List.all_append, hhead, htake, and_true]
  refine ⟨hne, ?_⟩
  rw [List.length_append, hlength, List.length_take, maxWriterChars]
  omega

theorem safeWriter_name {raw writer : PyStr} (h : safeWriter P raw = .ok writer) :
    isWriterName writer = true := by
  unfold safeWriter at h
  simp only at h
  split at h
  · obtain ⟨encoded, -, hname⟩ := bind_ok.mp h
    obtain rfl := pure_ok.mp hname
    exact digestWriter_name _
  · rename_i hgood
    obtain rfl := Except.ok.inj h
    exact boundedWriter_name fun hnil => hgood (Or.inr (Or.inl hnil))

/-! ## Dictionaries -/

theorem record_nodup (d : DeltaWrite) (writer : PyStr) : ((d.record writer).map Prod.fst).Nodup :=
  dictSet_nodup (dictSet_nodup (dictSet_nodup d.payload_names _ _) _ _) _ _

theorem record_writer (d : DeltaWrite) (writer : PyStr) (default : Value) :
    Dict.getD (d.record writer) (lit "w") default = .str writer := by
  have hkind : lit "w" ≠ lit "kind" := by decide
  have hat : lit "w" ≠ lit "at" := by decide
  unfold DeltaWrite.record
  rw [getD_dictSet, if_neg hkind, getD_dictSet, if_neg hat, getD_dictSet, if_pos rfl]

/-! ## What is in a store -/

/-- A store that holds what `write` puts there. -/
structure Written (P : Platform) (s : DeltaDirectory) : Prop where
  writers_nodup : s.writers.Nodup
  names : ∀ w ∈ s.writers, isWriterName w = true
  placed : ∀ e ∈ s.files, e.1.1 ∈ s.writers
  files_nodup : (s.files.map Prod.fst).Nodup
  contents : ∀ e ∈ s.files, ∃ d : DeltaWrite, d.encoded P e.1.1 = .ok e.2

theorem mem_mkdir {s : DeltaDirectory} {writer w : PyStr} :
    w ∈ (s.mkdir writer).writers ↔ w ∈ s.writers ∨ w = writer := by
  unfold DeltaDirectory.mkdir
  split
  · rename_i hold
    constructor
    · exact Or.inl
    · rintro (hw | rfl)
      · exact hw
      · exact hold
  · rw [List.mem_append, List.mem_singleton]

theorem Written.mkdir {s : DeltaDirectory} (h : Written P s) {writer : PyStr}
    (hname : isWriterName writer = true) : Written P (s.mkdir writer) := by
  have hfiles : (s.mkdir writer).files = s.files := by
    unfold DeltaDirectory.mkdir
    split <;> rfl
  refine ⟨?_, ?_, ?_, hfiles ▸ h.files_nodup, hfiles ▸ h.contents⟩
  · unfold DeltaDirectory.mkdir
    split
    · exact h.writers_nodup
    · rename_i hnew
      rw [← List.concat_eq_append]
      exact h.writers_nodup.concat hnew
  · intro w hw
    rcases mem_mkdir.mp hw with hw | rfl
    · exact h.names w hw
    · exact hname
  · intro e he
    rw [hfiles] at he
    exact mem_mkdir.mpr (Or.inl (h.placed e he))

theorem Written.replace {s : DeltaDirectory} (h : Written P s) {d : DeltaWrite} {writer : PyStr}
    (hwriter : writer ∈ s.writers) {content : Bytes} (hcontent : d.encoded P writer = .ok content)
    (file : PyStr) : Written P (s.replace writer file content) := by
  refine ⟨h.writers_nodup, h.names, ?_, upsert_nodup h.files_nodup (writer, file) content, ?_⟩
  · intro e he
    rcases (mem_upsert h.files_nodup e).mp he with rfl | ⟨-, hold⟩
    · exact hwriter
    · exact h.placed e hold
  · intro e he
    rcases (mem_upsert h.files_nodup e).mp he with rfl | ⟨-, hold⟩
    · exact ⟨d, hcontent⟩
    · exact h.contents e hold

/-- One call of `write` leaves such a store, also where it raises. -/
theorem write_written {s : DeltaDirectory} (h : Written P s) (d : DeltaWrite) :
    Written P (DeltaStore.write P d s).2 := by
  unfold DeltaStore.write
  cases hwriter : safeWriter P d.writer with
  | error e => exact h
  | ok writer =>
    have hdir := h.mkdir (safeWriter_name hwriter)
    simp only
    split
    · exact h
    · cases hcontent : d.encoded P writer with
      | error e => exact hdir
      | ok content =>
        simp only
        split
        · exact hdir
        · exact hdir.replace (mem_mkdir.mpr (Or.inr rfl)) hcontent d.fileName

theorem storeAfter_written (writes : List DeltaWrite) : Written P (storeAfter P writes) := by
  have hrun : ∀ s, Written P s → Written P (writes.foldl (fun s d => (DeltaStore.write P d s).2) s) := by
    induction writes with
    | nil => exact fun s h => h
    | cons d rest ih => exact fun s h => ih _ (write_written h d)
  apply hrun
  exact ⟨List.nodup_nil, fun w hw => absurd hw List.not_mem_nil, fun e he => absurd he List.not_mem_nil,
    List.nodup_nil, fun e he => absurd he List.not_mem_nil⟩

/-- What is read of a file that was written. -/
theorem loads_encoded (hP : ReprFloats P) {d : DeltaWrite} {writer : PyStr} {content : Bytes}
    (h : d.encoded P writer = .ok content) : ∃ text, decodeUtf8 .strict content = .ok text ∧
      loads P text = .ok (.dict (settleMembers (d.record writer))) := by
  obtain ⟨text, htext, hencode⟩ := bind_ok.mp h
  refine ⟨text ++ lit "\n", decodeUtf8_encodeUtf8 hencode .strict, ?_⟩
  rw [loads_dumpsSpaced hP htext rfl (by
    intro c hc
    obtain rfl := Option.some.inj hc
    decide), settle_dict (record_nodup d writer)]

/-- The record in a file names the directory of the file. -/
theorem encoded_writer (hP : ReprFloats P) {d : DeltaWrite} {writer : PyStr} {content : Bytes}
    (h : d.encoded P writer = .ok content) {text : PyStr} (htext : decodeUtf8 .strict content = .ok text)
    {record : Dict} (hload : loads P text = .ok (.dict record)) :
    Dict.getD record (lit "w") .none = .str writer := by
  obtain ⟨text', htext', hload'⟩ := loads_encoded hP h
  obtain rfl := Except.ok.inj (htext.symm.trans htext')
  obtain rfl := Value.dict.inj (Except.ok.inj (hload.symm.trans hload'))
  have hget := getD_settleMembers (d.record writer) (lit "w") .none
  rwa [record_writer] at hget

end Rdap.Memory
