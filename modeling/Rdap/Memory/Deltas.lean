import Rdap.Lib.Sorting
import Rdap.Python.Json

/-!
# The delta store

Every change of the team memory is a file of its own below a directory for its writer. A
reading scans all of them within fixed budgets and sorts what it accepts.
-/

set_option autoImplicit false

namespace Rdap.Memory
open Python Lib

def maxDeltaWriters : Nat := 512
def maxDeltaDirectoryEntries : Nat := 16384
def maxDeltaFiles : Nat := 8192
def maxDeltaFileBytes : Nat := 256 * 1024
def maxDeltaTotalBytes : Nat := 16 * 1024 * 1024

/-! ## Time stamps -/

/-- `n / 2 ^ shift` to the nearest integer, to the even one of two. -/
def roundHalfEven (n shift : Nat) : Nat :=
  let q := n / 2 ^ shift
  let r := n % 2 ^ shift
  if 2 * r > 2 ^ shift ∨ (2 * r = 2 ^ shift ∧ q % 2 = 1) then q + 1 else q

/-- `float(n)` as the bits of a double, or an `OverflowError`. -/
def floatOfNat (n : Nat) : Option Nat :=
  if n = 0 then some 0
  else
    let e := n.log2
    let m := if e ≤ 52 then n * 2 ^ (52 - e) else roundHalfEven n (e - 52)
    let carried := if m = 2 ^ 53 then (2 ^ 52, e + 1) else (m, e)
    if 1023 < carried.2 then none
    else some ((carried.2 + 1023) * 2 ^ 52 + (carried.1 - 2 ^ 52))

/-- The stamp of a finite double that is not negative: its bits, which order such doubles. -/
def stampOfBits (bits : Nat) : Option Nat :=
  if bits / 2 ^ 52 % 2 ^ 11 = 2047 then none
  else if bits < 2 ^ 63 then some bits
  else if bits = 2 ^ 63 then some 0
  else none

/-- The stamp of an `at` that is accepted: a number from zero to the latest allowed. -/
def stampOf (latest : Nat) (at_ : Value) : Option Nat :=
  let stamp := match at_ with
    | .int n => if 0 ≤ n then floatOfNat n.toNat else none
    | .float bits => stampOfBits bits.toNat
    | _ => none
  stamp.filter fun s => s ≤ latest

/-! ## The tree -/

structure DeltaFile where
  name : PyStr
  /-- `os.lstat` returns. -/
  statOk : Bool
  /-- A regular file that is no reparse point. -/
  regular : Bool
  nlink : Nat
  content : Bytes
  /-- It can be opened and is the file that was looked at. -/
  openOk : Bool

structure DeltaWriter where
  name : PyStr
  /-- The files, if the entry is a directory that can be listed. -/
  files : Option (List DeltaFile)
  /-- Whether an entry whose files cannot be listed is a directory all the same. -/
  directory : Bool := true

/-- The entries of `.team/deltas` in the order of the file system, if it can be listed. -/
abbrev DeltaTree := Option (List DeltaWriter)

structure Delta where
  stamp : Nat
  writer : PyStr
  file : PyStr
  record : Dict

def nameOrder (a b : PyStr) : Prop := a ≤ b

instance decidableNameOrder : DecidableRel nameOrder := fun a b => inferInstanceAs (Decidable (a ≤ b))

/-- `entries.sort(key=lambda entry: entry.name)` -/
def sortByName {α : Type} (name : α → PyStr) (entries : List α) : List α :=
  entries.insertionSort fun a b => nameOrder (name a) (name b)

/-- The order of `(timestamp, writer, file)`. -/
def deltaOrder (a b : Delta) : Prop :=
  a.stamp < b.stamp ∨ (a.stamp = b.stamp ∧
    (a.writer < b.writer ∨ (a.writer = b.writer ∧ a.file ≤ b.file)))

instance decidableDeltaOrder : DecidableRel deltaOrder := fun a b =>
  inferInstanceAs (Decidable (a.stamp < b.stamp ∨ (a.stamp = b.stamp ∧
    (a.writer < b.writer ∨ (a.writer = b.writer ∧ a.file ≤ b.file)))))

variable (P : Platform) (latest : Nat) (kind : PyStr)

/-- `[a-z][a-z0-9_-]{0,31}` -/
def isDeltaKind : Bool :=
  match kind with
  | [] => false
  | c :: rest => (97 ≤ c.val && c.val ≤ 122) && rest.length ≤ 31 &&
      rest.all fun c => (97 ≤ c.val && c.val ≤ 122) || (48 ≤ c.val && c.val ≤ 57) ||
        c.val = 95 || c.val = 45

def DeltaFile.named (f : DeltaFile) : Bool :=
  startsWith f.name (kind ++ lit "-") && (lit ".json").isSuffixOf f.name

def DeltaFile.plain (f : DeltaFile) : Bool :=
  f.statOk && f.regular && f.nlink == 1 && f.content.length ≤ maxDeltaFileBytes

/-- What the content of a file counts for. -/
def readRecord (content : Bytes) : Option (Nat × Dict) :=
  match decodeUtf8 .strict content with
  | .error _ => none
  | .ok text =>
    match Json.loads P text with
    | .ok (.dict record) =>
      match stampOf latest (Dict.getD record (lit "at") .none), Dict.getD record (lit "kind") .none,
        Dict.getD record (lit "w") .none with
      | some stamp, .str k, .str _ => if k = kind then some (stamp, record) else none
      | _, _, _ => none
    | _ => none

/-! ## The scan -/

structure DeltaScan where
  entriesSeen : Nat := 0
  filesSeen : Nat := 0
  bytesRead : Nat := 0
  accepted : List Delta := []

/-- One file; `none` is `return []`. -/
def visitFile (writer : PyStr) (f : DeltaFile) (scan : DeltaScan) : Option DeltaScan :=
  if f.named kind = false then some scan
  else if maxDeltaFiles ≤ scan.filesSeen ∨ maxDeltaTotalBytes ≤ scan.bytesRead then none
  else if f.plain = false then some scan
  else if maxDeltaTotalBytes - scan.bytesRead < f.content.length then none
  else if f.openOk = false then some scan
  else
    let scan := { scan with
      filesSeen := scan.filesSeen + 1, bytesRead := scan.bytesRead + f.content.length }
    match readRecord P latest kind f.content with
    | none => some scan
    | some (stamp, record) =>
      some { scan with accepted := scan.accepted ++ [⟨stamp, writer, f.name, record⟩] }

def scanFiles (writer : PyStr) : List DeltaFile → DeltaScan → Option DeltaScan
  | [], scan => some scan
  | f :: rest, scan =>
    let scan := { scan with entriesSeen := scan.entriesSeen + 1 }
    if maxDeltaDirectoryEntries < scan.entriesSeen then some scan
    else match visitFile P latest kind writer f scan with
      | none => none
      | some scan => scanFiles writer rest scan

def scanWriter (w : DeltaWriter) (scan : DeltaScan) : Option DeltaScan :=
  match w.files with
  | none => some scan
  | some files =>
    if maxDeltaDirectoryEntries - scan.entriesSeen < files.length then none
    else scanFiles P latest kind w.name (sortByName DeltaFile.name files) scan

def scanWriters : List DeltaWriter → DeltaScan → Option DeltaScan
  | [], scan => some scan
  | w :: rest, scan =>
    let scan := { scan with entriesSeen := scan.entriesSeen + 1 }
    if maxDeltaDirectoryEntries < scan.entriesSeen then some scan
    else match scanWriter P latest kind w scan with
      | none => none
      | some scan =>
        if maxDeltaDirectoryEntries < scan.entriesSeen then some scan else scanWriters rest scan

/-- `DeltaStore.read`, with what orders the records. -/
def readDeltas (tree : DeltaTree) : List Delta :=
  if isDeltaKind kind = false then []
  else match tree with
    | none => []
    | some writers =>
      if maxDeltaWriters < writers.length then []
      else match scanWriters P latest kind (sortByName DeltaWriter.name writers) {} with
        | none => []
        | some scan => scan.accepted.insertionSort deltaOrder

def DeltaStore.read (tree : DeltaTree) : List Dict := (readDeltas P latest kind tree).map Delta.record

end Rdap.Memory
