import Rdap.Identity.Signing
import Rdap.Lib.History
import Rdap.Python.Control
import Rdap.Python.Lines

/-!
# The scope of automatic Git operations

`_range_is_team_only` reads the output of three Git commands. A range is accepted if every
entry of a tree has an ordinary mode and every path that a commit touches is on the list.
-/

set_option autoImplicit false

namespace Rdap.Memory
open Python Lib Identity

def maxAutomaticSyncCommits : Nat := 256

def teamSharedFiles : List PyStr :=
  [lit ".team/BOARD.md", lit ".team/GOAL.md", lit ".team/facts.md", lit ".team/journal.md"]

def teamSharedDirs : List PyStr :=
  [lit ".team/deltas", lit ".team/inbox", lit ".team/locks", lit ".team/outbox",
    lit ".team/outputs", lit ".team/quarantine"]

def teamSharedPaths : List PyStr := teamSharedFiles ++ teamSharedDirs

/-! ## Commands -/

structure Completed where
  returncode : Int
  stdout : Bytes
  stderr : Bytes

/-- `_git_result`: what the last attempt of a command came to. -/
abbrev Git := List PyStr → Except PyExc Completed

def gitError {α : Type} (message : PyStr) : Except PyExc α := .error ⟨.runtimeError, message⟩

/-- Output that was captured as text. -/
def decodeText (b : Bytes) : Except PyExc PyStr := do
  let text ← decodeUtf8 .strict b
  return translateNewlines text

def gitChecked (git : Git) (args : List PyStr) : Except PyExc PyStr := do
  let r ← git args
  let stdout ← decodeText r.stdout
  let stderr ← decodeText r.stderr
  if r.returncode ≠ 0 then
    let detail := strip (stderr ++ stdout)
    gitError (lit "git " ++ args.headD (lit "command") ++ lit " failed (" ++
      intDecimal r.returncode ++ lit "): " ++ detail.drop (detail.length - 1200))
  else return strip (stdout ++ stderr)

/-! ## Paths -/

def toSlash (c : CodePoint) : CodePoint := if c = 92 then 47 else c

/-- `while normalized.startswith('./')` -/
def dropDotSlash : PyStr → PyStr
  | c :: d :: rest => if c = 46 ∧ d = 47 then dropDotSlash rest else c :: d :: rest
  | s => s

def isSharedTeamPath (path : PyStr) : Bool :=
  let normalized := dropDotSlash (path.map toSlash)
  teamSharedFiles.contains normalized ||
    teamSharedDirs.any fun dir => normalized == dir || startsWith normalized (dir ++ [47])

/-! ## Trees -/

section
-- `repr` of a string
variable (repr : PyStr → PyStr)

def lsTreeArgs (revision : PyStr) : List PyStr :=
  [lit "ls-tree", lit "-r", lit "-t", lit "-z", lit "--full-tree", revision, lit "--"] ++
    teamSharedPaths

def isRegularBlob (mode objectType path : PyStr) : Bool :=
  (mode == lit "100644" || mode == lit "100755") && objectType == lit "blob" &&
    (teamSharedFiles.contains path || teamSharedDirs.any fun dir => startsWith path (dir ++ [47]))

def isOrdinaryTree (mode objectType path : PyStr) : Bool :=
  mode == lit "040000" && objectType == lit "tree" &&
    (path == lit ".team" ||
      teamSharedDirs.any fun dir => path == dir || startsWith path (dir ++ [47]))

def validateRecord (revision record : PyStr) : Except PyExc Unit :=
  if record = [] then .ok ()
  else
    let (metadata, found, path) := partition 9 record
    match found, splitWords metadata with
    | true, [mode, objectType, _] =>
      if isRegularBlob mode objectType path || isOrdinaryTree mode objectType path then .ok ()
      else gitError (lit "automatic Git scope rejects tree entry " ++ repr path ++ lit " (mode=" ++
        mode ++ lit ", type=" ++ objectType ++ lit ")")
    | _, _ => gitError (lit "cannot parse Git tree metadata for revision " ++ revision)

def validateTreeTeamEntries (git : Git) (revision : PyStr) : Except PyExc Unit := do
  let raw ← gitChecked git (lsTreeArgs revision)
  (raw.splitOn 0).forM (validateRecord repr revision)

/-! ## Ranges -/

def diffTreeArgs (revision : PyStr) : List PyStr :=
  [lit "diff-tree", lit "--root", lit "-m", lit "--no-commit-id", lit "--name-only", lit "-r",
    lit "-z", lit "--no-renames", revision, lit "--"]

def revListArgs (revisionRange : PyStr) : List PyStr :=
  [lit "rev-list", lit "--reverse", revisionRange, lit "--"]

def checkRevision (git : Git) (revision : PyStr) : Except PyExc Unit := do
  validateTreeTeamEntries repr git revision
  let raw ← gitChecked git (diffTreeArgs revision)
  let outside := (raw.splitOn 0).filter fun path => path ≠ [] && !isSharedTeamPath path
  if outside ≠ [] then
    gitError (lit "automatic sync refused non-.team history paths: " ++
      List.intercalate (lit ", ") (outside.take 5))
  else return ()

def rangeIsTeamOnly (git : Git) (revisionRange : PyStr) : Except PyExc Unit := do
  let raw ← gitChecked git (revListArgs revisionRange)
  let revisions := splitLines raw
  if maxAutomaticSyncCommits < revisions.length then
    gitError (lit "automatic sync refuses " ++ natDecimal revisions.length ++
      lit " commits; limit is " ++ natDecimal maxAutomaticSyncCommits)
  else revisions.forM (checkRevision repr git)

end

/-! ## What Git keeps and prints -/

/-- A path as Git stores it. -/
structure GitPath where
  bytes : Bytes
  nonempty : bytes ≠ []
  noNul : (0 : UInt8) ∉ bytes
  noTrailingSlash : bytes.getLast? ≠ some 47

structure TreeEntry where
  mode : Token
  kind : Token
  object : Token
  path : GitPath

namespace TreeEntry

def isTree (e : TreeEntry) : Prop := e.kind.text = lit "tree"

/-- A line of `ls-tree -z`. -/
def line (e : TreeEntry) : Bytes :=
  asciiBytes (e.mode.text ++ 32 :: (e.kind.text ++ 32 :: e.object.text)) ++ 9 :: e.path.bytes

end TreeEntry

/-- Commits with their parents and all entries of their trees, at every depth. -/
structure Repository where
  parents : Token → List Token
  acyclic : WellFounded fun q c => q ∈ parents c
  tree : Token → List TreeEntry

/-- The entries other than directories at a path. -/
def entriesAt (entries : List TreeEntry) (p : GitPath) : Set TreeEntry :=
  { e | e ∈ entries ∧ e.path = p ∧ ¬ e.isTree }

/-- The path was added, changed or deleted. -/
def Differs (before after : List TreeEntry) (p : GitPath) : Prop :=
  entriesAt before p ≠ entriesAt after p

namespace Repository
variable (repo : Repository)

abbrev IsParent (c q : Token) : Prop := q ∈ repo.parents c

/-- The commits of `older..newer`. -/
def range (older newer : Token) : Set Token := { c | Between repo.IsParent older newer c }

/-- A commit touches a path relative to one of its parents; a root commit adds all it has. -/
def Touches (c : Token) (p : GitPath) : Prop :=
  (repo.parents c = [] ∧ Differs [] (repo.tree c) p) ∨
    ∃ q ∈ repo.parents c, Differs (repo.tree q) (repo.tree c) p

end Repository

/-- The path is one of the shared paths or below one. -/
def IsSharedEntry (p : Bytes) : Prop :=
  ∃ s ∈ teamSharedPaths, p = asciiBytes s ∨ asciiBytes (s ++ [47]) <+: p

/-- Git prints what it documents; `listing` is the order in which it prints the touched paths. -/
structure Documented (git : Git) (repo : Repository) (older newer : Token)
    (listing : Token → List GitPath) : Prop where
  revList : ∀ r, git (revListArgs (older.text ++ lit ".." ++ newer.text)) = .ok r →
    r.returncode = 0 → ∃ commits : List Token, (∀ c, c ∈ commits ↔ c ∈ repo.range older newer) ∧
      r.stdout = terminated 10 (commits.map fun c => asciiBytes c.text)
  lsTree : ∀ c r, git (lsTreeArgs c.text) = .ok r → r.returncode = 0 →
    ∃ entries : List TreeEntry, (∀ e, e ∈ entries ↔ e ∈ repo.tree c ∧
        (IsSharedEntry e.path.bytes ∨ e.isTree ∧ e.path.bytes = asciiBytes (lit ".team"))) ∧
      r.stdout = terminated 0 (entries.map TreeEntry.line)
  listed : ∀ c p, p ∈ listing c ↔ repo.Touches c p
  diffTree : ∀ c r, git (diffTreeArgs c.text) = .ok r → r.returncode = 0 →
    r.stdout = terminated 0 ((listing c).map GitPath.bytes)

end Rdap.Memory
