import Rdap.Lib.Program
import Rdap.Memory.GitScope

/-!
# Synchronising with Git

`pull_team`, `commit_team` and `commit_push` inside the lock, as programs that call Git and the other parts
of `TeamMemory`. A command may fail at any time, with or without its effect.
-/

set_option autoImplicit false

namespace Rdap.Memory
open Python Lib

/-! ## Commands -/

/-- The Git commands of a synchronisation. -/
inductive GitCall where
  | remotes
  | symbolicRef
  | configAll (key : PyStr)
  | checkRefFormat (ref : PyStr)
  | fetch (hooksPath remote mergeRef temporaryRef : PyStr)
  | revParseTemporary (temporaryRef : PyStr)
  | deleteRef (hooksPath temporaryRef : PyStr)
  | revParseHead
  | mergeBase (older newer : PyStr)
  | merge (hooksPath target : PyStr)
  | push (hooksPath remote mergeRef : PyStr)
  | status (active : List PyStr)
  | add (active : List PyStr)
  | stagedDiff (active : List PyStr)
  | commit (hooksPath message : PyStr) (active : List PyStr)

def hooksOption (hooksPath : PyStr) : List PyStr := [lit "-c", lit "core.hooksPath=" ++ hooksPath]

def GitCall.args : GitCall → List PyStr
  | remotes => [lit "remote"]
  | symbolicRef => [lit "symbolic-ref", lit "--quiet", lit "--short", lit "HEAD"]
  | configAll key => [lit "config", lit "--get-all", key]
  | checkRefFormat ref => [lit "check-ref-format", ref]
  | fetch hooksPath remote mergeRef temporaryRef =>
    hooksOption hooksPath ++ [lit "fetch", lit "--no-tags", remote, mergeRef ++ lit ":" ++ temporaryRef]
  | revParseTemporary temporaryRef => [lit "rev-parse", lit "--verify", temporaryRef ++ lit "^\x7bcommit\x7d"]
  | deleteRef hooksPath temporaryRef => hooksOption hooksPath ++ [lit "update-ref", lit "-d", temporaryRef]
  | revParseHead => [lit "rev-parse", lit "HEAD"]
  | mergeBase older newer => [lit "merge-base", lit "--is-ancestor", older, newer]
  | merge hooksPath target =>
    [lit "-c", lit "merge.autostash=false"] ++ hooksOption hooksPath ++
      [lit "merge", lit "--ff-only", lit "--no-stat", target]
  | push hooksPath remote mergeRef =>
    hooksOption hooksPath ++ [lit "push", lit "--porcelain", lit "--no-verify", lit "--no-all", lit "--no-mirror",
      lit "--no-tags", lit "--no-follow-tags", lit "--no-prune", remote, lit "HEAD:" ++ mergeRef]
  | status active =>
    [lit "status", lit "--porcelain=v1", lit "-z", lit "--untracked-files=all", lit "--"] ++ active
  | add active => [lit "add", lit "-A", lit "--"] ++ active
  | stagedDiff active => [lit "diff", lit "--cached", lit "--quiet", lit "--"] ++ active
  | commit hooksPath message active =>
    [lit "-c", lit "commit.gpgSign=false"] ++ hooksOption hooksPath ++
      [lit "commit", lit "--only", lit "--no-verify", lit "-m", message, lit "--"] ++ active

/-- What a synchronisation calls: Git, the checks of `TeamMemory`, and `uuid.uuid4().hex`. `rangeCheck` is
`_range_is_team_only` of `older..newer`, `headCheck` is `_validate_tree_team_entries` of the head. -/
inductive SyncCall where
  | git (call : GitCall)
  | hooksPath
  | validatePaths
  | activePathspecs
  | headCheck
  | rangeCheck (older newer : PyStr)
  | hex

def SyncCall.Answer : SyncCall → Type
  | git _ => Except PyExc Completed
  | hooksPath => Except PyExc PyStr
  | validatePaths => Except PyExc Unit
  | activePathspecs => Except PyExc (List PyStr)
  | headCheck => Except PyExc Unit
  | rangeCheck _ _ => Except PyExc Unit
  | hex => PyStr

abbrev Sync (α : Type) := ExceptT PyExc (Program SyncCall SyncCall.Answer) α

namespace Sync
variable {α : Type}

def ask (call : SyncCall) : Sync call.Answer := ExceptT.lift (Program.perform call)

def ofExcept (x : Except PyExc α) : Sync α := ExceptT.mk (pure x)

def raise (message : PyStr) : Sync α := ofExcept (gitError message)

/-- `try: body finally: cleanup` -/
def tryFinally (body : Sync α) (cleanup : Sync PyStr) : Sync α := ExceptT.mk do
  let outcome ← body.run
  let cleaned ← cleanup.run
  match cleaned with
  | .error e => pure (.error e)
  | .ok _ => pure outcome

/-- `_git_checked` -/
def gitChecked (call : GitCall) : Sync PyStr := do
  let answer ← ask (.git call)
  ofExcept (Memory.gitChecked (fun _ => answer) call.args)

/-- A completed command with its output as text. -/
structure Printed where
  returncode : Int
  stdout : PyStr
  stderr : PyStr

def readCompleted (answer : Except PyExc Completed) : Except PyExc Printed := do
  let r ← answer
  let stdout ← decodeText r.stdout
  let stderr ← decodeText r.stderr
  return ⟨r.returncode, stdout, stderr⟩

/-- `_git_result` -/
def gitResult (call : GitCall) : Sync Printed := do
  let answer ← ask (.git call)
  ofExcept (readCompleted answer)

/-- `((r.stderr or '') + (r.stdout or '')).strip()[-1200:]` -/
def Printed.detail (r : Printed) : PyStr :=
  let all := strip (r.stderr ++ r.stdout)
  all.drop (all.length - 1200)

def disabledHooksPath : Sync PyStr := do
  let answer ← ask .hooksPath
  ofExcept answer

def validateOperationalTeamPaths : Sync Unit := do
  let answer ← ask .validatePaths
  ofExcept answer

def activeTeamPathspecs : Sync (List PyStr) := do
  let answer ← ask .activePathspecs
  ofExcept answer

def validateHead : Sync Unit := do
  let answer ← ask .headCheck
  ofExcept answer

def rangeIsTeamOnly (older newer : PyStr) : Sync Unit := do
  let answer ← ask (.rangeCheck older newer)
  ofExcept answer

/-! ## Histories -/

def hasRemote : Sync Bool := do
  let raw ← gitChecked .remotes
  return strip raw ≠ []

section
-- `repr` of a string
variable (repr : PyStr → PyStr)

def configuredLines (r : Printed) : List PyStr := if r.returncode = 0 then splitLines r.stdout else []

def configuredUpstream : Sync (PyStr × PyStr) := do
  let branchResult ← gitResult .symbolicRef
  let branch := strip branchResult.stdout
  if branchResult.returncode ≠ 0 ∨ branch = [] then
    raise (lit "automatic sync requires an attached local branch")
  else do
    let remoteResult ← gitResult (.configAll (lit "branch." ++ branch ++ lit ".remote"))
    let mergeResult ← gitResult (.configAll (lit "branch." ++ branch ++ lit ".merge"))
    match configuredLines remoteResult, configuredLines mergeResult with
    | [remote], [mergeRef] => do
      let configured ← gitChecked .remotes
      if remote = lit "." ∨ remote ∉ splitLines configured ∨ startsWith remote (lit "-") = true ∨
          (remote.any fun c => c.val < 32) = true then
        raise (lit "unsafe or non-network upstream remote: " ++ repr remote)
      else do
        let refCheck ← gitResult (.checkRefFormat mergeRef)
        if refCheck.returncode ≠ 0 ∨ startsWith mergeRef (lit "refs/heads/") = false then
          raise (lit "unsafe upstream merge ref: " ++ repr mergeRef)
        else return (remote, mergeRef)
    | _, _ => raise (lit "automatic sync requires exactly one configured upstream remote/ref")

def isAncestor (older newer : PyStr) : Sync Bool := do
  let r ← gitResult (.mergeBase older newer)
  if r.returncode ≠ 0 ∧ r.returncode ≠ 1 then raise (lit "cannot compare Git histories: " ++ r.detail)
  else return r.returncode = 0

/-- The output of the fetch and the head that was fetched. -/
def fetchUnlocked (remote mergeRef : PyStr) : Sync (PyStr × PyStr) := do
  let hex : PyStr ← ask .hex
  let temporaryRef := lit "refs/raven-automatic-sync/" ++ hex
  let hooksPath ← disabledHooksPath
  let output ← gitChecked (.fetch hooksPath remote mergeRef temporaryRef)
  let remoteHead ← tryFinally (gitChecked (.revParseTemporary temporaryRef)) do
    let hooksPath ← disabledHooksPath
    gitChecked (.deleteRef hooksPath temporaryRef)
  return (output, remoteHead)

/-- `text or default` -/
def orText (text default : PyStr) : PyStr := if text = [] then default else text

/-- `'\n'.join(note for note in notes if note)` -/
def joinNotes (notes : List PyStr) : PyStr := List.intercalate [10] (notes.filter (· ≠ []))

/-! ## Pulling, committing and pushing -/

/-- What `_pull_team_ff_only_unlocked` does with the two heads. -/
def fastForward (fetched head upstreamHead : PyStr) : Sync PyStr :=
  if head = upstreamHead then return orText fetched (lit "(already up-to-date)")
  else do
    let behind ← isAncestor head upstreamHead
    if behind = true then do
      rangeIsTeamOnly head upstreamHead
      let hooksPath ← disabledHooksPath
      let merged ← gitChecked (.merge hooksPath upstreamHead)
      validateOperationalTeamPaths
      return joinNotes [fetched, merged]
    else do
      let ahead ← isAncestor upstreamHead head
      if ahead = true then return orText fetched (lit "(local branch ahead)")
      else raise (lit "automatic sync refuses divergent history; reconcile it explicitly")

def pullTeamFfOnlyUnlocked : Sync PyStr := do
  let remoteThere ← hasRemote
  if remoteThere = true then do
    let (remote, mergeRef) ← configuredUpstream repr
    let (fetched, upstreamHead) ← fetchUnlocked remote mergeRef
    let head ← gitChecked .revParseHead
    fastForward fetched head upstreamHead
  else return lit "(no remote)"

/-- What `_push_team_unlocked` does with the two heads. -/
def pushForward (remote mergeRef head upstreamHead : PyStr) : Sync PyStr :=
  if head = upstreamHead then return lit "(already up-to-date)"
  else do
    let ahead ← isAncestor upstreamHead head
    if ahead = true then do
      rangeIsTeamOnly upstreamHead head
      let hooksPath ← disabledHooksPath
      gitChecked (.push hooksPath remote mergeRef)
    else
      raise (lit "remote advanced or diverged during automatic sync; retry after explicit reconciliation")

def pushTeamUnlocked : Sync PyStr := do
  let remoteThere ← hasRemote
  if remoteThere = true then do
    let (remote, mergeRef) ← configuredUpstream repr
    let (_, upstreamHead) ← fetchUnlocked remote mergeRef
    let head ← gitChecked .revParseHead
    pushForward remote mergeRef head upstreamHead
  else return lit "(no remote)"

def commitTeamUnlocked (message : PyStr) : Sync PyStr := do
  let active ← activeTeamPathspecs
  if active = [] then return lit "(nothing to commit)"
  else do
    let status ← gitChecked (.status active)
    if status = [] then return lit "(nothing to commit)"
    else do
      let _ ← gitChecked (.add active)
      let staged ← gitResult (.stagedDiff active)
      if staged.returncode = 0 then return lit "(nothing to commit)"
      else if staged.returncode ≠ 1 then raise (lit "cannot inspect staged team state: " ++ staged.detail)
      else do
        let hooksPath ← disabledHooksPath
        let out ← gitChecked (.commit hooksPath message active)
        validateHead
        validateOperationalTeamPaths
        return orText out (lit "(team state committed)")

/-! ## Under the lock -/

/-- What has come of a call. -/
inductive Outcome where
  | pulled (note : PyStr)
  | committed (note : PyStr)
  | shared (note : PyStr)

def pullTeam : Sync Outcome := do
  validateOperationalTeamPaths
  let note ← pullTeamFfOnlyUnlocked repr
  return .pulled note

def commitTeam (message : PyStr) : Sync Outcome := do
  validateOperationalTeamPaths
  let note ← commitTeamUnlocked message
  return .committed note

/-- A note that is there only with a remote. -/
def ifRemote (remoteThere : Bool) (body : Sync PyStr) : Sync PyStr :=
  if remoteThere = true then body else return []

def commitPush (message : PyStr) : Sync Outcome := do
  validateOperationalTeamPaths
  let remoteBefore ← hasRemote
  let pulled ← ifRemote remoteBefore (pullTeamFfOnlyUnlocked repr)
  let committed ← commitTeamUnlocked message
  let remoteAfter ← hasRemote
  let pushed ← ifRemote remoteAfter (pushTeamUnlocked repr)
  return .shared (joinNotes [pulled, committed, pushed])

end

end Sync

end Rdap.Memory
