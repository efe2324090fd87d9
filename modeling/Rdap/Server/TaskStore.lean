import Mathlib.Data.Prod.Lex
import Mathlib.Data.List.Lex
import Mathlib.Data.List.Perm.Basic
import Rdap.Lib.KeyedTable
import Rdap.Lib.Machine
import Rdap.Server.Task

/-!
# The bounded task store

One map for all owners with a running byte total beside it. Every operation first drops
expired terminal rows, and a save drops further terminal rows if it needs the room. The
clock is any ordered type with a subtraction, and no law of it is used: a step back, or an
overflow, changes which terminal rows go and nothing else.
-/

set_option autoImplicit false

namespace Rdap.Server
open Python Lib

def maxOwnerKeyBytes : Nat := 1024
def maxTaskIdKeyBytes : Nat := 4096
def entryOverheadBytes : Nat := 512

/-- Owner and task id. -/
abbrev Key := PyStr × PyStr

inductive StoreError where
  | invalidParams (message : PyStr)
  | capacity (message : PyStr)
  | raised (exc : PyExc)
  deriving DecidableEq

/-- What the store takes from the protobuf runtime and the SDK. -/
structure Sdk where
  byteSize : Task → Nat
  toJsonString : Timestamp → PyStr
  decodePageToken : PyStr → Except StoreError PyStr
  encodePageToken : PyStr → PyStr
  defaultListTasksPageSize : Int

structure Limits (T : Type) [Zero T] [LT T] where
  maxCount : Nat
  maxBytes : Nat
  ttlSeconds : T
  positive : 0 < maxCount ∧ 0 < maxBytes ∧ 0 < ttlSeconds

structure Entry (T : Type) where
  task : Task
  updatedAt : T
  size : Nat

structure Store (T : Type) where
  entries : KeyedTable Key (Entry T)
  totalBytes : Int

def Store.empty {T : Type} : Store T := ⟨.empty, 0⟩

section
variable {T : Type} [LinearOrder T] [Zero T] [Sub T] (sdk : Sdk) (limits : Limits T)

/-- `len(text.encode('utf-8'))` -/
def utf8Length (text : PyStr) : Except StoreError Nat :=
  match encodeUtf8 text with
  | .ok b => .ok b.length
  | .error e => .error (.raised e)

/-- `_owner`, on what the owner resolver returned. -/
def checkOwner (owner : PyStr) : Except StoreError Nat := do
  let bytes ← utf8Length owner
  if bytes > maxOwnerKeyBytes then .error (.invalidParams (lit "oversized task owner"))
  else return bytes

def checkTaskId (taskId : PyStr) (message : PyStr) : Except StoreError Unit := do
  let bytes ← utf8Length taskId
  if bytes > maxTaskIdKeyBytes then .error (.invalidParams message) else return ()

namespace Store

/-- `_remove_locked` -/
def remove (s : Store T) (key : Key) : Store T :=
  match s.entries.get? key with
  | some entry => ⟨s.entries.erase key, s.totalBytes - entry.size⟩
  | none => s

def removeAll (s : Store T) (keys : List Key) : Store T := keys.foldl remove s

def expired (now : T) (entry : Entry T) : Bool :=
  entry.task.terminal && limits.ttlSeconds ≤ now - entry.updatedAt

/-- `_prune_expired_locked` -/
def prune (now : T) (s : Store T) : Store T :=
  s.removeAll ((s.entries.rows.filter fun row => expired limits now row.2).map Prod.fst)

/-- Oldest first, ties by key. -/
def candidateLe (a b : T × Key) : Bool :=
  a.1 < b.1 || (a.1 = b.1 && (a.2.1 < b.2.1 || (a.2.1 = b.2.1 && a.2.2 ≤ b.2.2)))

/-- The terminal rows under other keys in the order in which they may be evicted. -/
def candidates (s : Store T) (key : Key) : List (T × Key) :=
  ((s.entries.rows.filter fun row => row.1 ≠ key ∧ row.2.task.terminal).map fun row =>
    (row.2.updatedAt, row.1)).mergeSort candidateLe

def fits (count bytes : Int) : Bool := count ≤ limits.maxCount && bytes ≤ limits.maxBytes

def sizeAt (s : Store T) (key : Key) : Nat := ((s.entries.get? key).map Entry.size).getD 0

/-- The loop of `_evictions_for_locked` from the given projections on. -/
def evictionLoop (s : Store T) : Int → Int → List Key → Option (List Key)
  | _, _, [] => none
  | count, bytes, victim :: rest =>
    if fits limits (count - 1) (bytes - s.sizeAt victim) then some [victim]
    else (evictionLoop s (count - 1) (bytes - s.sizeAt victim) rest).map (victim :: ·)

def evictionsFor (s : Store T) (key : Key) (incomingSize : Nat) : Option (List Key) :=
  let count : Int := s.entries.count + if s.entries.contains key then 0 else 1
  let bytes : Int := s.totalBytes - s.sizeAt key + incomingSize
  if fits limits count bytes then some []
  else s.evictionLoop limits count bytes ((s.candidates key).map Prod.snd)

def put (s : Store T) (key : Key) (entry : Entry T) : Store T :=
  ⟨s.entries.set key entry, s.totalBytes + entry.size⟩

/-- The critical section of `save` for a task that is not rejected. -/
def saveSized (s : Store T) (now : T) (key : Key) (task : Task) (size : Nat) :
    Except StoreError Unit × Store T :=
  let pruned := s.prune limits now
  match pruned.evictionsFor limits key size with
  | none =>
    (.error (.capacity (lit "task store capacity exhausted by active or oversized work")), pruned)
  | some victims => (.ok (), ((pruned.removeAll victims).remove key).put key ⟨task, now, size⟩)

/-- The critical section of `save` for a rejected task. -/
def discard (s : Store T) (now : T) (key : Key) : Store T :=
  let pruned := s.prune limits now
  match pruned.entries.get? key with
  | some entry => if entry.task.rejected then pruned.remove key else pruned
  | none => pruned

def save (s : Store T) (owner : PyStr) (task : Task) (now : T) : Except StoreError Unit × Store T :=
  match checkOwner owner with
  | .error e => (.error e, s)
  | .ok ownerBytes =>
    if task.id = [] then (.error (.invalidParams (lit "invalid or oversized task id")), s)
    else
      match checkTaskId task.id (lit "invalid or oversized task id") with
      | .error e => (.error e, s)
      | .ok _ =>
        if task.rejected then (.ok (), s.discard limits now (owner, task.id))
        else
          let size := sdk.byteSize task + ownerBytes + entryOverheadBytes
          if size > limits.maxBytes then
            (.error (.capacity (lit "task exceeds the task-store byte limit")), s)
          else s.saveSized limits now (owner, task.id) task size

def get (s : Store T) (owner taskId : PyStr) (now : T) : Except StoreError (Option Task) × Store T :=
  match checkOwner owner with
  | .error e => (.error e, s)
  | .ok _ =>
    match checkTaskId taskId (lit "oversized task id") with
    | .error e => (.error e, s)
    | .ok _ =>
      let pruned := s.prune limits now
      (.ok ((pruned.entries.get? (owner, taskId)).map Entry.task), pruned)

def delete (s : Store T) (owner taskId : PyStr) (now : T) : Except StoreError Unit × Store T :=
  match checkOwner owner with
  | .error e => (.error e, s)
  | .ok _ => (.ok (), (s.prune limits now).remove (owner, taskId))

structure Stats where
  count : Nat
  bytes : Int
  owners : Nat
  deriving DecidableEq

def stats (s : Store T) (now : T) : Stats × Store T :=
  let pruned := s.prune limits now
  (⟨pruned.entries.count, pruned.totalBytes,
    (pruned.entries.rows.map fun row => row.1.1).eraseDups.length⟩, pruned)

end Store

/-! ## Listing -/

structure ListTasksRequest where
  contextId : PyStr
  status : TaskState
  statusTimestampAfter : Option Timestamp
  pageToken : PyStr
  pageSize : Int

structure ListTasksResponse where
  nextPageToken : Option PyStr
  tasks : List Task
  totalSize : Nat
  pageSize : Int

def listed (params : ListTasksRequest) (task : Task) : Bool :=
  (params.contextId = [] || task.contextId = params.contextId) &&
  (params.status = .unspecified || task.state = params.status) &&
  match params.statusTimestampAfter, task.timestamp with
  | some after, some stamp => sdk.toJsonString after ≤ sdk.toJsonString stamp
  | some _, none => false
  | none, _ => true

/-- The sort key of a listing; an absent timestamp sorts below every other. -/
def listKey (task : Task) : Bool × PyStr × PyStr :=
  (task.timestamp.isSome, (task.timestamp.map sdk.toJsonString).getD [], task.id)

/-- Descending order of the keys. -/
def listLe (a b : Task) : Bool :=
  let x := listKey sdk a
  let y := listKey sdk b
  y.1 < x.1 || (y.1 = x.1 && (y.2.1 < x.2.1 || (y.2.1 = x.2.1 && y.2.2 ≤ x.2.2)))

def startIndex (params : ListTasksRequest) (tasks : List Task) : Except StoreError Nat :=
  if params.pageToken = [] then .ok 0
  else do
    let start ← sdk.decodePageToken params.pageToken
    match tasks.findIdx? fun task => task.id = start with
    | some index => return index
    | none => .error (.invalidParams (lit "Invalid page token: " ++ params.pageToken))

def page (params : ListTasksRequest) (tasks : List Task) : Except StoreError ListTasksResponse := do
  let start ← startIndex sdk params tasks
  let pageSize := if params.pageSize = 0 then sdk.defaultListTasksPageSize else params.pageSize
  if pageSize ≤ 0 then .error (.invalidParams (lit "page size must be positive"))
  else
    let size := min pageSize.toNat limits.maxCount
    let stop := start + size
    .ok
      { nextPageToken := (tasks[stop]?).map fun task => sdk.encodePageToken task.id
        tasks := (tasks.drop start).take size
        totalSize := tasks.length
        pageSize := size }

def Store.list (s : Store T) (owner : PyStr) (params : ListTasksRequest) (now : T) :
    Except StoreError ListTasksResponse × Store T :=
  match checkOwner owner with
  | .error e => (.error e, s)
  | .ok _ =>
    let pruned := s.prune limits now
    let own := (pruned.entries.rows.filter fun row => row.1.1 = owner).map fun row => row.2.task
    (page sdk limits params ((own.filter (listed sdk params)).mergeSort (listLe sdk)), pruned)

end

end Rdap.Server
