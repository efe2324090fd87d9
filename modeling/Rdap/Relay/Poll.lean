import Mathlib.Data.List.Sort
import Rdap.Lib.Loop
import Rdap.Mesh.TaskObject
import Rdap.Relay.Delivery

/-!
# One poll

`process_inbox` over the files of the slot, then the drain of the mailbox, with what each turn
finds in its surroundings: clocks, policy files, the brain. Git, the team memory and the file
system do what they are asked to, but a file name has a longest length.
-/

set_option autoImplicit false

namespace Rdap.Relay
open Python Protocol Lib Identity Agent

def maxRelayFilesPerPoll : Nat := 256
def maxRelayDirectoryEntries : Nat := 4096
def maxMeshSeen : Nat := 512

/-- What one turn of a loop reads or draws besides the envelope. -/
structure Turn where
  policy : Policy
  verifyAt : Int
  claimAt : Int
  /-- What the brain returns, or the text that names what it raised. -/
  answer : PyStr
  replyAt : Int
  localTime : PyStr
  nonceRaw : Bytes
  completeAt : Int
  notedAt : Int
  /-- Eight digits of a fresh identifier. -/
  fresh : PyStr

/-- A regular file of a slot, its name and its content. -/
abbrev SlotFile := PyStr × Bytes

/-- What the polls keep on disk. -/
structure RelayHome where
  outcomes : Outcomes
  slot : KeyedTable PyStr Bytes
  /-- The names in the quarantine directory. -/
  quarantine : List PyStr
  /-- The files moved there, with the reasons. -/
  evidence : List (SlotFile × PyStr)
  /-- Replies as they are written, by sender and digest of the task id, the last first. -/
  outbox : List ((PyStr × PyStr) × Dict)
  /-- The tasks the brain was called for. -/
  runs : List Job
  /-- The file of mailbox objects that were seen. -/
  seen : KeyedTable PyStr Int
  /-- The dictionary in memory that a drain makes of it. -/
  noted : KeyedTable PyStr Int

abbrev Doing (α : Type) := RelayHome → Except PyExc α × RelayHome

/-! ## Reading the slot -/

/-- `bool(value)` -/
def truthy : Value → Bool
  | .none => false
  | .bool b => b
  | .int n => n ≠ 0
  | .float bits => bits.toNat % 2 ^ 63 ≠ 0
  | .str s => s ≠ []
  | .list items => !items.isEmpty
  | .dict items => !items.isEmpty

variable (P : Platform)

def parseFile (file : SlotFile) : Except PyExc Dict :=
  if maxRelayEnvelopeBytes < file.2.length then
    valueError (lit "relay envelope exceeds the compiled byte limit")
  else do
    let text ← decodeUtf8 .strict file.2
    match ← Json.loads P text with
    | .dict items => return items
    | _ => valueError (lit "relay envelope must be a JSON object")

/-- An envelope of `_read_slot`; the path stands for itself. -/
def readEnvelope (file : SlotFile) : Dict :=
  match parseFile P file with
  | .ok items => Json.dictSet items (lit "_file") (.str file.1)
  | .error e => [(lit "_file", .str file.1), (lit "_parse_error", .str e.message)]

/-- The file is no envelope, or says so. -/
def malformed (file : SlotFile) : Bool :=
  truthy (Dict.getD (readEnvelope P file) (lit "_parse_error") .none)

/-- The files that one poll considers. -/
def candidates (slot : KeyedTable PyStr Bytes) : List SlotFile :=
  ((slot.rows.insertionSort fun a b => a.1 ≤ b.1).filter fun file =>
    (lit ".json").isSuffixOf file.1).take maxRelayFilesPerPoll

/-! ## Refusals -/

/-- Bytes of a name on disk. -/
def nameLength (name : PyStr) : Nat := (encodeUtf8Replace name).length

/-- The name that a file gets in the quarantine directory. -/
def quarantineName (turn : Turn) (file : SlotFile) (taken : List PyStr) : PyStr :=
  if file.1 ∈ taken then
    -- a name that is nothing but the suffix is a stem
    if file.1 = lit ".json" then file.1 ++ lit "-" ++ turn.fresh
    else file.1.take (file.1.length - 5) ++ lit "-" ++ turn.fresh ++ lit ".json"
  else file.1

/-- `_quarantine` for a regular file. The evidence is written under a temporary name that is 26
bytes longer than that of the file. -/
def quarantine (nameLimit : Nat) (turn : Turn) (file : SlotFile) (reason : PyStr) : Doing Unit :=
  fun home =>
    let moved := { home with
      slot := home.slot.erase file.1, evidence := (file, reason) :: home.evidence }
    if maxRelayEnvelopeBytes < file.2.length then
      let name := lit "unsafe-" ++ hex (P.sha256 (encodeUtf8Replace file.1)) ++
        lit ".reason.json"
      (.ok (), { moved with quarantine := name :: home.quarantine })
    else
      let name := quarantineName turn file home.quarantine
      let tooLong : PyExc := ⟨.osError, lit "File name too long"⟩
      if nameLimit < nameLength name then (.error tooLong, home)
      else if nameLimit < nameLength name + 26 then
        (.error tooLong, { moved with quarantine := name :: home.quarantine })
      else
        (.ok (), { moved with
          quarantine := (name ++ lit ".reason.json") :: name :: home.quarantine })

/-! ## Replies -/

/-- `_write_envelope` up to the file: the bytes of the document. -/
def envelopePayload (value : Dict) : Except PyExc Bytes := do
  let text ← Json.dumps P Json.indented (.dict value)
  let payload ← encodeUtf8 (text ++ [10])
  if maxRelayEnvelopeBytes < payload.length then
    valueError (lit "relay envelope exceeds the compiled byte limit")
  else return payload

/-- The reply goes to the outbox. -/
def publish (job : Job) (reply : Dict) : Doing Unit := fun home =>
  match envelopePayload P reply with
  | .error e => (.error e, home)
  | .ok _ =>
    let path := (job.sender, hex (P.sha256 (encodeUtf8Replace job.taskId)))
    (.ok (), { home with outbox := (path, reply) :: home.outbox })

/-- A reply with a given text is built, made durable and published. -/
def conclude (node : RelayNode) (turn : Turn) (job : Job) (answer : PyStr) : Doing Unit :=
  fun home =>
    match buildReply P node job.taskId job.sender answer turn.localTime turn.replyAt turn.nonceRaw with
    | .error e => (.error e, home)
    | .ok reply =>
      match complete P noFaults turn.completeAt job.signature job.expiresAt reply home.outcomes with
      | (.error e, outcomes) => (.error e, { home with outcomes })
      | (.ok _, outcomes) => publish P job reply { home with outcomes }

/-- What both loops do with a verified task. -/
def serve (carrier : Carrier) (node : RelayNode) (turn : Turn) (job : Job) : Doing Unit :=
  fun home =>
    match claim P noFaults turn.claimAt job.signature job.expiresAt home.outcomes with
    | (.error e, outcomes) => (.error e, { home with outcomes })
    | (.ok (.completed reply), outcomes) => publish P job reply { home with outcomes }
    | (.ok .interrupted, outcomes) =>
      conclude P node turn job (interruptedAnswer carrier) { home with outcomes }
    | (.ok .new, outcomes) =>
      conclude P node turn job turn.answer { home with outcomes, runs := job :: home.runs }

/-! ## The inbox -/

def unlink (file : SlotFile) : Doing Unit := fun home =>
  (.ok (), { home with slot := home.slot.erase file.1 })

/-- One turn of `process_inbox`. -/
def inboxTurn (nameLimit : Nat) (node : RelayNode) (turns : SlotFile → Turn) (file : SlotFile) :
    Doing Unit := fun home =>
  let turn := turns file
  let envelope := readEnvelope P file
  if malformed P file then
    match pyStr P (Dict.getD envelope (lit "_parse_error") .none) with
    | .error e => (.error e, home)
    | .ok text =>
      quarantine P nameLimit turn file (lit "invalid JSON envelope: " ++ text) home
  else
    match peek P node turn.policy turn.verifyAt (.dict envelope) with
    | .error (.rejected reason) => quarantine P nameLimit turn file reason home
    | .error (.raised e) => (.error e, home)
    | .ok job => andThen (serve P .inbox node turn job) (unlink file) home

def processInbox (nameLimit : Nat) (node : RelayNode) (turns : SlotFile → Turn) : Doing Unit :=
  fun home =>
    if maxRelayDirectoryEntries < home.slot.count then
      (runtimeError (lit "relay slot exceeds its compiled directory-entry limit"), home)
    else forEach (inboxTurn P nameLimit node turns) (candidates home.slot) home

/-! ## The mailbox -/

/-- The payload that the drain goes on with. -/
def mailboxPayload (object : Bytes) : Except PyExc Value := do
  let (_, text) ← Mesh.unwrapBody P object
  Json.loads P text

def objectKey (object : Bytes) : PyStr := hex (P.sha256 object)

def note (turn : Turn) (object : Bytes) : Doing Unit := fun home =>
  (.ok (), { home with noted := home.noted.set (objectKey P object) turn.notedAt })

/-- One turn of the drain. -/
def mailboxTurn (node : RelayNode) (turns : Bytes → Turn) (object : Bytes) :
    Doing Unit := fun home =>
  let turn := turns object
  if home.noted.contains (objectKey P object) then (.ok (), home)
  else
    match mailboxPayload P object with
    | .error _ => note P turn object home
    | .ok payload =>
      match peek P node turn.policy turn.verifyAt payload with
      | .error (.rejected _) => note P turn object home
      | .error (.raised e) => (.error e, home)
      | .ok job => andThen (serve P .mailbox node turn job) (note P turn object) home

/-- The file keeps the newest entries. -/
def newestSeen (seen : KeyedTable PyStr Int) : KeyedTable PyStr Int :=
  let sorted := seen.rows.insertionSort fun a b => a.2 < b.2 ∨ a.2 = b.2 ∧ a.1 ≤ b.1
  seen.filter fun row => row ∈ sorted.drop (sorted.length - maxMeshSeen)

/-- Without objects nothing is written. -/
def saveSeen (objects : List Bytes) : Doing Unit := fun home =>
  (.ok (), if objects = [] then home else { home with seen := newestSeen home.noted })

/-- `_drain_mesh` from the objects on. -/
def drainMailbox (node : RelayNode) (turns : Bytes → Turn) (objects : List Bytes) : Doing Unit :=
  fun home =>
    andThen (forEach (mailboxTurn P node turns) objects) (saveSeen objects)
      { home with noted := newestSeen home.seen }

/-- One tick of the worker. -/
def poll (nameLimit : Nat) (node : RelayNode) (inboxTurns : SlotFile → Turn)
    (mailboxTurns : Bytes → Turn) (objects : List Bytes) : Doing Unit :=
  andThen (processInbox P nameLimit node inboxTurns) (drainMailbox P node mailboxTurns objects)

end Rdap.Relay
