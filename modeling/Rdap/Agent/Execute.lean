import Rdap.Lib.Program
import Rdap.Agent.CancelRouting
import Rdap.Server.Task

/-!
# The execution of a request

`execute` as the operations it asks of its surroundings, each answered by anything that the
surroundings can answer, exceptions and the cancellation of the coroutine included. Whatever
stands between a request and its authorization is a read; the team memory, Git, the cancel
events and the brain come after it.
-/

set_option autoImplicit false

namespace Rdap.Agent
open Python Protocol Lib Identity Server

/-- What an `await` or a call can end with instead of a value. `except Exception` does not
catch the cancellation of a coroutine. -/
inductive Raised where
  | exception (e : PyExc)
  | cancelled
  deriving DecidableEq

/-- `type(exc).__name__` -/
def typeName : ExcKind → PyStr
  | .valueError => lit "ValueError"
  | .unicodeEncodeError => lit "UnicodeEncodeError"
  | .unicodeDecodeError => lit "UnicodeDecodeError"
  | .binasciiError => lit "Error"
  | .typeError => lit "TypeError"
  | .overflowError => lit "OverflowError"
  | .keyError => lit "KeyError"
  | .runtimeError => lit "RuntimeError"
  | .recursionError => lit "RecursionError"
  | .permissionError => lit "PermissionError"
  | .osError => lit "OSError"
  | .indexError => lit "IndexError"
  | .attributeError => lit "AttributeError"
  | .invalidTag => lit "InvalidTag"
  | .structError => lit "error"
  | .assertionError => lit "AssertionError"

/-- What `execute` reads of the request context; the calls on it may raise. -/
structure Incoming where
  taskId : PyStr
  contextId : PyStr
  /-- Task id and context id of `current_task`. -/
  currentTask : Option (PyStr × PyStr)
  messageId : PyStr
  /-- `get_user_input()` -/
  userInput : Except PyExc Value
  /-- The metadata of the message, or what reading it raises. -/
  metadata : Except PyExc Dict
  /-- `str(context.call_context.user.user_name)` -/
  userName : Except PyExc PyStr
  isAuthenticated : Bool

/-- What the worker thread of `authorize` finds: the policy files, two clock readings, the
replay ledger, and how the database fares. -/
structure Authority where
  policy : Policy
  faults : Faults
  now : Int
  later : Int
  ledger : Ledger

/-- What is enqueued for the dispatcher of the SDK. -/
inductive TaskEvent where
  | task (id contextId : PyStr) (state : TaskState) (message : Option PyStr)
  | status (state : TaskState) (message : Option PyStr)
  | artifact (text : PyStr) (metadata : Option Dict)

inductive Operation where
  /-- `uuid.uuid4().hex` -/
  | freshId
  | authorize
  | enqueue (event : TaskEvent)
  | register (owner taskId messageId : PyStr)
  | unregister (owner taskId messageId : PyStr)
  | logEvent (text : PyStr)
  | runBrain (text : PyStr)
  /-- The clock and the random nonce of the reply's signature. -/
  | clockAndNonce
  | sync

/-- The answers to an operation. -/
abbrev Operation.Answer : Operation → Type
  | freshId => PyStr
  | authorize => Except Raised Authority
  | enqueue _ | logEvent _ | sync => Except Raised Unit
  | register _ _ _ | unregister _ _ _ => Unit
  | runBrain _ => Except Raised PyStr
  | clockAndNonce => Int × Bytes

/-- Operations that only look, as an authorization does that refuses (`authorize_refuses`). -/
def Operation.reads : Operation → Bool
  | freshId | authorize | clockAndNonce => true
  | _ => false

abbrev Script := Program Operation Operation.Answer

def ask (op : Operation) : Script op.Answer := Program.perform op

/-- The operations of a run that change something. -/
def mutations (es : List (Program.Event Operation Operation.Answer)) : List Operation :=
  (es.map Sigma.fst).filter fun op => !op.reads

variable (P : Platform)

/-- `{f'raven.{key}': str(value) for key, value in block.items()}` -/
def ravenStrings (block : Dict) : Except PyExc Dict :=
  block.mapM fun (key, value) => do
    let text ← pyStr P value
    return (lit "raven." ++ key, .str text)

def Incoming.requestContext (r : Incoming) (userName wireText : PyStr) (metadata : Dict) :
    RequestContext :=
  ⟨userName, r.isAuthenticated, r.messageId, metadata, wireText⟩

/-- The text and the metadata before any check. -/
def Incoming.read (r : Incoming) : Except PyExc (PyStr × Dict) :=
  match r.userInput with
  | .error e => .error e
  | .ok (.str wireText) => r.metadata.map fun metadata => (wireText, metadata)
  | .ok _ => .error ⟨.typeError, lit "A2A user input must be text"⟩

/-- What a request comes to: a refusal, or a text with its metadata. -/
inductive Verdict where
  | denied (reason : PyStr)
  | granted (owner wireText : PyStr) (md : Dict)

/-- `authorize` on what the worker thread finds. -/
def Incoming.judge (ex : Executor) (r : Incoming) (wireText : PyStr) (metadata : Dict)
    (au : Authority) : Verdict :=
  match r.userName with
  | .error _ => .denied unavailable
  | .ok owner =>
    let ctx := r.requestContext owner wireText metadata
    match (Agent.authorize P ex au.policy ctx au.faults au.now au.later au.ledger).1 with
    | (true, _) => .granted owner wireText (extractRavenMeta ctx)
    | (false, reason) => .denied reason

/-- The `try` around the authorization. -/
def Incoming.authorization (ex : Executor) (r : Incoming) : Script (Except Raised Verdict) :=
  match r.read with
  | .error _ => pure (.ok (.denied unavailable))
  | .ok (wireText, metadata) => do
    match ← ask .authorize with
    | .ok au => return .ok (r.judge P ex wireText metadata au)
    | .error (.exception _) => return .ok (.denied unavailable)
    | .error .cancelled => return .error .cancelled

/-- `context.task_id or (task.id if task else uuid.uuid4().hex)` -/
def Incoming.chooseTaskId (r : Incoming) : Script PyStr :=
  if r.taskId ≠ [] then pure r.taskId
  else
    match r.currentTask with
    | some (id, _) => pure id
    | none => ask .freshId

/-- `context.context_id or (task.context_id if task else None) or uuid.uuid4().hex` -/
def Incoming.chooseContextId (r : Incoming) : Script PyStr :=
  if r.contextId ≠ [] then pure r.contextId
  else
    match r.currentTask with
    | some (_, id) => if id ≠ [] then pure id else ask .freshId
    | none => ask .freshId

/-! ## Steps that can raise -/

abbrev Step := ExceptT Raised Script

def ofExcept {α : Type} : Except PyExc α → Step α
  | .ok a => pure a
  | .error e => throw (.exception e)

def enqueue (event : TaskEvent) : Step Unit := ExceptT.mk (ask (.enqueue event))

def logEvent (text : PyStr) : Step Unit := ExceptT.mk (ask (.logEvent text))

def runBrain (text : PyStr) : Step PyStr := ExceptT.mk (ask (.runBrain text))

def clockAndNonce : Step (Int × Bytes) := ExceptT.lift (ask .clockAndNonce)

def rejection (taskId contextId reason : PyStr) : TaskEvent :=
  .task taskId contextId .rejected (some (lit "raven delegation rejected: " ++ reason))

/-- `str(meta["sender"])` -/
def metaSender (md : Dict) : Except PyExc PyStr :=
  match md.find? fun item => item.1 = lit "sender" with
  | some (_, value) => pyStr P value
  | none => .error ⟨.keyError, lit "'sender'"⟩

/-- The signed metadata of a reply, for a request that had some. -/
def replyMetadata (ex : Executor) (r : Incoming) (md : Dict) (answer : PyStr) :
    Step (Option Dict) :=
  match ex.identity with
  | some identity =>
    if md = [] then pure none
    else do
      let (now, nonceRaw) ← clockAndNonce
      let sender ← ofExcept (metaSender P md)
      let reply ← ofExcept
        (signDelegation P identity answer sender r.messageId (lit "answer") {} now nonceRaw)
      return some (← ofExcept (ravenStrings P reply))
  | none => pure none

/-- The body of the `try` around the work. -/
def Incoming.work (ex : Executor) (r : Incoming) (taskId text : PyStr) (md : Dict) : Step Unit := do
  enqueue (.status .submitted none)
  enqueue (.status .working none)
  logEvent (lit "incoming task: " ++ text.take 120)
  if md ≠ [] then
    let sender ← ofExcept (metaSender P md)
    logEvent (lit "delegation verified: " ++ sender)
  enqueue (.status .working (some (lit "delegation verified — running brain…")))
  let answer ← runBrain text
  let reply ← replyMetadata P ex r md answer
  enqueue (.artifact answer reply)
  enqueue (.status .completed none)
  logEvent (lit "task done: " ++ taskId.take 8)

/-- `except Exception as exc` -/
def onFailure (taskId : PyStr) (e : PyExc) : Step Unit := do
  logEvent (lit "task FAILED (" ++ taskId.take 8 ++ lit "): " ++ e.message)
  enqueue (.status .failed (some (typeName e.kind ++ lit ": " ++ e.message)))

def handleFailure (taskId : PyStr) : Except Raised Unit → Script (Except Raised Unit)
  | .error (.exception e) => (onFailure taskId e).run
  | outcome => pure outcome

/-- The `finally` clause, which swallows what the sync raises. -/
def cleanUp (owner taskId messageId : PyStr) (outcome : Except Raised Unit) : Step Unit := do
  ExceptT.lift (ask (.unregister owner taskId messageId))
  match ← ExceptT.lift (ask .sync) with
  | .error .cancelled => throw .cancelled
  | _ => ExceptT.mk (pure outcome)

/-- An authorized request: its registration, the work, and the clauses behind it. -/
def Incoming.perform (ex : Executor) (r : Incoming) (taskId contextId owner wireText : PyStr)
    (md : Dict) : Step Unit := do
  let text := strip wireText
  if r.currentTask.isNone then enqueue (.task taskId contextId .submitted none)
  ExceptT.lift (ask (.register owner taskId r.messageId))
  let outcome ← ExceptT.lift (r.work P ex taskId text md).run
  let outcome ← ExceptT.lift (handleFailure taskId outcome)
  cleanUp owner taskId r.messageId outcome

/-- What follows the authorization. -/
def Incoming.settle (ex : Executor) (r : Incoming) (taskId contextId : PyStr) :
    Except Raised Verdict → Script (Except Raised Unit)
  | .error raised => pure (.error raised)
  | .ok (.denied reason) => (enqueue (rejection taskId contextId reason)).run
  | .ok (.granted owner wireText md) => (r.perform P ex taskId contextId owner wireText md).run

def Incoming.execute (ex : Executor) (r : Incoming) : Script (Except Raised Unit) := do
  let taskId ← r.chooseTaskId
  let contextId ← r.chooseContextId
  let verdict ← r.authorization P ex
  r.settle P ex taskId contextId verdict

/-! ## What the parts can call -/

variable {P} {Q : Operation → Prop}

theorem calls_chooseTaskId (r : Incoming) (h : Q .freshId) : r.chooseTaskId.Calls Q := by
  unfold Incoming.chooseTaskId
  split
  · trivial
  · split
    · trivial
    · exact Program.calls_perform.mpr h

theorem calls_chooseContextId (r : Incoming) (h : Q .freshId) : r.chooseContextId.Calls Q := by
  unfold Incoming.chooseContextId
  split
  · trivial
  · split
    · split
      · trivial
      · exact Program.calls_perform.mpr h
    · exact Program.calls_perform.mpr h

theorem calls_authorization (ex : Executor) (r : Incoming) (h : Q .authorize) :
    (r.authorization P ex).Calls Q := by
  unfold Incoming.authorization
  split
  · trivial
  · apply Program.calls_bind (Program.calls_perform.mpr h)
    rintro (_ | _)
    · split <;> trivial
    · trivial

theorem calls_ofExcept {α : Type} (x : Except PyExc α) : (ofExcept x).run.Calls Q := by
  cases x <;> trivial

theorem calls_enqueue {event : TaskEvent} (h : Q (.enqueue event)) :
    (enqueue event).run.Calls Q := Program.calls_perform.mpr h

theorem calls_logEvent {text : PyStr} (h : Q (.logEvent text)) : (logEvent text).run.Calls Q :=
  Program.calls_perform.mpr h

theorem calls_replyMetadata (ex : Executor) (r : Incoming) (md : Dict) (answer : PyStr)
    (h : Q .clockAndNonce) : (replyMetadata P ex r md answer).run.Calls Q := by
  unfold replyMetadata
  split
  · split
    · trivial
    · apply Program.calls_run_bind (Program.calls_run_lift (Program.calls_perform.mpr h))
      intro clock
      apply Program.calls_run_bind (calls_ofExcept _)
      intro sender
      apply Program.calls_run_bind (calls_ofExcept _)
      intro reply
      apply Program.calls_run_bind (calls_ofExcept _)
      intro strings
      trivial
  · trivial

/-- The work is done on the text it was given and on no other. -/
theorem calls_work (ex : Executor) (r : Incoming) (taskId text : PyStr) (md : Dict)
    (h : ∀ op, (∀ other, op = .runBrain other → other = text) → Q op) :
    (r.work P ex taskId text md).run.Calls Q := by
  have hquiet : ∀ op, (∀ other, op ≠ .runBrain other) → Q op := fun op hop =>
    h op fun other heq => absurd heq (hop other)
  have henqueue : ∀ event, (enqueue event).run.Calls Q := fun event =>
    calls_enqueue (hquiet _ (by simp))
  have hlog : ∀ line, (logEvent line).run.Calls Q := fun line => calls_logEvent (hquiet _ (by simp))
  have hbrain : (runBrain text).run.Calls Q :=
    Program.calls_perform.mpr (h _ fun other heq => (Operation.runBrain.inj heq).symm)
  unfold Incoming.work
  refine Program.calls_run_bind (henqueue _) fun _ => ?_
  refine Program.calls_run_bind (henqueue _) fun _ => ?_
  refine Program.calls_run_bind (hlog _) fun _ => ?_
  have hrest : (do
      enqueue (.status .working (some (lit "delegation verified — running brain…")))
      let answer ← runBrain text
      let reply ← replyMetadata P ex r md answer
      enqueue (.artifact answer reply)
      enqueue (.status .completed none)
      logEvent (lit "task done: " ++ taskId.take 8) : Step Unit).run.Calls Q := by
    refine Program.calls_run_bind (henqueue _) fun _ => ?_
    refine Program.calls_run_bind hbrain fun answer => ?_
    refine Program.calls_run_bind (calls_replyMetadata ex r md answer (hquiet _ (by simp)))
      fun reply => ?_
    refine Program.calls_run_bind (henqueue _) fun _ => ?_
    exact Program.calls_run_bind (henqueue _) fun _ => hlog _
  split
  · refine Program.calls_run_bind (calls_ofExcept _) fun sender => ?_
    exact Program.calls_run_bind (hlog _) fun _ => hrest
  · exact hrest

theorem calls_onFailure (taskId : PyStr) (e : PyExc) (h : ∀ op, (∀ text, op ≠ .runBrain text) → Q op) :
    (onFailure taskId e).run.Calls Q :=
  Program.calls_run_bind (calls_logEvent (h _ (by simp))) fun _ => calls_enqueue (h _ (by simp))

theorem calls_perform (ex : Executor) (r : Incoming) (taskId contextId owner wireText : PyStr)
    (md : Dict) (h : ∀ op, (∀ text, op = .runBrain text → text = strip wireText) → Q op) :
    (r.perform P ex taskId contextId owner wireText md).run.Calls Q := by
  have hquiet : ∀ op, (∀ text, op ≠ .runBrain text) → Q op := fun op hop =>
    h op fun text heq => absurd heq (hop text)
  have hask : ∀ op, (∀ text, op ≠ .runBrain text) →
      (ExceptT.lift (ask op) : Step op.Answer).run.Calls Q := fun op hop =>
    Program.calls_run_lift (Program.calls_perform.mpr (hquiet op hop))
  have hregistered : (do
      ExceptT.lift (ask (.register owner taskId r.messageId))
      let outcome ← ExceptT.lift (r.work P ex taskId (strip wireText) md).run
      let outcome ← ExceptT.lift (handleFailure taskId outcome)
      cleanUp owner taskId r.messageId outcome : Step Unit).run.Calls Q := by
    refine Program.calls_run_bind (hask _ (by simp)) fun _ => ?_
    refine Program.calls_run_bind (Program.calls_run_lift (calls_work ex r taskId _ md h))
      fun outcome => ?_
    refine Program.calls_run_bind (Program.calls_run_lift ?_) fun outcome' => ?_
    · unfold handleFailure
      split
      · exact calls_onFailure taskId _ hquiet
      · trivial
    · refine Program.calls_run_bind (hask _ (by simp)) fun _ => ?_
      refine Program.calls_run_bind (hask _ (by simp)) fun answer => ?_
      split <;> trivial
  unfold Incoming.perform
  simp only
  split
  · exact Program.calls_run_bind (calls_enqueue (hquiet _ (by simp))) fun _ => hregistered
  · exact hregistered

end Rdap.Agent
