import Rdap.Lib.SlotPool
import Rdap.Server.Ingress

/-!
# Ingress calls side by side

Each request is a call of the middleware that stops at its awaits. What an await ends with is up to
the outside: an event of the client, the end of a timeout, an answer of the authenticator, an
exception, or the cancellation of the task. All calls share the semaphore.
-/

set_option autoImplicit false

namespace Rdap.Server
open Python Protocol Lib Identity Agent

/-- What an await of the middleware, or one of the application, ends with. -/
inductive Wake where
  | acquired
  | queueTimeout
  | received (event : ReceiveEvent)
  | bodyTimeout
  /-- The authenticator ran on the ledger as it was then. -/
  | authenticated (arrival : Arrival) (db : Ledger)
  | sent
  /-- The application calls the `receive` it was given and that needs no event. -/
  | replayed
  | returned
  | raised (exc : PyExc)
  | cancelled

inductive Ending where
  | returned
  | raised (exc : PyExc)
  | cancelled

/-- Where a call waits inside the `try` that gives the slot back. -/
inductive Inside where
  | reading (body : Bytes)
  | authenticating (body : Bytes) (target : PyStr)
  | refusing (refusal : Refusal)
  | running (body : Bytes) (delivered : Bool)

inductive RpcPhase where
  /-- The application runs on a request that is not for the RPC route. -/
  | passing
  /-- An error is sent without a slot. -/
  | refusing (refusal : Refusal)
  | queued
  | holding (inside : Inside)
  | finished (ending : Ending)

/-- A call, with what it did so far: the scopes it called the application with, what the `receive` of the
application returned, the errors it sent, and what it did with the semaphore. -/
structure RpcCall where
  phase : RpcPhase
  entered : List Scope := []
  handed : List ReceiveEvent := []
  refusals : List Refusal := []
  acquired : Nat := 0
  released : Nat := 0

def tooLarge : Refusal := .error 413 (lit "request body too large")

variable (P : Platform) (m : RpcIngressLimitMiddleware) (scope : Scope)

/-- `__call__` up to its first await. -/
def RpcCall.start : RpcCall :=
  let refuse (refusal : Refusal) : RpcCall := { phase := .refusing refusal, refusals := [refusal] }
  if ¬ scope.isRpc P then { phase := .passing, entered := [scope] }
  else
    match declaredLength P scope with
    | .error _ => refuse (.error 400 (lit "invalid content length"))
    | .ok declared =>
      if declared.any fun n => (m.maxBodyBytes : Int) < n then refuse tooLarge else { phase := .queued }

/-! ## The `try` block

A step leads to the next await inside the block, or ends the block. -/

abbrev BlockStep := RpcCall × (Inside ⊕ Ending)

def RpcCall.refuse (c : RpcCall) (refusal : Refusal) : BlockStep :=
  ({ c with refusals := c.refusals ++ [refusal] }, .inl (.refusing refusal))

/-- `await self.app(scope, replay_receive, send)` -/
def RpcCall.enter (c : RpcCall) (seen : Scope) (body : Bytes) : BlockStep :=
  ({ c with entered := c.entered ++ [seen] }, .inl (.running body false))

/-- From the complete body to the authenticator. -/
def RpcCall.collected (c : RpcCall) (body : Bytes) : BlockStep :=
  match m.ravenAuthenticator with
  | none => c.enter scope body
  | some _ =>
    if (rawHeaders .empty false scope.headers).2 then c.refuse authorizationFailed
    else
      match requestTarget scope with
      | .error _ => c.refuse (.error 400 (lit "invalid request target"))
      | .ok target => (c, .inl (.authenticating body target))

/-- An event while `_body` collects. -/
def RpcCall.chunk (c : RpcCall) (body : Bytes) : ReceiveEvent → BlockStep
  | .disconnect => (c, .inr .returned)
  | .other => c.refuse (.error 400 (lit "invalid request body"))
  | .request chunk moreBody =>
    if m.maxBodyBytes < body.length + chunk.length then c.refuse tooLarge
    else if moreBody then (c, .inl (.reading (body ++ chunk)))
    else c.collected m scope (body ++ chunk)

/-- From the answer of the authenticator to the application. -/
def RpcCall.judged (c : RpcCall) (body : Bytes) :
    Except PyExc (Bool × PyStr × PyStr) → BlockStep
  | .error e => (c, .inr (.raised e))
  | .ok (present, _, owner) =>
    if owner = [] ∧ (m.requireRavenAuth ∨ present) then c.refuse authorizationFailed
    else c.enter { scope with ravenOwner := some (if owner = [] then openOwner scope else owner) } body

def RpcCall.inside (c : RpcCall) : Inside → Wake → Option BlockStep
  | _, .cancelled => some (c, .inr .cancelled)
  | .reading body, .received event => some (c.chunk m scope body event)
  | .reading _, .bodyTimeout => some (c.refuse (.error 408 (lit "request body timeout")))
  | .reading _, .raised e =>
    some (if e.kind.isValueError then c.refuse (.error 400 (lit "invalid request body"))
      else (c, .inr (.raised e)))
  | .authenticating body target, .authenticated arrival db =>
    m.ravenAuthenticator.map fun auth =>
      c.judged m scope body (auth.authenticate P (rawHeaders .empty false scope.headers).1 scope.method target body
        arrival.policy arrival.faults arrival.now arrival.later db).1
  | .refusing _, .sent => some (c, .inr .returned)
  | .running body false, .replayed =>
    some ({ c with handed := c.handed ++ [.request body false] }, .inl (.running body true))
  | .running body true, .received event =>
    some ({ c with handed := c.handed ++ [event] }, .inl (.running body true))
  | .running _ _, .returned => some (c, .inr .returned)
  | .authenticating _ _, .raised e | .refusing _, .raised e | .running _ _, .raised e => some (c, .inr (.raised e))
  | _, _ => none

/-! ## A call, and all of them -/

/-- `finally: self._slots.release()`, however the block ends. -/
def leave : BlockStep → RpcCall × SlotUse
  | (c, .inl inside) => ({ c with phase := .holding inside }, .keep)
  | (c, .inr ending) => ({ c with phase := .finished ending, released := c.released + 1 }, .give)

def RpcCall.step (c : RpcCall) (wake : Wake) : Option (RpcCall × SlotUse) :=
  match c.phase, wake with
  | .holding inside, wake => (c.inside P m scope inside wake).map leave
  | .queued, .acquired => some ({ c with phase := .holding (.reading []), acquired := c.acquired + 1 }, .take)
  | .queued, .queueTimeout =>
    some ({ c with phase := .refusing (.error 503 hintRpcCapacity)
                   refusals := c.refusals ++ [.error 503 hintRpcCapacity] }, .keep)
  | .passing, .received event => some ({ c with handed := c.handed ++ [event] }, .keep)
  | .refusing _, .sent | .passing, .returned => some ({ c with phase := .finished .returned }, .keep)
  | .queued, .raised e | .refusing _, .raised e | .passing, .raised e =>
    some ({ c with phase := .finished (.raised e) }, .keep)
  | .queued, .cancelled | .refusing _, .cancelled | .passing, .cancelled =>
    some ({ c with phase := .finished .cancelled }, .keep)
  | _, _ => none

def RpcCall.Holds (c : RpcCall) : Prop := ∃ inside, c.phase = .holding inside

/-- One call alone. -/
def callMachine : Machine RpcCall Wake := fun c wake => (c.step P m scope wake).map Prod.fst

/-- The calls of all requests. -/
def ingress (scopes : Nat → Scope) : Machine (SlotPool Nat RpcCall) (Nat × Wake) :=
  SlotPool.machine fun i c wake => c.step P m (scopes i) wake

def ingressStart (maxConcurrent : Nat) (scopes : Nat → Scope) : SlotPool Nat RpcCall :=
  ⟨maxConcurrent, fun i => .start P m (scopes i)⟩

end Rdap.Server
