import Rdap.Lib.Machine
import Rdap.Relay.Progress

/-!
# Offline replies

`take_replies` and `ack_replies` over the files of the outbox, with the crashes that may end
either of them and the changes that Git makes to the slot in between. The replay cache is
available; whether it is full is a matter of its rows.
-/

set_option autoImplicit false

namespace Rdap.Relay
open Python Protocol Lib Identity Agent

/-- What a turn of `take_replies` reads; the cache has a clock value of its own. -/
structure Glance extends Turn where
  seenAt : Int

/-- What a turn of `ack_replies` reads. -/
structure Reading where
  insertAt : Int
  seenAt : Int

structure ReplyBox where
  clock : Int
  /-- The slot is that of the replies to this node. -/
  home : RelayHome
  ledger : Ledger
  /-- The list that the last `take_replies` made. -/
  accepted : List Dict
  /-- The lists that were returned. -/
  given : List (List Dict)
  /-- Keys and expiries that `ack_replies` inserted. -/
  acknowledged : List (PyStr × Int)

abbrev Handling := ReplyBox → Except PyExc Unit × ReplyBox

variable (P : Platform)

/-- `ReplayCache.seen` -/
def seen (now : Int) (signature : PyStr) (db : Ledger) : Except PyExc Bool :=
  (Identity.signatureHash P signature).map fun key => decide (Recorded now key db)

/-! ## Taking -/

/-- The part of the loop before `seen`: the signature of a reply that verifies. -/
def checkReply (node : RelayNode) (policy : Policy) (now : Int) (envelope : Value) :
    Except Stop PyStr := do
  let env ← orReject ExcKind.isValueError (fun e => lit "invalid answer envelope: " ++ e.message)
    (validatedEnvelope P envelope (lit "answer"))
  let signedSender ← raising (getStr P env.metadata "sender")
  ensure (env.sender = signedSender) (lit "outer sender does not match signed sender")
  ensure (env.recipient = node.address P) (lit "outer recipient mismatch")
  let peers ← raising policy.peers
  let revoked ← raising policy.revocations
  let answer ← raising (verifyDelegation P env.metadata env.text peers true revoked node.replay
    ⟨node.address P, env.taskId, lit "answer"⟩ false Identity.noFaults now now .empty).1
  ensure (answer.1 = true) answer.2
  return env.signature

/-- A reply as it is returned. -/
def verifiedReply (file : SlotFile) : Dict :=
  Json.dictSet (readEnvelope P file) (lit "_verified_reply") (.bool true)

def reject (nameLimit : Nat) (turn : Turn) (file : SlotFile) (reason : PyStr) : Handling := fun box =>
  let result := quarantine P nameLimit turn file reason box.home
  (result.1, { box with home := result.2 })

def remove (name : PyStr) : Handling := fun box =>
  (.ok (), { box with home := { box.home with slot := box.home.slot.erase name } })

/-- One turn of `take_replies`. -/
def takeTurn (nameLimit : Nat) (node : RelayNode) (glances : SlotFile → Glance) (file : SlotFile) :
    Handling := fun box =>
  let glance := glances file
  let envelope := readEnvelope P file
  if malformed P file then
    match pyStr P (Dict.getD envelope (lit "_parse_error") .none) with
    | .error e => (.error e, box)
    | .ok text => reject P nameLimit glance.toTurn file (lit "invalid JSON envelope: " ++ text) box
  else
    match checkReply P node glance.policy glance.verifyAt (.dict envelope) with
    | .error (.rejected reason) => reject P nameLimit glance.toTurn file reason box
    | .error (.raised e) => (.error e, box)
    | .ok signature =>
      match seen P glance.seenAt signature box.ledger with
      | .error e => (.error e, box)
      | .ok true => remove file.1 box
      | .ok false => (.ok (), { box with accepted := box.accepted ++ [verifiedReply P file] })

/-- `take_replies` over the candidates it has time for. -/
def takeOver (nameLimit : Nat) (node : RelayNode) (glances : SlotFile → Glance)
    (files : List SlotFile) : Handling := fun box =>
  if maxRelayDirectoryEntries < box.home.slot.count then
    (runtimeError (lit "relay slot exceeds its compiled directory-entry limit"), box)
  else forEach (takeTurn P nameLimit node glances) files { box with accepted := [] }

def takeReplies (nameLimit : Nat) (node : RelayNode) (glances : SlotFile → Glance) : Handling :=
  fun box => takeOver P nameLimit node glances (candidates box.home.slot) box

/-! ## Acknowledging -/

/-- `isinstance(value, int)` with the value. -/
def asInt : Value → Option Int
  | .bool b => some (if b then 1 else 0)
  | .int n => some n
  | _ => none

/-- What `ack_replies` reads from a reply. -/
structure ReplyMetadata where
  signature : PyStr
  expiresAt : Int
  file : PyStr

def replyMetadata (reply : Dict) : Except PyExc ReplyMetadata :=
  let get := fun key => Dict.getD reply (lit key) .none
  match get "_verified_reply" with
  | .bool true =>
    match get "raven", get "_file" with
    | .dict metadata, .str file =>
      match Dict.getD metadata (lit "signature") .none,
          asInt (Dict.getD metadata (lit "expires_at") .none) with
      | .str signature, some expiresAt => .ok { signature, expiresAt, file }
      | _, _ => valueError (lit "verified relay reply has invalid replay metadata")
    | _, _ => valueError (lit "verified relay reply lost its source metadata")
  | _ => valueError (lit "cannot acknowledge an unverified relay reply")

/-- A turn of `ack_replies` up to the removal. -/
def record (cache : ReplayCache) (readings : Dict → Reading) (reply : Dict) : Handling := fun box =>
  match replyMetadata reply with
  | .error e => (.error e, box)
  | .ok m =>
    let reading := readings reply
    match firstTime P cache Identity.noFaults reading.insertAt m.signature (some m.expiresAt)
        box.ledger with
    | (.error e, ledger) => (.error e, { box with ledger })
    | (.ok true, ledger) =>
      let keys := (Identity.signatureHash P m.signature).toOption.toList
      (.ok (), { box with
        ledger, acknowledged := keys.map (fun key => (key, m.expiresAt)) ++ box.acknowledged })
    | (.ok false, ledger) =>
      match seen P reading.seenAt m.signature ledger with
      | .error e => (.error e, { box with ledger })
      | .ok true => (.ok (), { box with ledger })
      | .ok false =>
        (runtimeError (lit "relay reply acknowledgement cache is unavailable"), { box with ledger })

def removeSource (reply : Dict) : Handling := fun box =>
  match replyMetadata reply with
  | .error _ => (.ok (), box)
  | .ok m => remove m.file box

/-- One turn of `ack_replies`. -/
def ackTurn (cache : ReplayCache) (readings : Dict → Reading) (reply : Dict) : Handling :=
  andThen (record P cache readings reply) (removeSource reply)

def ackReplies (cache : ReplayCache) (readings : Dict → Reading) (replies : List Dict) : Handling :=
  forEach (ackTurn P cache readings) replies

/-! ## Runs -/

inductive ReplyEvent where
  /-- Whatever Git leaves in the slot. -/
  | git (slot : KeyedTable PyStr Bytes)
  | tick (seconds : Nat)
  | take (glances : SlotFile → Glance) (done : Int)
  /-- The process ends after some turns. -/
  | takeCrash (glances : SlotFile → Glance) (done : Int) (turns : Nat)
  /-- One of the lists that were returned is acknowledged. -/
  | ack (readings : Dict → Reading) (list : Nat) (done : Int)
  /-- The process ends after some turns, or between the insertion and the removal of the next. -/
  | ackCrash (readings : Dict → Reading) (list : Nat) (done : Int) (turns : Nat) (inserted : Bool)

/-- The clock goes forward: a call reads it between its beginning and its end. -/
def within (box : ReplyBox) (done now : Int) : Bool := box.clock ≤ now && now ≤ done

def glancesWithin (box : ReplyBox) (done : Int) (glances : SlotFile → Glance) : Bool :=
  box.clock ≤ done && (candidates box.home.slot).all fun file =>
    within box done (glances file).verifyAt && within box done (glances file).seenAt

def readingsWithin (box : ReplyBox) (done : Int) (readings : Dict → Reading)
    (replies : List Dict) : Bool :=
  box.clock ≤ done && replies.all fun reply =>
    within box done (readings reply).insertAt && within box done (readings reply).seenAt

/-- The turns that a crash leaves to `ack_replies`. -/
def ackUpTo (cache : ReplayCache) (readings : Dict → Reading) (replies : List Dict) (turns : Nat)
    (inserted : Bool) : Handling :=
  andThen (ackReplies P cache readings (replies.take turns)) fun box =>
    match replies[turns]?, inserted with
    | some reply, true => record P cache readings reply box
    | _, _ => (.ok (), box)

/-- A list that was returned is in the hands of the caller. -/
def returned (result : Except PyExc Unit × ReplyBox) : ReplyBox :=
  match result.1 with
  | .ok _ => { result.2 with given := result.2.accepted :: result.2.given }
  | .error _ => result.2

def replyStep (nameLimit : Nat) (node : RelayNode) : Machine ReplyBox ReplyEvent := fun box event =>
  match event with
  | .git slot => some { box with home := { box.home with slot } }
  | .tick seconds => some { box with clock := box.clock + seconds }
  | .take glances done =>
    if glancesWithin box done glances then
      some { returned (takeReplies P nameLimit node glances box) with clock := done }
    else none
  | .takeCrash glances done turns =>
    if glancesWithin box done glances then
      let files := (candidates box.home.slot).take turns
      some { (takeOver P nameLimit node glances files box).2 with clock := done }
    else none
  | .ack readings list done => do
    let replies ← box.given[list]?
    if readingsWithin box done readings replies then
      some { (ackReplies P node.replay readings replies box).2 with clock := done }
    else none
  | .ackCrash readings list done turns inserted => do
    let replies ← box.given[list]?
    if readingsWithin box done readings replies then
      some { (ackUpTo P node.replay readings replies turns inserted box).2 with clock := done }
    else none

end Rdap.Relay
