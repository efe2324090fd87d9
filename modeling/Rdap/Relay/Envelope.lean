import Rdap.Agent.Authorize
import Rdap.Python.JsonRoundTrip
import Rdap.Relay.OutcomeStore

/-!
# Relay envelopes

What the inbox and the mailbox have in common: the checks on an envelope, the verification
that does not consume the signature, and the signed reply.
-/

set_option autoImplicit false

namespace Rdap.Relay
open Python Protocol Lib Identity Agent

def maxRelayTextChars : Nat := 64 * 1024
def maxRelayTextBytes : Nat := 192 * 1024
def maxRelayAnswerBytes : Nat := 48 * 1024

variable (P : Platform)

/-! ## Checks on an envelope -/

/-- `rvn1[0-9a-z]{20,124}` -/
def isPeerComponent (peer : PyStr) : Bool :=
  let tail := peer.drop 4
  startsWith peer (lit "rvn1") && 20 ≤ tail.length && tail.length ≤ 124 &&
    tail.all fun c => (48 ≤ c.val && c.val ≤ 57) || (97 ≤ c.val && c.val ≤ 122)

def validatePeerComponent (peer : PyStr) : Except PyExc Unit :=
  if isPeerComponent peer then .ok ()
  else valueError (lit "relay peer must be a canonical path-safe RVN address")

/-- `if c: raise ValueError(message)`, with the condition turned round. -/
def require (c : Prop) [Decidable c] (message : PyStr) : Except PyExc Unit :=
  if c then .ok () else valueError message

def checkUnicode (name : String) (value : PyStr) : Except PyExc Bytes :=
  match encodeUtf8 value with
  | .ok encoded => .ok encoded
  | .error _ => valueError (lit "relay " ++ lit name ++ lit " contains invalid Unicode")

/-- The fields of an envelope that are used after it was validated. -/
structure Envelope where
  metadata : Dict
  sender : PyStr
  recipient : PyStr
  taskId : PyStr
  text : PyStr
  signature : PyStr

/-- `_validated_envelope` -/
def validatedEnvelope (envelope : Value) (expectedKind : PyStr) : Except PyExc Envelope :=
  match envelope with
  | .dict items =>
    let get := fun key => Dict.getD items (lit key) .none
    match get "raven" with
    | .dict metadata =>
      match get "from", get "to", get "id", get "kind", get "text" with
      | .str sender, .str recipient, .str taskId, .str kind, .str text => do
        let _ ← checkUnicode "sender" sender
        let _ ← checkUnicode "recipient" recipient
        let _ ← checkUnicode "task id" taskId
        let _ ← checkUnicode "kind" kind
        let encodedText ← checkUnicode "text" text
        require (sender ≠ [] ∧ recipient ≠ [] ∧ taskId ≠ [])
          (lit "relay sender, recipient, and task id are required")
        validatePeerComponent sender
        validatePeerComponent recipient
        require (taskId.length ≤ 128) (lit "relay task id exceeds the compiled limit")
        require (taskId.all P.isPrintable) (lit "relay task id contains control characters")
        require (kind = expectedKind) (lit "outer kind must be " ++ expectedKind)
        require (text.length ≤ maxRelayTextChars ∧ encodedText.length ≤ maxRelayTextBytes)
          (lit "relay text exceeds the compiled character limit")
        match Dict.getD metadata (lit "signature") .none with
        | .str signature => do
          require (signature ≠ []) (lit "relay signature must be a non-empty string")
          let _ ← signatureHash P signature
          return { metadata, sender, recipient, taskId, text, signature }
        | _ => valueError (lit "relay signature must be a non-empty string")
      | _, _, _, _, _ => valueError (lit "relay envelope fields must be strings")
    | _ => valueError (lit "raven metadata must be a JSON object")
  | _ => valueError (lit "relay envelope must be a JSON object")

/-! ## Verification without consumption -/

structure RelayNode where
  identity : RavenIdentity
  replay : ReplayCache

def RelayNode.address (node : RelayNode) : PyStr := node.identity.address P

/-- A task to be delivered: what the loops of the inbox and of the mailbox keep of it. -/
structure Job where
  signature : PyStr
  expiresAt : Int
  sender : PyStr
  taskId : PyStr
  text : PyStr

/-- The part of the two loops before `claim`. They differ in what they do with a refusal. -/
def peek (node : RelayNode) (policy : Policy) (now : Int) (envelope : Value) :
    Except Stop Job := do
  let env ← orReject ExcKind.isValueError (fun e => lit "invalid task envelope: " ++ e.message)
    (validatedEnvelope P envelope (lit "task"))
  let signedSender ← raising (getStr P env.metadata "sender")
  ensure (env.sender = signedSender) (lit "outer sender does not match signed sender")
  ensure (env.recipient = node.address P) (lit "outer recipient mismatch")
  let peers ← raising policy.peers
  let revoked ← raising policy.revocations
  -- `consume_replay=False`: neither the ledger nor the clock of the cache is looked at
  let answer ← raising (verifyDelegation P env.metadata env.text peers true revoked node.replay
    ⟨node.address P, env.taskId, lit "task"⟩ false Identity.noFaults now now .empty).1
  ensure (answer.1 = true) answer.2
  let expiresAt ← raising (getInt P env.metadata "expires_at")
  return { signature := env.signature, expiresAt, sender := env.sender, taskId := env.taskId,
           text := env.text }

/-! ## Replies -/

def truncationSuffix : PyStr :=
  10 :: lit "[relay output truncated to its durable byte limit]"

/-- `_bounded_answer_text` -/
def boundedAnswerText (text : PyStr) : Except PyExc PyStr := do
  let encoded := encodeUtf8Replace (text.take maxRelayTextChars)
  let normalized ← decodeUtf8 .strict encoded
  if text.length ≤ maxRelayTextChars ∧ encoded.length ≤ maxRelayAnswerBytes then
    return normalized
  else
    let suffix ← encodeUtf8 truncationSuffix
    let head ← decodeUtf8 .ignore (encoded.take (maxRelayAnswerBytes - suffix.length))
    return head ++ truncationSuffix

/-- `_build_reply` at a clock value, with the local time it prints and the nonce it draws. -/
def buildReply (node : RelayNode) (taskId sender answer localTime : PyStr) (now : Int)
    (nonceRaw : Bytes) : Except PyExc Dict := do
  let answer ← boundedAnswerText answer
  let block ← signDelegation P node.identity answer sender taskId (lit "answer")
    { ttlSeconds := maxDelegationTtlSeconds } now nonceRaw
  return [
    (lit "id", .str taskId),
    (lit "kind", .str (lit "answer")),
    (lit "from", .str (node.address P)),
    (lit "to", .str sender),
    (lit "text", .str answer),
    (lit "at", .str localTime),
    (lit "raven", .dict block)]

variable {P}

theorem signDelegation_metadata {identity : RavenIdentity} {taskText recipient taskId kind : PyStr}
    {lifetime : Lifetime} {now : Int} {nonceRaw : Bytes} {block : Dict}
    (h : signDelegation P identity taskText recipient taskId kind lifetime now nonceRaw =
      .ok block) : ∃ f signature, block = delegationMetadata f signature := by
  simp only [signDelegation, bind_ok] at h
  obtain ⟨_, _, h⟩ := h
  split at h
  · cases h
  · split at h
    · cases h
    · split at h
      · cases h
      · simp only [bind_ok, pure_ok] at h
        obtain ⟨data, _, rfl⟩ := h
        exact ⟨_, _, rfl⟩

theorem delegationMetadata_plain (f : DelegationFields) (signature : PyStr) :
    Json.Plain (.dict (delegationMetadata f signature)) := by
  refine ⟨?_, ?_⟩
  · have hkeys : (delegationMetadata f signature).map Prod.fst =
        [lit "sender", lit "recipient", lit "task_id", lit "kind", lit "issued_at",
          lit "expires_at", lit "nonce", lit "algorithm", lit "context", lit "signature"] := rfl
    rw [hkeys]
    decide
  · simp [delegationMetadata, Json.PlainMembers, Json.Plain]

/-- A reply survives being stored as JSON. -/
theorem buildReply_plain {node : RelayNode} {taskId sender answer localTime : PyStr} {now : Int}
    {nonceRaw : Bytes} {reply : Dict}
    (h : buildReply P node taskId sender answer localTime now nonceRaw = .ok reply) :
    Json.Plain (.dict reply) := by
  simp only [buildReply, bind_ok, pure_ok] at h
  obtain ⟨text, _, block, hblock, rfl⟩ := h
  obtain ⟨f, signature, rfl⟩ := signDelegation_metadata hblock
  refine ⟨?_, ?_⟩
  · have hkeys : [lit "id", lit "kind", lit "from", lit "to", lit "text", lit "at",
        lit "raven"].Nodup := by decide
    exact hkeys
  · have hblock := delegationMetadata_plain f signature
    simp [Json.PlainMembers, Json.Plain] at hblock ⊢
    exact hblock

end Rdap.Relay
