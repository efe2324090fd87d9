import Rdap.Identity.Verify

/-!
# Authorization of a direct request

The executor authorizes a request before it does anything else with it. The transport
owner and the sender of the metadata are compared first, so that an envelope forwarded
under another principal never reaches the replay cache.
-/

set_option autoImplicit false

namespace Rdap.Agent
open Python Protocol Lib Identity

def ravenMetaKeys : List PyStr :=
  [lit "sender", lit "recipient", lit "task_id", lit "kind", lit "issued_at", lit "expires_at",
    lit "signature", lit "algorithm", lit "context", lit "nonce"]

/-- What the executor reads of the SDK's request context. -/
structure RequestContext where
  userName : PyStr
  isAuthenticated : Bool
  /-- `message_id`, empty if the message has none. -/
  messageId : PyStr
  metadata : Dict
  userInput : PyStr

/-- The text behind the first dot of a key that starts with `raven.`. -/
def shortKey (key : PyStr) : Option PyStr :=
  if startsWith key (lit "raven.") then some (key.drop 6) else none

/-- Mapping values of a message are plain values already, which `_scalar` returns as they
are. A short key can only come from one full key. -/
def extractRavenMeta (ctx : RequestContext) : Dict :=
  ctx.metadata.filterMap fun (key, value) =>
    match shortKey key with
    | some short => if short ∈ ravenMetaKeys then some (short, value) else none
    | none => none

structure Executor where
  requireSigned : Bool
  identity : Option RavenIdentity
  replay : ReplayCache

/-- The trust file and the revocation file as loaded for one request. -/
structure Policy where
  peers : Except PyExc Peers
  revocations : Except PyExc (List PyStr)

variable (P : Platform)

def Executor.address (ex : Executor) : PyStr :=
  match ex.identity with
  | some identity => identity.address P
  | none => []

def Executor.expected (ex : Executor) (ctx : RequestContext) : Expected :=
  ⟨ex.address P, ctx.messageId, lit "task"⟩

def senderMismatch : PyStr := lit "transport/delegation sender mismatch"

/-- What any exception inside `authorize` is turned into. -/
def unavailable : PyStr := lit "delegation authorization unavailable"

/-- `authorize` with the clause around its call. -/
def authorize (ex : Executor) (policy : Policy) (ctx : RequestContext) (faults : Faults)
    (now later : Int) (db : Ledger) : (Bool × PyStr) × Ledger :=
  let md := extractRavenMeta ctx
  match if md = [] then .ok ctx.userName else getStr P md "sender" with
  | .error _ => ((false, unavailable), db)
  | .ok sender =>
    if ctx.userName ≠ sender then ((false, senderMismatch), db)
    else
      match policy.peers, policy.revocations with
      | .ok peers, .ok revoked =>
        match verifyDelegation P md ctx.userInput peers ex.requireSigned revoked ex.replay
            (ex.expected P ctx) true faults now later db with
        | (.ok answer, db') => (answer, db')
        | (.error _, db') => ((false, unavailable), db')
      | _, _ => ((false, unavailable), db)

variable {P}

/-- A refused request leaves the ledger alone, whatever the reason was. -/
theorem authorize_refuses {ex : Executor} {policy : Policy} {ctx : RequestContext}
    {faults : Faults} {now later : Int} {db db' : Ledger} {reason : PyStr}
    (h : authorize P ex policy ctx faults now later db = ((false, reason), db')) : db' = db := by
  unfold authorize at h
  simp only at h
  split at h
  · exact (congrArg Prod.snd h).symm
  · split at h
    · exact (congrArg Prod.snd h).symm
    · split at h
      · rename_i peers revoked _ _
        split at h
        · rename_i answer db'' hrun
          obtain ⟨rfl, rfl⟩ : answer = (false, reason) ∧ db'' = db' := by simpa using h
          exact verifyDelegation_rejects P hrun (by simp)
        · rename_i e db'' hrun
          obtain rfl : db'' = db' := congrArg Prod.snd h
          exact verifyDelegation_rejects P hrun (by simp)
      · exact (congrArg Prod.snd h).symm

/-- An authorized request with metadata passed the checks under its owner's name, and its
signature was consumed. -/
theorem authorize_accepts {ex : Executor} {policy : Policy} {ctx : RequestContext}
    {faults : Faults} {now later : Int} {db db' : Ledger} {reason : PyStr}
    (hmeta : extractRavenMeta ctx ≠ [])
    (h : authorize P ex policy ctx faults now later db = ((true, reason), db')) :
    ∃ peers revoked a, policy.peers = .ok peers ∧ policy.revocations = .ok revoked ∧
      checkDelegation P (extractRavenMeta ctx) ctx.userInput peers revoked (ex.expected P ctx) now =
        .ok a ∧ ctx.userName = a.sender ∧
      firstTime P ex.replay faults later a.signatureB64 (some a.expiresAt) db = (.ok true, db') := by
  unfold authorize at h
  simp only [hmeta, if_false] at h
  split at h
  · simp at h
  · rename_i sender hsender
    split at h
    · simp at h
    · rename_i howner
      split at h
      · rename_i peers revoked hpeers hrevoked
        split at h
        · rename_i answer db'' hrun
          obtain ⟨rfl, rfl⟩ : answer = (true, reason) ∧ db'' = db' := by simpa using h
          obtain ⟨a, ha, hfirst, _⟩ := verifyDelegation_accepts P hmeta hrun
          refine ⟨peers, revoked, a, hpeers, hrevoked, ha, ?_, hfirst rfl⟩
          have hsame := hsender.symm.trans (checkDelegation_ok P ha).sender
          exact (not_not.mp howner).trans (Except.ok.inj hsame)
        · simp at h
      · simp at h

/-- The stateless checks read the clock only to compare it with the lifetime. -/
theorem checkDelegation_at {metadata : Dict} {taskText : PyStr} {trustedPeers : Peers}
    {revoked : List PyStr} {expected : Expected} {t now : Int} {a : Admitted DelegationFields}
    (h : checkDelegation P metadata taskText trustedPeers revoked expected t = .ok a)
    (hlife : LifetimeOk now a.fields.issuedAt a.expiresAt) :
    checkDelegation P metadata taskText trustedPeers revoked expected now = .ok a := by
  simp only [checkDelegation, bind_ok, raising_ok] at h ⊢
  obtain ⟨sender, hsender, h⟩ := h
  refine ⟨sender, hsender, ?_⟩
  cases hpin : trustedPeers.get? sender with
  | none => simp [hpin] at h
  | some pin =>
    simp only [hpin, bind_ok, raising_ok, ensure_ok, orReject_ok, checkLifetime_ok, pure_ok,
      exists_const] at h ⊢
    obtain ⟨hrev, c, hc, hctx, hexp, r, hr, taskId, ht, kind, hk, h₁, h₂, h₃, i, hi, e, he, _,
      n, hn, hlen, raw, hraw, text, htext, s, hs, pk, hpk, m, hm, hver, rfl⟩ := h
    exact ⟨hrev, c, hc, hctx, hexp, r, hr, taskId, ht, kind, hk, h₁, h₂, h₃, i, hi, e, he, hlife,
      n, hn, hlen, raw, hraw, text, htext, s, hs, pk, hpk, m, hm, hver, rfl⟩

namespace Sample
open Identity.Sample

def identity : RavenIdentity := ⟨nodeKey, nodeKey_length, fun _ => []⟩

def executor : Executor := ⟨true, some identity, cache⟩

def policy : Policy := ⟨.ok peers, .ok []⟩

/-- The sample delegation as `owner` presents it. -/
def request (owner : PyStr) : RequestContext where
  userName := owner
  isAuthenticated := true
  messageId := lit "t1"
  metadata := (metadata (b64encode delegationSignature)).map fun (key, value) =>
    (lit "raven." ++ key, value)
  userInput := delegation.text

end Sample

end Rdap.Agent
