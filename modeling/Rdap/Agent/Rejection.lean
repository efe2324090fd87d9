import Rdap.Agent.Authorize

/-!
# Rejections and the replay ledger

No rejection writes to the ledger, so a rejected copy of a delegation does not stand in the
way of its sender. What can still stand in the way is an earlier acceptance of the same
delegation, or a ledger that cannot be written.
-/

set_option autoImplicit false

namespace Rdap.Agent
open Python Protocol Lib Identity

variable {P : Platform}

/-- The request of the true sender for the delegation that a context carries. -/
def RequestContext.from (ctx : RequestContext) (owner : PyStr) : RequestContext :=
  { ctx with userName := owner }

/-- The spelling has a live row. -/
def Used (P : Platform) (now : Int) (signatureB64 : PyStr) (db : Ledger) : Prop :=
  ∃ key, signatureHash P signatureB64 = .ok key ∧ Recorded now key db

/-- A delegation that the policy admits at some instant is accepted from its sender at every
instant of its lifetime, if its spelling is not recorded and the ledger has room. -/
theorem authorize_admits {ex : Executor} {policy : Policy} {ctx : RequestContext} {peers : Peers}
    {revoked : List PyStr} {t now later : Int} {db : Ledger} {a : Admitted DelegationFields}
    (hmeta : extractRavenMeta ctx ≠ []) (hpeers : policy.peers = .ok peers)
    (hrevoked : policy.revocations = .ok revoked)
    (hcheck : checkDelegation P (extractRavenMeta ctx) ctx.userInput peers revoked
      (ex.expected P ctx) t = .ok a)
    (hlife : LifetimeOk now a.fields.issuedAt a.expiresAt)
    (hfresh : ¬ Used P later a.signatureB64 db)
    (hroom : activeCount later db < ex.replay.maxEntries) :
    (authorize P ex policy (ctx.from a.sender) noFaults now later db).1 =
      (true, lit "verified " ++ a.sender) := by
  have hchecked := checkDelegation_ok P hcheck
  obtain ⟨key, hkey⟩ := signatureHash_of_decoded (P := P) hchecked.signature
  have hunrecorded : ¬ Recorded later key db := fun h => hfresh ⟨key, hkey, h⟩
  have hrun : verifyDelegation P (extractRavenMeta ctx) ctx.userInput peers ex.requireSigned
      revoked ex.replay (ex.expected P ctx) true noFaults now later db =
        (.ok (true, lit "verified " ++ a.sender),
          housekeep later key ((db.erase key).set key a.expiresAt)) := by
    simp only [verifyDelegation, hmeta, if_false, if_true, checkDelegation_at hcheck hlife,
      firstTime_admits P a.expiresAt hkey hunrecorded hroom]
  have hmd : extractRavenMeta (ctx.from a.sender) = extractRavenMeta ctx := rfl
  have hexpected : ex.expected P (ctx.from a.sender) = ex.expected P ctx := rfl
  have hname : (ctx.from a.sender).userName = a.sender := rfl
  have hinput : (ctx.from a.sender).userInput = ctx.userInput := rfl
  simp only [authorize, hmd, hmeta, if_false, hchecked.sender, hname, ne_eq, not_true_eq_false,
    hpeers, hrevoked, hexpected, hinput, hrun]

/-- Both verifiers leave the ledger as it was whenever they return `False`; an executor that
turns a forwarded delegation away leaves it as it was too, and accepts the delegation from
its sender later, as long as it would have been valid, is not recorded as used, and the
ledger has room and works. -/
theorem rejection_leaves_ledger_intact (P : Platform) :
    (∀ authorization method target body trustedPeers recipient revoked cache faults now later db
        db' reason owner,
      verifyHttpRequest P authorization method target body trustedPeers recipient revoked cache
        faults now later db = (.ok (false, reason, owner), db') → db' = db) ∧
    (∀ metadata taskText trustedPeers required revoked cache expected consumeReplay faults now
        later db db' reason,
      verifyDelegation P metadata taskText trustedPeers required revoked cache expected
        consumeReplay faults now later db = (.ok (false, reason), db') → db' = db) ∧
    ∀ (ex : Executor) policy ctx faults now later db db',
      authorize P ex policy ctx faults now later db = ((false, senderMismatch), db') →
      extractRavenMeta ctx ≠ [] →
      db' = db ∧
      ∀ peers revoked t a, policy.peers = .ok peers → policy.revocations = .ok revoked →
        checkDelegation P (extractRavenMeta ctx) ctx.userInput peers revoked (ex.expected P ctx) t =
          .ok a →
        ∀ now' later' db'', LifetimeOk now' a.fields.issuedAt a.expiresAt →
          ¬ Used P later' a.signatureB64 db'' → activeCount later' db'' < ex.replay.maxEntries →
          (authorize P ex policy (ctx.from a.sender) noFaults now' later' db'').1 =
            (true, lit "verified " ++ a.sender) := by
  refine ⟨?_, ?_, ?_⟩
  · intro _ _ _ _ _ _ _ _ _ _ _ _ _ _ _ h
    exact verifyHttpRequest_rejects P h (by simp)
  · intro _ _ _ _ _ _ _ _ _ _ _ _ _ _ h
    exact verifyDelegation_rejects P h (by simp)
  · intro ex policy ctx faults now later db db' h hmeta
    refine ⟨authorize_refuses h, ?_⟩
    intro peers revoked t a hpeers hrevoked hcheck now' later' db'' hlife hfresh hroom
    exact authorize_admits hmeta hpeers hrevoked hcheck hlife hfresh hroom

namespace Sample
open Identity.Sample

/-- The ledger after the sender's own presentation was accepted. -/
def usedLedger : Ledger :=
  (authorize platform executor policy (request address) noFaults 1100 1100 .empty).2

end Sample

/-- After its sender has used a delegation, a forwarded copy is rejected for its owner and
the sender's next presentation is rejected as well, within the lifetime and with room. -/
theorem used_delegation_stays_used :
    (∃ db, authorize Identity.Sample.platform Sample.executor Sample.policy
      (Sample.request (lit "bob")) noFaults 1101 1101 Sample.usedLedger =
        ((false, senderMismatch), db)) ∧
    (authorize Identity.Sample.platform Sample.executor Sample.policy
      (Sample.request Identity.Sample.address) noFaults 1102 1102 Sample.usedLedger).1 =
        (false, lit "replayed delegation") ∧
    LifetimeOk 1102 1000 1600 ∧
    activeCount 1102 Sample.usedLedger < Sample.executor.replay.maxEntries :=
  ⟨exists_of_fst (by decide +kernel), by decide +kernel, ⟨by decide, by decide, by decide, by decide⟩,
    by decide +kernel⟩

theorem rejection_leaves_ledger_intact_sample :
    (authorize Identity.Sample.platform Sample.executor Sample.policy
      (Sample.request Identity.Sample.address) noFaults 1200 1201 .empty).1 =
        (true, lit "verified " ++ Identity.Sample.address) := by
  obtain ⟨_, _, hexecutor⟩ := rejection_leaves_ledger_intact Identity.Sample.platform
  obtain ⟨db, hmismatch⟩ : ∃ db, authorize Identity.Sample.platform Sample.executor Sample.policy
      (Sample.request (lit "bob")) noFaults 1101 1101 .empty = ((false, senderMismatch), db) :=
    exists_of_fst (by decide +kernel)
  obtain ⟨_, hlater⟩ := hexecutor _ _ _ _ _ _ _ _ hmismatch (by decide +kernel)
  obtain ⟨a, hcheck, hsender, hissued, hexpires⟩ := exists_of_any
    (x := (checkDelegation Identity.Sample.platform (extractRavenMeta (Sample.request (lit "bob")))
      (Sample.request (lit "bob")).userInput Identity.Sample.peers []
      (Sample.executor.expected Identity.Sample.platform (Sample.request (lit "bob"))) 1100).toOption)
    (p := fun a => a.sender = Identity.Sample.address ∧ a.fields.issuedAt = 1000 ∧
      a.expiresAt = 1600) (by decide +kernel)
  have haccepted := hlater _ _ _ a rfl rfl (toOption_some.mp hcheck) 1200 1201 .empty
    (by rw [hissued, hexpires]; exact ⟨by decide, by decide, by decide, by decide⟩)
    (by rintro ⟨key, _, expiry, hrow, _⟩; simp at hrow) (by decide +kernel)
  rw [hsender] at haccepted
  exact haccepted

end Rdap.Agent
