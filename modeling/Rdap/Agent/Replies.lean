import Rdap.Agent.Authorize
import Rdap.Lib.KeepFirst
import Rdap.Python.Equality
import Rdap.Python.Raise

/-!
# Signed answers

The client of a peer takes from its responses only artifacts that the peer signed as answers to
this message. An artifact whose signature was seen before is skipped, any other that does not
verify ends the call.
-/

set_option autoImplicit false

namespace Rdap.Agent
open Python Protocol Lib Identity

/-! ## The responses -/

structure Artifact where
  /-- The texts of the parts. -/
  parts : List PyStr
  metadata : Dict

/-- A `StreamResponse`, as far as a client can show it to its user. -/
structure PeerResponse where
  artifacts : List Artifact
  /-- The texts of the status message. -/
  status : List PyStr
  /-- The texts of a message in the place of a task. -/
  message : List PyStr

structure ResponseStream where
  responses : List PeerResponse
  /-- What the transport raises after the last of them. -/
  failure : Option PyExc

inductive ReplyExc where
  | cardVerification (message : PyStr)
  | other (exc : PyExc)
  deriving DecidableEq

variable (P : Platform)

/-- `_scalar` of what a `Struct` holds: structures and lists are messages without a `kind`. -/
def scalar : Value → Except PyExc Value
  | .dict _ | .list _ => valueError (lit "Protocol message has no \"kind\" field.")
  | v => .ok v

def scalarMember (item : PyStr × Value) : Except PyExc (PyStr × Value) := (scalar item.2).map (item.1, ·)

/-- The entries of a `raven.` block under their short keys. -/
def ravenBlock (metadata : Dict) : Dict :=
  metadata.filterMap fun item => (shortKey item.1).map (·, item.2)

/-- What `_signed_reply_artifacts` yields, with the signature it is told apart by. -/
structure Reply where
  signature : PyStr
  text : PyStr
  metadata : Dict

/-- One turn of `_signed_reply_artifacts`, and the first line of the loop over them. -/
def readArtifact (a : Artifact) : Except PyExc (Option Reply) := do
  let metadata ← a.metadata.mapM scalarMember
  let raven := ravenBlock metadata
  if a.parts.flatten = [] ∧ raven = [] then pure none
  else do
    let signature ← getStr P raven "signature"
    pure (some ⟨signature, a.parts.flatten, raven⟩)

/-! ## The cache of one call -/

/-- `ReplayCache._seen`: when a signature was seen, in the unit of the clock. -/
abbrev SeenTable := KeyedTable PyStr Int

def seenTtl : Int := (maxDelegationTtlSeconds + maxFutureSkewSeconds) * unitsPerOne

/-- `ReplayCache.first_time` of a cache without a path. -/
def memoryFirstTime (now : Int) (signatureB64 : PyStr) (seen : SeenTable) : Except PyExc Bool × SeenTable :=
  match signatureHash P signatureB64 with
  | .error e => (.error e, seen)
  | .ok key =>
    let kept := seen.filter fun row => now - row.2 ≤ seenTtl
    if kept.contains key then (.ok false, kept)
    else if maxReplayEntries ≤ kept.count then (.ok false, kept)
    else (.ok true, kept.set key now)

/-- The clock as a verification reads it, in seconds and then in its own unit. -/
structure Moment where
  now : Int
  later : Int

/-- The peer that is pinned, and what its answers are to be addressed to. -/
structure Exchange where
  peerAddress : PyStr
  peerPublicKey : PyStr
  expected : Expected

/-- An answer to a message of this sender. -/
def Exchange.answering (peerAddress peerPublicKey sender messageId : PyStr) : Exchange :=
  ⟨peerAddress, peerPublicKey, sender, messageId, lit "answer"⟩

def Exchange.peers (x : Exchange) : Peers := KeyedTable.empty.set x.peerAddress x.peerPublicKey

/-- `verify_delegation` with `required=True` and a cache without a path. -/
def verifyReply (x : Exchange) (moment : Moment) (r : Reply) (seen : SeenTable) :
    Except PyExc (Bool × PyStr) × SeenTable :=
  if r.metadata = [] then (.ok (false, lit "missing signature"), seen)
  else
    match checkDelegation P r.metadata r.text x.peers [] x.expected moment.now with
    | .error (.rejected reason) => (.ok (false, reason), seen)
    | .error (.raised e) => (.error e, seen)
    | .ok a =>
      match memoryFirstTime P moment.later a.signatureB64 seen with
      | (.ok true, seen') => (.ok (true, lit "verified " ++ a.sender), seen')
      | (.ok false, seen') => (.ok (false, lit "replayed delegation"), seen')
      | (.error e, seen') => (.error e, seen')

/-! ## The loop -/

structure ReplyState where
  signatures : List PyStr := []
  pieces : List PyStr := []
  verified : Bool := false
  seen : SeenTable := .empty

variable (x : Exchange) (moments : Nat → Moment)

/-- The body of the inner loop. A verification takes place for every new signature. -/
def takeReply (s : ReplyState) (r : Reply) : Except ReplyExc ReplyState :=
  if r.signature ∈ s.signatures then .ok s
  else
    match verifyReply P x (moments s.signatures.length) r s.seen with
    | (.error e, _) => .error (.other e)
    | (.ok (false, why), _) => .error (.cardVerification (lit "agent reply rejected: " ++ why))
    | (.ok (true, _), seen) =>
      .ok ⟨s.signatures ++ [r.signature], s.pieces ++ [r.text], true, seen⟩

def takeArtifact (s : ReplyState) (a : Artifact) : Except ReplyExc ReplyState :=
  match readArtifact P a with
  | .error e => .error (.other e)
  | .ok none => .ok s
  | .ok (some r) => takeReply P x moments s r

def takeResponse (s : ReplyState) (response : PeerResponse) : Except ReplyExc ReplyState :=
  response.artifacts.foldlM (takeArtifact P x moments) s

/-- `'\n'.join(pieces) or '(empty response)'` -/
def shownText (pieces : List PyStr) : PyStr :=
  let text := List.intercalate (lit "\n") pieces
  if text = [] then lit "(empty response)" else text

/-- `_send_task_inner` from the sending of the message on. -/
def receiveAnswer (stream : ResponseStream) : Except ReplyExc PyStr := do
  let s ← stream.responses.foldlM (takeResponse P x moments) {}
  match stream.failure with
  | some e => .error (.other e)
  | none =>
    if s.verified = false then
      .error (.cardVerification (lit "agent returned no Raven-signed result artifact"))
    else .ok (shownText s.pieces)

/-! ## First occurrences -/

/-- What the artifacts of a stream present, in order. -/
def presentedReplies (stream : ResponseStream) : Except PyExc (List Reply) :=
  ((stream.responses.flatMap PeerResponse.artifacts).mapM (readArtifact P)).map (List.filterMap id)

def firsts (replies : List Reply) : List Reply := keepFirst Reply.signature replies

/-- The cache after these verifications. -/
def tableAfter (rs : List Reply) : SeenTable :=
  rs.zipIdx.foldl (fun table r => (verifyReply P x (moments r.2) r.1 table).2) .empty

/-- The reply after `before` verifies. -/
def Verifies (before : List Reply) (r : Reply) : Prop :=
  ∃ why, (verifyReply P x (moments before.length) r (tableAfter P x moments before)).1 = .ok (true, why)

def AllVerify (rs : List Reply) : Prop :=
  ∀ before r after, rs = before ++ r :: after → Verifies P x moments before r

variable {P x moments}

theorem tableAfter_concat (rs : List Reply) (r : Reply) : tableAfter P x moments (rs ++ [r]) =
    (verifyReply P x (moments rs.length) r (tableAfter P x moments rs)).2 := by
  simp [tableAfter, List.zipIdx_append]

theorem allVerify_concat {rs : List Reply} {r : Reply} : AllVerify P x moments (rs ++ [r]) ↔
    AllVerify P x moments rs ∧ Verifies P x moments rs r := by
  constructor
  · intro h
    refine ⟨?_, h rs r [] rfl⟩
    intro before r' after hsplit
    exact h before r' (after ++ [r]) (by simp [hsplit])
  · rintro ⟨hall, hlast⟩ before r' after hsplit
    rcases List.eq_nil_or_concat after with rfl | ⟨after, last, rfl⟩
    · obtain ⟨rfl, heq⟩ := List.append_inj' hsplit rfl
      obtain rfl := List.singleton_inj.mp heq
      exact hlast
    · have hsplit' : rs ++ [r] = (before ++ r' :: after) ++ [last] := by
        rw [hsplit, List.concat_eq_append]
        simp
      exact hall before r' after (List.append_inj' hsplit' rfl).1

variable (P x moments) in
/-- The loop after the first occurrences all verified. -/
def stateAfter (rs : List Reply) : ReplyState :=
  ⟨rs.map Reply.signature, rs.map Reply.text, !rs.isEmpty, tableAfter P x moments rs⟩

theorem takeReply_ok_iff {rs : List Reply} {r : Reply} {s : ReplyState} :
    takeReply P x moments (stateAfter P x moments rs) r = .ok s ↔
      (r.signature ∈ rs.map Reply.signature ∧ s = stateAfter P x moments rs) ∨
      (r.signature ∉ rs.map Reply.signature ∧ Verifies P x moments rs r ∧
        s = stateAfter P x moments (rs ++ [r])) := by
  unfold takeReply
  by_cases hold : r.signature ∈ rs.map Reply.signature
  · have hsigs : r.signature ∈ (stateAfter P x moments rs).signatures := hold
    rw [if_pos hsigs]
    simp [hold, eq_comm]
  · have hsigs : r.signature ∉ (stateAfter P x moments rs).signatures := hold
    have hnext := @tableAfter_concat P x moments rs r
    have hlength : (stateAfter P x moments rs).signatures.length = rs.length := by simp [stateAfter]
    have hseen : (stateAfter P x moments rs).seen = tableAfter P x moments rs := rfl
    rw [if_neg hsigs, hlength, hseen]
    unfold Verifies
    cases hverify : verifyReply P x (moments rs.length) r (tableAfter P x moments rs) with
    | mk answer seen =>
      rw [hverify] at hnext
      cases answer with
      | error e => simp [hold]
      | ok outcome =>
        obtain ⟨ok, why⟩ := outcome
        cases ok with
        | false => simp [hold]
        | true =>
          have hnonempty : (rs ++ [r]).isEmpty = false := by simp
          simp [hold, stateAfter, hnext, hnonempty, eq_comm]

theorem firsts_concat_old {replies : List Reply} {r : Reply}
    (h : r.signature ∈ (firsts replies).map Reply.signature) : firsts (replies ++ [r]) = firsts replies := by
  unfold firsts at h ⊢
  rw [keepFirst_concat, if_pos h]

theorem firsts_concat_new {replies : List Reply} {r : Reply}
    (h : r.signature ∉ (firsts replies).map Reply.signature) :
    firsts (replies ++ [r]) = firsts replies ++ [r] := by
  unfold firsts at h ⊢
  rw [keepFirst_concat, if_neg h]

/-- The loop over the presented replies goes through if the first occurrences verify. -/
theorem foldReplies_ok_iff {replies : List Reply} {s : ReplyState} :
    replies.foldlM (takeReply P x moments) {} = .ok s ↔
      AllVerify P x moments (firsts replies) ∧ s = stateAfter P x moments (firsts replies) := by
  induction replies using List.reverseRecOn generalizing s with
  | nil =>
    have hall : AllVerify P x moments (firsts []) := by
      intro before r after hsplit
      cases before <;> cases hsplit
    rw [List.foldlM_nil, pure_ok]
    constructor
    · rintro rfl
      exact ⟨hall, rfl⟩
    · rintro ⟨-, rfl⟩
      rfl
  | append_singleton replies r ih =>
    rw [List.foldlM_append, bind_ok]
    simp only [ih, List.foldlM_cons, List.foldlM_nil, bind_pure]
    constructor
    · rintro ⟨mid, ⟨hall, rfl⟩, htake⟩
      rcases takeReply_ok_iff.mp htake with ⟨hold, rfl⟩ | ⟨hnew, hverifies, rfl⟩
      · rw [firsts_concat_old hold]
        exact ⟨hall, rfl⟩
      · rw [firsts_concat_new hnew]
        exact ⟨allVerify_concat.mpr ⟨hall, hverifies⟩, rfl⟩
    · rintro ⟨hall, rfl⟩
      by_cases hold : r.signature ∈ (firsts replies).map Reply.signature
      · rw [firsts_concat_old hold] at hall ⊢
        exact ⟨_, ⟨hall, rfl⟩, takeReply_ok_iff.mpr (Or.inl ⟨hold, rfl⟩)⟩
      · rw [firsts_concat_new hold] at hall ⊢
        obtain ⟨hbefore, hverifies⟩ := allVerify_concat.mp hall
        exact ⟨_, ⟨hbefore, rfl⟩, takeReply_ok_iff.mpr (Or.inr ⟨hold, hverifies, rfl⟩)⟩

/-- Artifacts without a text and without a block are passed over. -/
theorem foldArtifacts_ok_iff {artifacts : List Artifact} {s s' : ReplyState} :
    artifacts.foldlM (takeArtifact P x moments) s = .ok s' ↔
      ∃ outs, artifacts.mapM (readArtifact P) = .ok outs ∧
        (outs.filterMap id).foldlM (takeReply P x moments) s = .ok s' := by
  induction artifacts generalizing s with
  | nil => simp [pure, Except.pure]
  | cons a rest ih =>
    rw [List.foldlM_cons, List.mapM_cons]
    cases hread : readArtifact P a with
    | error e => simp [takeArtifact, hread, bind, Except.bind]
    | ok out =>
      cases out with
      | none =>
        have hstep : takeArtifact P x moments s a = .ok s := by simp [takeArtifact, hread]
        simp only [hstep, bind_ok, pure_ok, Except.ok.injEq, exists_eq_left', ih]
        constructor
        · rintro ⟨outs, houts, h⟩
          exact ⟨none :: outs, ⟨outs, houts, rfl⟩, h⟩
        · rintro ⟨_, ⟨outs, houts, rfl⟩, h⟩
          exact ⟨outs, houts, h⟩
      | some r =>
        have hstep : takeArtifact P x moments s a = takeReply P x moments s r := by simp [takeArtifact, hread]
        have hrest : ∀ outs, (some r :: outs).filterMap id = r :: outs.filterMap id := fun _ => rfl
        simp only [hstep, bind_ok, pure_ok, Except.ok.injEq, exists_eq_left', ih]
        constructor
        · rintro ⟨mid, hmid, outs, houts, h⟩
          refine ⟨some r :: outs, ⟨outs, houts, rfl⟩, ?_⟩
          rw [hrest, List.foldlM_cons, bind_ok]
          exact ⟨mid, hmid, h⟩
        · rintro ⟨_, ⟨outs, houts, rfl⟩, h⟩
          rw [hrest, List.foldlM_cons, bind_ok] at h
          obtain ⟨mid, hmid, h⟩ := h
          exact ⟨mid, hmid, outs, houts, h⟩

theorem foldResponses_eq (responses : List PeerResponse) (s : ReplyState) :
    responses.foldlM (takeResponse P x moments) s =
      (responses.flatMap PeerResponse.artifacts).foldlM (takeArtifact P x moments) s := by
  induction responses generalizing s with
  | nil => rfl
  | cons response rest ih =>
    rw [List.foldlM_cons, List.flatMap_cons, List.foldlM_append]
    unfold takeResponse
    exact bind_congr fun s => ih s

theorem receiveAnswer_ok_iff {stream : ResponseStream} {result : PyStr} :
    receiveAnswer P x moments stream = .ok result ↔ ∃ replies, presentedReplies P stream = .ok replies ∧
      stream.failure = none ∧ firsts replies ≠ [] ∧ AllVerify P x moments (firsts replies) ∧
      result = shownText ((firsts replies).map Reply.text) := by
  unfold receiveAnswer presentedReplies
  rw [foldResponses_eq]
  simp only [bind_ok, foldArtifacts_ok_iff, foldReplies_ok_iff]
  constructor
  · rintro ⟨s, ⟨outs, houts, hall, rfl⟩, h⟩
    rw [houts]
    split at h
    · cases h
    · rename_i hfailure
      split at h
      · cases h
      · rename_i hverified
        refine ⟨_, rfl, hfailure, ?_, hall, (Except.ok.inj h).symm⟩
        intro hnil
        exact hverified (by rw [stateAfter, hnil]; rfl)
  · rintro ⟨replies, hreplies, hfailure, hne, hall, rfl⟩
    cases houts : (stream.responses.flatMap PeerResponse.artifacts).mapM (readArtifact P) with
    | error e => simp [houts, Except.map] at hreplies
    | ok outs =>
      rw [houts] at hreplies
      obtain rfl : outs.filterMap id = replies := Except.ok.inj hreplies
      refine ⟨_, ⟨outs, rfl, hall, rfl⟩, ?_⟩
      have hverified : (stateAfter P x moments (firsts (outs.filterMap id))).verified = true := by
        simpa [stateAfter] using hne
      simp only [hfailure, hverified, Bool.true_eq_false, if_false]
      rfl

/-! ## What is returned was signed -/

variable (P) in
/-- The peer signed the text of this reply as its answer to the message of the sender. -/
structure SignedAnswer (peerAddress peerPublicKey sender messageId : PyStr) (r : Reply) : Prop where
  block : r.metadata ≠ []
  signed : ∃ (f : DelegationFields) (publicKey signature message : Bytes),
    f.sender = peerAddress ∧ f.recipient = sender ∧ f.taskId = messageId ∧ f.kind = lit "answer" ∧
    f.text = r.text ∧ validateAddressPublicKey P peerAddress peerPublicKey = .ok publicKey ∧
    getStr P r.metadata "signature" = .ok r.signature ∧ b64decode r.signature = .ok signature ∧
    delegationSigningBytes P f = .ok message ∧ P.ed25519Verify publicKey signature message = true

theorem verifyReply_accepts {moment : Moment} {r : Reply} {seen : SeenTable} {why : PyStr}
    (h : (verifyReply P x moment r seen).1 = .ok (true, why)) : r.metadata ≠ [] ∧
      ∃ a, checkDelegation P r.metadata r.text x.peers [] x.expected moment.now = .ok a := by
  unfold verifyReply at h
  split at h
  · simp at h
  · rename_i hne
    refine ⟨hne, ?_⟩
    split at h
    · simp at h
    · simp at h
    · rename_i a ha
      exact ⟨a, ha⟩

theorem presentedReplies_signature {stream : ResponseStream} {replies : List Reply}
    (h : presentedReplies P stream = .ok replies) {r : Reply} (hr : r ∈ replies) :
    getStr P r.metadata "signature" = .ok r.signature := by
  unfold presentedReplies at h
  cases houts : (stream.responses.flatMap PeerResponse.artifacts).mapM (readArtifact P) with
  | error e => simp [houts, Except.map] at h
  | ok outs =>
    rw [houts] at h
    obtain rfl : outs.filterMap id = replies := Except.ok.inj h
    obtain ⟨out, hout, rfl⟩ : ∃ out ∈ outs, out = some r := by simpa using hr
    obtain ⟨a, -, hread⟩ := exists_of_mem_mapM houts hout
    simp only [readArtifact, bind_ok] at hread
    obtain ⟨metadata, -, hread⟩ := hread
    split at hread
    · simp [pure_ok] at hread
    · simp only [bind_ok, pure_ok, Option.some.injEq] at hread
      obtain ⟨signature, hsignature, rfl⟩ := hread
      exact hsignature

theorem signedAnswer_of_verifies {peerAddress peerPublicKey sender messageId : PyStr} {before : List Reply}
    {r : Reply} (hsignature : getStr P r.metadata "signature" = .ok r.signature)
    (h : Verifies P (.answering peerAddress peerPublicKey sender messageId) moments before r) :
    SignedAnswer P peerAddress peerPublicKey sender messageId r := by
  obtain ⟨why, hwhy⟩ := h
  obtain ⟨hne, a, hcheck⟩ := verifyReply_accepts hwhy
  have hchecked := checkDelegation_ok P hcheck
  obtain ⟨pin, hpin, hkey⟩ := hchecked.pinned
  have hpeer : a.sender = peerAddress ∧ pin = peerPublicKey := by
    unfold Exchange.peers Exchange.answering at hpin
    rw [KeyedTable.get?_set] at hpin
    split at hpin
    · rename_i heq
      exact ⟨heq, (Option.some.inj hpin).symm⟩
    · simp at hpin
  obtain ⟨hsender, rfl⟩ := hpeer
  rw [hsender] at hkey
  have htext : a.signatureB64 = r.signature :=
    Except.ok.inj (hchecked.signatureText.symm.trans hsignature)
  have hfields := hchecked.fields
  refine ⟨hne, a.fields, a.publicKey, a.signature, a.message, ?_, ?_, ?_, ?_, ?_, hkey, hsignature,
    htext ▸ hchecked.signature, hchecked.message, hchecked.verified⟩
  · rw [hfields]; exact hsender
  · rw [hfields]; rfl
  · rw [hfields]; rfl
  · rw [hfields]; rfl
  · rw [hfields]

/-- What is returned is made of the texts of the artifacts with a new signature, all of them signed
answers to this message. If one does not verify the call raises, and nothing but artifacts counts. -/
theorem signed_answers_only (peerAddress peerPublicKey sender messageId : PyStr) (moments : Nat → Moment)
    (stream : ResponseStream) :
    (∀ result,
      receiveAnswer P (.answering peerAddress peerPublicKey sender messageId) moments stream = .ok result →
      ∃ replies, presentedReplies P stream = .ok replies ∧ firsts replies ≠ [] ∧
        (∀ r ∈ firsts replies, SignedAnswer P peerAddress peerPublicKey sender messageId r) ∧
        result = shownText ((firsts replies).map Reply.text)) ∧
    (∀ replies before r after, presentedReplies P stream = .ok replies → firsts replies = before ++ r :: after →
      ¬Verifies P (.answering peerAddress peerPublicKey sender messageId) moments before r →
      ∃ e, receiveAnswer P (.answering peerAddress peerPublicKey sender messageId) moments stream = .error e) ∧
    ∀ stream' : ResponseStream, stream'.failure = stream.failure →
      stream'.responses.flatMap PeerResponse.artifacts = stream.responses.flatMap PeerResponse.artifacts →
      receiveAnswer P (.answering peerAddress peerPublicKey sender messageId) moments stream' =
        receiveAnswer P (.answering peerAddress peerPublicKey sender messageId) moments stream := by
  refine ⟨?_, ?_, ?_⟩
  · intro result h
    obtain ⟨replies, hreplies, -, hne, hall, rfl⟩ := receiveAnswer_ok_iff.mp h
    refine ⟨replies, hreplies, hne, fun r hr => ?_, rfl⟩
    obtain ⟨before, after, hsplit⟩ := List.append_of_mem hr
    have hmem : r ∈ replies := (keepFirst_sublist Reply.signature replies).mem hr
    exact signedAnswer_of_verifies (presentedReplies_signature hreplies hmem) (hall before r after hsplit)
  · intro replies before r after hreplies hsplit hnot
    cases h : receiveAnswer P (.answering peerAddress peerPublicKey sender messageId) moments stream with
    | error e => exact ⟨e, rfl⟩
    | ok result =>
      obtain ⟨replies', hreplies', -, -, hall, -⟩ := receiveAnswer_ok_iff.mp h
      obtain rfl := Except.ok.inj (hreplies.symm.trans hreplies')
      exact absurd (hall before r after hsplit) hnot
  · intro stream' hfailure hartifacts
    unfold receiveAnswer
    rw [foldResponses_eq, foldResponses_eq, hartifacts, hfailure]

/-! ## An empty answer -/

def emptyAnswer : DelegationFields :=
  { Sample.delegation with taskId := lit "m1", kind := lit "answer", text := [] }

def answerPlatform : Platform := Platform.ofTable
  [(Sample.key, Sample.delegationSignature,
    (delegationSigningBytes (Platform.ofTable []) emptyAnswer).toOption.getD [])]

/-- One artifact: no text, and the block of the peer's signature over it. -/
def emptyArtifact : Artifact :=
  ⟨[], (delegationMetadata emptyAnswer (b64encode Sample.delegationSignature)).map fun item =>
    (lit "raven." ++ item.1, item.2)⟩

def emptyStream : ResponseStream := ⟨[⟨[emptyArtifact], [], []⟩], none⟩

/-- The answer is empty, and a text that no artifact holds is returned. -/
theorem empty_answer_named :
    (receiveAnswer answerPlatform (.answering Sample.address (hex Sample.key) Sample.nodeAddress (lit "m1"))
      (fun _ => ⟨1100, 0⟩) emptyStream).toOption = some (lit "(empty response)") ∧
    ((presentedReplies answerPlatform emptyStream).toOption.map fun replies => (firsts replies).map Reply.text) =
      some [[]] ∧
    List.intercalate (lit "\n") [[]] ≠ lit "(empty response)" := by
  decide +kernel

end Rdap.Agent
