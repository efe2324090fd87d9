import Rdap.Relay.OfflineReplies

/-!
# What a turn does with a reply

A reply that verifies has the metadata that names its key in the cache. A turn of
`take_replies` refuses, raises, removes what was acknowledged, or accepts.
-/

set_option autoImplicit false

namespace Rdap.Relay
open Python Protocol Lib Identity Agent

variable {P : Platform}

/-! ## Metadata -/

variable (P) in
/-- The key of the signature in the cache. -/
def replyKey (reply : Dict) : Option PyStr :=
  match Dict.getD reply (lit "raven") .none with
  | .dict metadata =>
    match Dict.getD metadata (lit "signature") .none with
    | .str signature => (Identity.signatureHash P signature).toOption
    | _ => none
  | _ => none

variable (P) in
/-- The expiry as the verifier converts it. -/
def replyExpiry (reply : Dict) : Option Int :=
  match Dict.getD reply (lit "raven") .none with
  | .dict metadata => (getInt P metadata "expires_at").toOption
  | _ => none

/-- The metadata with the signature, as validation found it. -/
structure SignedBy (P : Platform) (reply : Dict) (metadata : Dict) (signature : PyStr) : Prop where
  raven : Dict.getD reply (lit "raven") .none = .dict metadata
  text : Dict.getD metadata (lit "signature") .none = .str signature
  hashable : ∃ key, Identity.signatureHash P signature = .ok key

theorem SignedBy.key {reply metadata : Dict} {signature : PyStr}
    (h : SignedBy P reply metadata signature) :
    ∃ key, Identity.signatureHash P signature = .ok key ∧ replyKey P reply = some key := by
  obtain ⟨key, hkey⟩ := h.hashable
  refine ⟨key, hkey, ?_⟩
  simp [replyKey, h.raven, h.text, hkey, Except.toOption]

theorem SignedBy.set {reply metadata : Dict} {signature key : PyStr} {v : Value}
    (h : SignedBy P reply metadata signature) (hkey : lit "raven" ≠ key) :
    SignedBy P (Json.dictSet reply key v) metadata signature :=
  { h with raven := by rw [Json.getD_dictSet, if_neg hkey, h.raven] }

/-- Where the key of the outcome table is defined, that of the cache is. -/
theorem ledgerKey_defined {signature key : PyStr} (h : signatureHash P signature = .ok key) :
    ∃ key, Identity.signatureHash P signature = .ok key := by
  unfold signatureHash at h
  unfold Identity.signatureHash
  split at h
  · rename_i raw hraw
    exact ⟨_, by rw [hraw]; rfl⟩
  · cases h

theorem validatedEnvelope_signed {items : Dict} {kind : PyStr} {env : Envelope}
    (h : validatedEnvelope P (.dict items) kind = .ok env) :
    SignedBy P items env.metadata env.signature := by
  have hvalid := validatedEnvelope_ok h
  unfold validatedEnvelope at h
  dsimp only at h
  split at h
  · rename_i metadata hmetadata
    split at h
    · simp only [bind_ok, checkUnicode_ok, require_ok, exists_const] at h
      obtain ⟨_, _, _, _, _, _, _, _, _, _, _, _, _, _, _, _, _, _, _, h⟩ := h
      split at h
      · rename_i signature hsignature
        simp only [bind_ok, require_ok, exists_const, pure_ok] at h
        obtain ⟨_, key, hkey, rfl⟩ := h
        exact ⟨hmetadata, hsignature, ledgerKey_defined hkey⟩
      · cases h
    · cases h
  · cases h

/-! ## Verification -/

section
variable {node : RelayNode} {policy : Policy} {now : Int}

theorem checkReply_ok {items : Dict} {signature : PyStr}
    (h : checkReply P node policy now (.dict items) = .ok signature) :
    ∃ metadata, SignedBy P items metadata signature := by
  simp only [checkReply, bind_ok, orReject_ok, pure_ok] at h
  obtain ⟨env, henv, h⟩ := h
  have hsigned := validatedEnvelope_signed henv
  obtain ⟨_, _, _, _, _, _, _, _, _, _, _, _, _, _, rfl⟩ := h
  exact ⟨env.metadata, hsigned⟩

/-- The reply has an infinite bound, and all that is checked before the bounds is in order. -/
def PoisonedReply (P : Platform) (node : RelayNode) (policy : Policy) (envelope : Value) : Prop :=
  ∃ env peers revoked, validatedEnvelope P envelope (lit "answer") = .ok env ∧
    policy.peers = .ok peers ∧ policy.revocations = .ok revoked ∧
    getStr P env.metadata "sender" = .ok env.sender ∧ env.recipient = node.address P ∧
    ReachesBounds P env.metadata peers revoked ⟨node.address P, env.taskId, lit "answer"⟩ ∧
    InfiniteBound P env.metadata

theorem checkReply_raises_iff {envelope : Value} {peers : Peers} {revoked : List PyStr}
    (hprintable : Json.Printable envelope) (hclock : ClockReading now)
    (hpeers : policy.peers = .ok peers) (hrevocations : policy.revocations = .ok revoked) :
    Raises (checkReply P node policy now envelope) ↔ PoisonedReply P node policy envelope := by
  have hiff : ∀ env : Envelope, Validated P envelope env →
      (Raises (checkDelegation P env.metadata env.text peers revoked
        ⟨node.address P, env.taskId, lit "answer"⟩ now) ↔
        ReachesBounds P env.metadata peers revoked ⟨node.address P, env.taskId, lit "answer"⟩ ∧
          InfiniteBound P env.metadata) := fun env hvalid => by
    have htask : Encodes ⟨node.address P, env.taskId, lit "task"⟩ env.text := hvalid.encodes
    have hkind : ∃ b, encodeAscii (lit "answer") = .ok b ∧ b.length ≤ lpMaxLen := by
      obtain ⟨b, hb, hlen⟩ := encodeAscii_of_ascii (s := lit "answer") (by decide)
      have hshort : (lit "answer").length = 6 := by decide
      exact ⟨b, hb, by unfold lpMaxLen; omega⟩
    exact checkDelegation_raises_iff (hvalid.printable hprintable) hclock
      ⟨htask.recipient, htask.taskId, hkind, htask.text⟩
      ⟨Address.encode_ne_nil P node.identity.publicBytes, hvalid.taskId_short.1⟩
  constructor
  · intro h
    unfold checkReply at h
    obtain ⟨env, henv, h⟩ := h.next (not_raises_orReject (validatedEnvelope_raises _ _))
    rw [orReject_ok] at henv
    have hvalid := validatedEnvelope_ok henv
    have hmetadata := hvalid.printable hprintable
    obtain ⟨sender, hsender, h⟩ := h.next (not_raises_raising (getStr_defined hmetadata _))
    obtain ⟨_, hsame, h⟩ := h.next (not_raises_ensure _ _)
    obtain ⟨_, hrecipient, h⟩ := h.next (not_raises_ensure _ _)
    rw [hpeers, hrevocations] at h
    obtain ⟨peers', hpeers', h⟩ := h.next (not_raises_raising ⟨_, rfl⟩)
    obtain ⟨revoked', hrevoked', h⟩ := h.next (not_raises_raising ⟨_, rfl⟩)
    rw [raising_ok] at hsender hpeers' hrevoked'
    rw [ensure_ok] at hsame hrecipient
    obtain rfl := Except.ok.inj hpeers'
    obtain rfl := Except.ok.inj hrevoked'
    rcases raises_bind.mp h with h | ⟨answer, hanswer, h⟩
    · obtain ⟨hreaches, hinfinite⟩ := (hiff env hvalid).mp (verifyDelegation_raises_iff.mp h).2
      exact ⟨env, peers, revoked, henv, hpeers, hrevocations, hsame ▸ hsender, hrecipient, hreaches,
        hinfinite⟩
    · obtain ⟨_, _, h⟩ := h.next (not_raises_ensure _ _)
      exact absurd h (not_raises_ok _)
  · rintro ⟨env, peers', revoked', henv, hpeers', hrevoked', hsender, hrecipient, hreaches, hinfinite⟩
    obtain rfl := Except.ok.inj (hpeers.symm.trans hpeers')
    obtain rfl := Except.ok.inj (hrevocations.symm.trans hrevoked')
    have hvalid := validatedEnvelope_ok henv
    have hraises := (hiff env hvalid).mpr ⟨hreaches, hinfinite⟩
    unfold checkReply
    apply raises_after (orReject_ok.mpr henv)
    apply raises_after (raising_ok.mpr hsender)
    apply raises_after_ensure rfl
    apply raises_after_ensure hrecipient
    apply raises_after (raising_ok.mpr hpeers)
    apply raises_after (raising_ok.mpr hrevocations)
    exact raises_bind.mpr (Or.inl (verifyDelegation_raises_iff.mpr ⟨hvalid.nonempty, hraises⟩))

end

/-! ## A turn of `take_replies` -/

/-- The file is read, and passes everything before `seen`. -/
def Verifies (P : Platform) (node : RelayNode) (glance : Glance) (file : SlotFile) : Prop :=
  ¬ malformed P file ∧ ∃ signature,
    checkReply P node glance.policy glance.verifyAt (.dict (readEnvelope P file)) = .ok signature

theorem verifiedReply_signed {file : SlotFile} {metadata : Dict} {signature : PyStr}
    (h : SignedBy P (readEnvelope P file) metadata signature) :
    SignedBy P (verifiedReply P file) metadata signature := h.set (by decide)

theorem verifiedReply_key (file : SlotFile) :
    replyKey P (verifiedReply P file) = replyKey P (readEnvelope P file) := by
  unfold replyKey verifiedReply
  rw [Json.getD_dictSet, if_neg (by decide)]

theorem readEnvelope_file (file : SlotFile) :
    Dict.getD (readEnvelope P file) (lit "_file") .none = .str file.1 := by
  unfold readEnvelope
  split
  · rw [Json.getD_dictSet, if_pos rfl]
  · rfl

section
variable {nameLimit : Nat} {node : RelayNode} {glances : SlotFile → Glance} {file : SlotFile}
  {box : ReplyBox}

theorem seen_eq {signature key : PyStr} (h : Identity.signatureHash P signature = .ok key) (now : Int)
    (db : Ledger) : seen P now signature db = .ok (decide (Recorded now key db)) := by
  simp [seen, h, Except.map]

/-- The four ways of a turn. -/
inductive TakeCase (P : Platform) (nameLimit : Nat) (node : RelayNode) (glance : Glance)
    (file : SlotFile) (box : ReplyBox) : Except PyExc Unit × ReplyBox → Prop
  | refused (reason : PyStr) (hverifies : ¬ Verifies P node glance file)
      (hrefused : malformed P file ∨ ∃ reason, checkReply P node glance.policy glance.verifyAt
        (.dict (readEnvelope P file)) = .error (.rejected reason)) :
      TakeCase P nameLimit node glance file box (reject P nameLimit glance.toTurn file reason box)
  | raised (e : PyExc) (hmalformed : ¬ malformed P file)
      (hraised : Raises (checkReply P node glance.policy glance.verifyAt
        (.dict (readEnvelope P file)))) :
      TakeCase P nameLimit node glance file box (.error e, box)
  | removed (key : PyStr) (hkey : replyKey P (readEnvelope P file) = some key)
      (hseen : Recorded glance.seenAt key box.ledger) :
      TakeCase P nameLimit node glance file box (remove file.1 box)
  | accepted (key metadata signature) (hsigned : SignedBy P (readEnvelope P file) metadata signature)
      (hkey : replyKey P (readEnvelope P file) = some key)
      (hnew : ¬ Recorded glance.seenAt key box.ledger) :
      TakeCase P nameLimit node glance file box
        (.ok (), { box with accepted := box.accepted ++ [verifiedReply P file] })

theorem takeTurn_cases (nameLimit : Nat) (node : RelayNode) (glances : SlotFile → Glance)
    (file : SlotFile) (box : ReplyBox) :
    TakeCase P nameLimit node (glances file) file box (takeTurn P nameLimit node glances file box) := by
  unfold takeTurn
  dsimp only
  by_cases hmalformed : malformed P file
  · obtain ⟨text, htext⟩ := pyStr_defined (P := P)
      (getD_printable (readEnvelope_printable P file) (lit "_parse_error") (v := .none) trivial)
    rw [if_pos hmalformed, htext]
    exact .refused _ (fun h => h.1 hmalformed) (Or.inl hmalformed)
  · rw [if_neg hmalformed]
    cases hcheck : checkReply P node (glances file).policy (glances file).verifyAt
        (.dict (readEnvelope P file)) with
    | error stop =>
      cases stop with
      | rejected reason =>
        refine .refused _ ?_ (Or.inr ⟨reason, hcheck⟩)
        rintro ⟨_, signature, h⟩
        rw [hcheck] at h
        cases h
      | raised e => exact .raised e hmalformed ⟨e, hcheck⟩
    | ok signature =>
      obtain ⟨metadata, hsigned⟩ := checkReply_ok hcheck
      obtain ⟨key, hhash, hkey⟩ := hsigned.key
      dsimp only
      rw [seen_eq hhash]
      by_cases hseen : Recorded (glances file).seenAt key box.ledger
      · rw [decide_eq_true hseen]
        exact .removed key hkey hseen
      · rw [decide_eq_false hseen]
        exact .accepted key metadata signature hsigned hkey hseen

end

end Rdap.Relay
