import Rdap.Identity.Completeness

/-!
# Revoked addresses

The loader lets through every string that the address decoder reads as a version 1 address.
The points of enforcement look the sender up as a string, and a sender is always the
canonical address of its key.
-/

set_option autoImplicit false

namespace Rdap.Identity
open Python Protocol Lib

variable (P : Platform)

/-- What the decoder must answer for an entry of the file. -/
def validRevocation (address : PyStr) : Bool :=
  match Address.decode address with
  | some (publicHash, version) => version = 1 && publicHash.length = 20
  | none => false

/-- `load_revocations` on the parsed file. -/
def loadRevocations (raw : Value) : Except PyExc (List PyStr) :=
  let listed := match raw with
    | .dict items => Dict.getD items (lit "revoked") (.list [])
    | v => v
  match listed with
  | .list entries => do
    let revoked ← entries.mapM (pyStr P)
    match revoked.find? fun a => !validRevocation a with
    | some address => valueError (lit "invalid revoked RVN address: " ++ address)
    | none => return revoked
  | _ => valueError (lit "revocation file must be a JSON list or an object with revoked")

/-- `_authorize_cancellation`; the two files are loaded together. -/
def authorizeCancellation (requireSigned : Bool) (peers : Except PyExc Peers)
    (revocations : Except PyExc (List PyStr)) (userName : PyStr) (isAuthenticated : Bool) :
    Except PyExc Unit :=
  let denied : PyExc := ⟨.permissionError, lit "Raven cancellation authorization failed"⟩
  if userName = [] then .error denied
  else if !requireSigned then .ok ()
  else do
    let peers ← peers
    let revoked ← revocations
    if !isAuthenticated || !peers.contains userName || userName ∈ revoked then .error denied
    else .ok ()

/-- No HTTP request under the address verifies, whatever else it says. -/
def RefusedByHttp (revoked : List PyStr) (address : PyStr) : Prop :=
  ∀ authorization method target body trustedPeers recipient cache faults now later db,
    getStr P authorization "address" = .ok address →
    ∃ reason, (verifyHttpRequest P authorization method target body trustedPeers recipient revoked
      cache faults now later db).1 = .ok (false, reason, [])

/-- No delegation under the address verifies. -/
def RefusedByDelegation (revoked : List PyStr) (address : PyStr) : Prop :=
  ∀ metadata taskText trustedPeers required cache expected consumeReplay faults now later db,
    metadata ≠ [] → getStr P metadata "sender" = .ok address →
    ∃ reason, (verifyDelegation P metadata taskText trustedPeers required revoked cache expected
      consumeReplay faults now later db).1 = .ok (false, reason)

/-- No cancellation by the address is authorized. -/
def RefusedByCancel (requireSigned : Bool) (revoked : List PyStr) (address : PyStr) : Prop :=
  ∀ peers isAuthenticated,
    authorizeCancellation requireSigned peers (.ok revoked) address isAuthenticated ≠ .ok ()

variable {P}

theorem refusedByHttp_of_mem {revoked : List PyStr} {address : PyStr} (h : address ∈ revoked) :
    RefusedByHttp P revoked address := by
  intro authorization method target body trustedPeers recipient cache faults now later db hsender
  have hcheck : ∃ reason, checkHttpRequest P authorization method target body trustedPeers
      recipient revoked now = .error (.rejected reason) := by
    cases hpin : trustedPeers.get? address <;>
      simp [checkHttpRequest, hsender, raising, hpin, ensure, h, bind, Except.bind]
  obtain ⟨reason, hcheck⟩ := hcheck
  exact ⟨reason, by simp [verifyHttpRequest, hcheck]⟩

theorem refusedByDelegation_of_mem {revoked : List PyStr} {address : PyStr} (h : address ∈ revoked) :
    RefusedByDelegation P revoked address := by
  intro metadata taskText trustedPeers required cache expected consumeReplay faults now later db
    hne hsender
  have hcheck : ∃ reason, checkDelegation P metadata taskText trustedPeers revoked expected now =
      .error (.rejected reason) := by
    cases hpin : trustedPeers.get? address <;>
      simp [checkDelegation, hsender, raising, hpin, ensure, h, bind, Except.bind]
  obtain ⟨reason, hcheck⟩ := hcheck
  exact ⟨reason, by simp [verifyDelegation, hne, hcheck]⟩

section Signer
variable {publicKey : Bytes} {sign : Bytes → Bytes}

/-- The policy that pins one key under its own address. -/
def pinOnly (P : Platform) (publicKey : Bytes) : Peers :=
  KeyedTable.empty.set (Address.encode P publicKey) (hex publicKey)

theorem pinOnly_get (publicKey : Bytes) :
    (pinOnly P publicKey).get? (Address.encode P publicKey) = some (hex publicKey) :=
  KeyedTable.get?_set_self _ _ _

theorem refusedByHttp_iff (hsigns : Signs P publicKey sign) {revoked : List PyStr} :
    RefusedByHttp P revoked (Address.encode P publicKey) ↔ Address.encode P publicKey ∈ revoked := by
  refine ⟨?_, refusedByHttp_of_mem⟩
  intro h
  by_contra hnot
  obtain ⟨sig, haccepted⟩ := http_signer_accepted hsigns (pinOnly_get publicKey) hnot {}
  obtain ⟨reason, hrefused⟩ := h _ [] [] [] (pinOnly P publicKey) [] {} noFaults 0 0 .empty
    (httpAuthorization_presents (.minimal (Address.encode P publicKey)) sig).sender
  rw [haccepted] at hrefused
  simp at hrefused

theorem refusedByDelegation_iff (hsigns : Signs P publicKey sign) {revoked : List PyStr} :
    RefusedByDelegation P revoked (Address.encode P publicKey) ↔
      Address.encode P publicKey ∈ revoked := by
  refine ⟨?_, refusedByDelegation_of_mem⟩
  intro h
  by_contra hnot
  obtain ⟨sig, haccepted⟩ := delegation_signer_accepted hsigns (pinOnly_get publicKey) hnot {}
  obtain ⟨reason, hrefused⟩ := h _ [] (pinOnly P publicKey) true {} _ true noFaults 0 0 .empty
    (by simp [delegationMetadata])
    (delegationMetadata_presents (.minimal (Address.encode P publicKey)) sig).sender
  rw [haccepted] at hrefused
  simp at hrefused

end Signer

theorem refusedByCancel_iff {requireSigned : Bool} {revoked : List PyStr} {address : PyStr}
    (hne : address ≠ []) :
    RefusedByCancel requireSigned revoked address ↔ requireSigned = true ∧ address ∈ revoked := by
  constructor
  · intro h
    -- the caller is pinned and authenticated
    have hpinned := h (.ok (KeyedTable.empty.set address [])) true
    have hcontains : (KeyedTable.empty.set address ([] : PyStr)).contains address = true := by
      simp [KeyedTable.contains]
    cases requireSigned with
    | false => simp [authorizeCancellation, hne] at hpinned
    | true =>
      refine ⟨rfl, ?_⟩
      by_contra hnot
      simp [authorizeCancellation, hne, hcontains, hnot, bind, Except.bind] at hpinned
  · rintro ⟨rfl, hmem⟩ peers isAuthenticated
    cases peers <;> simp [authorizeCancellation, hne, hmem, bind, Except.bind]

/-- For a node that can sign, a revocation the loader accepted takes effect at the verifiers
exactly if the file has the canonical spelling of the address, and at the cancellation hook
exactly if signed tasks are required as well. -/
theorem revocation_effective_iff (P : Platform) {publicKey : Bytes} {sign : Bytes → Bytes}
    (hsigns : Signs P publicKey sign) :
    ∀ raw revoked, loadRevocations P raw = .ok revoked → ∀ entry ∈ revoked, ∀ version,
      Address.decode entry = some (Address.keyHash P publicKey, version) → ∀ requireSigned,
      ((RefusedByHttp P revoked (Address.encode P publicKey) ∧
          RefusedByDelegation P revoked (Address.encode P publicKey) ∧
          RefusedByCancel requireSigned revoked (Address.encode P publicKey)) ↔
        Address.encode P publicKey ∈ revoked ∧ requireSigned = true) ∧
      (RefusedByHttp P revoked (Address.encode P publicKey) ↔
        Address.encode P publicKey ∈ revoked) ∧
      (RefusedByDelegation P revoked (Address.encode P publicKey) ↔
        Address.encode P publicKey ∈ revoked) := by
  intro raw revoked _ entry _ version _ requireSigned
  refine ⟨?_, refusedByHttp_iff hsigns, refusedByDelegation_iff hsigns⟩
  rw [refusedByHttp_iff hsigns, refusedByDelegation_iff hsigns,
    refusedByCancel_iff (Address.encode_ne_nil P publicKey)]
  constructor
  · rintro ⟨hmem, _, hsigned, _⟩
    exact ⟨hmem, hsigned⟩
  · rintro ⟨hmem, hsigned⟩
    exact ⟨hmem, hmem, hsigned, hmem⟩

namespace Sample

/-- A spelling of the address of the sample peer that the loader accepts, and that neither the
verifiers nor the cancellation hook act on. -/
def Ignored (spelled : PyStr) : Prop :=
  loadRevocations platform (.list [.str spelled]) = .ok [spelled] ∧
  Address.decode spelled = some (Address.keyHash platform key, 1) ∧
  (verifyHttpRequest platform (authorization (b64encode httpSignature)) request.method
    request.target request.body peers nodeAddress [spelled] cache noFaults 1100 1100 .empty).1 =
      .ok (true, lit "HTTP authorization verified", address) ∧
  (verifyDelegation platform (metadata (b64encode delegationSignature)) delegation.text peers true
    [spelled] cache expected true noFaults 1100 1100 .empty).1 =
      .ok (true, lit "verified " ++ address) ∧
  authorizeCancellation true (.ok peers) (.ok [spelled]) address true = .ok ()

instance (spelled : PyStr) : Decidable (Ignored spelled) := inferInstanceAs (Decidable (_ ∧ _))

end Sample

/-- Either spelling is loaded as a revocation of the sample peer, which is then served
everywhere as before. -/
theorem respelled_revocation_ignored :
    Sample.Ignored (Sample.address.map asciiUpper) ∧
      Sample.Ignored (lit " " ++ Sample.address ++ lit "\n") := by
  decide +kernel

theorem revocation_effective_iff_sample :
    RefusedByHttp Sample.signingPlatform [Sample.address] Sample.address ∧
    ¬ RefusedByHttp Sample.signingPlatform [Sample.address.map asciiUpper] Sample.address := by
  have heffective := revocation_effective_iff Sample.signingPlatform Sample.signs
  have haddress : Address.encode Sample.signingPlatform Sample.key = Sample.address := rfl
  rw [haddress] at heffective
  obtain ⟨_, hlisted, _⟩ := heffective (.list [.str Sample.address]) [Sample.address]
    (by decide +kernel) Sample.address (by simp) 1 (by decide +kernel) true
  obtain ⟨_, hrespelled, _⟩ := heffective (.list [.str (Sample.address.map asciiUpper)])
    [Sample.address.map asciiUpper] (by decide +kernel) _ (List.mem_singleton.mpr rfl) 1
    (by decide +kernel) true
  refine ⟨hlisted.mpr (by simp), fun h => ?_⟩
  have hmem := hrespelled.mp h
  revert hmem
  decide +kernel

end Rdap.Identity
