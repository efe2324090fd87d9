import Mathlib.Data.Set.Function
import Rdap.Identity.Completeness
import Rdap.Protocol.Hmac
import Rdap.Protocol.SigningSeparation

/-!
# The pairing handshake

What the first version derives from an init, and how either side checks what it received: the responder
the init against the certificates and prekeys it trusts, the initiator the response against the init it
sent and the root it holds. A check is a chain of comparisons that ends with the first that fails.
-/

set_option autoImplicit false

namespace Rdap.Protocol.Pairing.V1
open Python Lib Identity

def transcriptDomain : Bytes := asciiBytes (lit "ATSAM/v1/transcript")
def pairInitLabel : Bytes := asciiBytes (lit "ATSAM/v1/pair-init")
def confirmLabel : Bytes := asciiBytes (lit "ATSAM/pair-init/v1/confirm")
def sessionIdDomain : Bytes := asciiBytes (lit "rvn1/pair-session")

variable (P : Platform)

/-! ## Digests -/

def initHash (value : PairInit) : Except PyExc Bytes := do
  let wire ← encodeInit P value
  return P.sha256 (initSigningDomain ++ wire)

def sessionId (value : PairInit) : Except PyExc Bytes := do
  let digest ← initHash P value
  return P.sha256 (sessionIdDomain ++ digest)

def transcriptMaterial (value : PairInit) : Except PyExc Bytes := do
  (init P).validate value true
  let wire ← encodeInit P value
  return initSigningDomain ++ wire

def transcriptHash (value : PairInit) : Except PyExc Bytes := do
  let material ← transcriptMaterial P value
  return P.sha256 (transcriptDomain ++ material)

/-- `_hkdf_sha256` of `pair_init`: one block. -/
def hkdfBlock (ikm salt info : Bytes) : Except PyExc Bytes := do
  requireBytes salt 32 (lit "HKDF salt")
  let prk := hmacSha256 P salt ikm
  return hmacSha256 P prk (info ++ [1])

def deriveProvisionalRoot (zX zPq : Bytes) (value : PairInit) : Except PyExc Bytes := do
  requireBytes zX 32 (lit "z_x")
  requireBytes zPq 32 (lit "z_pq")
  let digest ← transcriptHash P value
  hkdfBlock P (zX ++ zPq) digest (pairInitLabel ++ digest)

def confirmationTag (root initDigest : Bytes) : Except PyExc Bytes := do
  requireBytes root 32 (lit "root")
  requireBytes initDigest 32 (lit "init_hash")
  return hmacSha256 P root (confirmLabel ++ [0] ++ initDigest)

/-! ## Comparisons -/

/-- `except (InvalidSignature, ValueError): return False` -/
def orFalse : Except PyExc Bool → Except PyExc Bool
  | .error e => if e.kind.isValueError then .ok false else .error e
  | .ok b => .ok b

/-- `if not c: return False` -/
def holds (c : Prop) [Decidable c] : Except PyExc Bool := .ok (decide c)

/-- `value != _require_bytes(expected, length, field_name)` is not the case. -/
def sameBytes (value expected : Bytes) (length : Nat) (fieldName : PyStr) : Except PyExc Bool := do
  requireBytes expected length fieldName
  return decide (value = expected)

/-- `address.encode(_require_bytes(key, 32, field_name)) != value` is not the case. -/
def sameAddress (value : PyStr) (identityEdPub : Bytes) (fieldName : PyStr) : Except PyExc Bool := do
  requireBytes identityEdPub 32 fieldName
  return decide (Address.encode P identityEdPub = value)

def signatureHolds (publicKey signature : Bytes) (signingBytes : Except PyExc Bytes) : Except PyExc Bool := do
  let message ← signingBytes
  return P.ed25519Verify publicKey signature message

def sameTag (tag root digest : Bytes) : Except PyExc Bool := do
  let expected ← confirmationTag P root digest
  return decide (tag = expected)

/-- What the caller of `verify_init` holds of certificates and prekeys it has checked. -/
structure Expected where
  initiatorIdentityEdPub : Bytes
  responderIdentityEdPub : Bytes
  initiatorDeviceEdPub : Bytes
  responderDeviceEdPub : Bytes
  responderSignedX25519Pub : Bytes
  responderOneTimeX25519Pub : Bytes
  initiatorDeviceCertHash : Bytes
  responderDeviceCertHash : Bytes
  responderPrekeyBundleHash : Bytes
  signedPrekeyId : Int
  oneTimePrekeyId : Int
  responderMlkem768Ek : Bytes
  trustNotBeforeMs : Int
  trustNotAfterMs : Int

/-- The comparisons of `verify_init`, in their order. -/
def initComparisons (value : PairInit) (expected : Expected) (nowMs : Int) : List (Except PyExc Bool) :=
  [sameAddress P value.initiatorAddress expected.initiatorIdentityEdPub (lit "initiator_identity_ed_pub"),
    sameAddress P value.responderAddress expected.responderIdentityEdPub (lit "responder_identity_ed_pub"),
    sameBytes value.initiatorDeviceEdPub expected.initiatorDeviceEdPub 32 (lit "expected_initiator_device_ed_pub"),
    sameBytes value.responderDeviceEdPub expected.responderDeviceEdPub 32 (lit "expected_responder_device_ed_pub"),
    sameBytes value.responderSignedX25519Pub expected.responderSignedX25519Pub 32
      (lit "expected_responder_signed_x25519_pub"),
    sameBytes value.responderOneTimeX25519Pub expected.responderOneTimeX25519Pub 32
      (lit "expected_responder_one_time_x25519_pub"),
    sameBytes value.initiatorDeviceCertHash expected.initiatorDeviceCertHash 32
      (lit "expected_initiator_device_cert_hash"),
    sameBytes value.responderDeviceCertHash expected.responderDeviceCertHash 32
      (lit "expected_responder_device_cert_hash"),
    sameBytes value.responderPrekeyBundleHash expected.responderPrekeyBundleHash 32
      (lit "expected_responder_prekey_bundle_hash"),
    holds (value.signedPrekeyId = expected.signedPrekeyId),
    holds (value.oneTimePrekeyId = expected.oneTimePrekeyId),
    sameBytes value.responderMlkem768Ek expected.responderMlkem768Ek mlkem768EkLen
      (lit "expected_responder_mlkem768_ek"),
    holds (¬(value.createdAtMs < expected.trustNotBeforeMs ∨ value.expiresAtMs > expected.trustNotAfterMs)),
    holds (value.createdAtMs ≤ nowMs ∧ nowMs < value.expiresAtMs),
    signatureHolds P value.initiatorDeviceEdPub value.signature (initSigningBytes P value)]

def verifyInit (value : PairInit) (expected : Expected) (nowMs : Int) : Except PyExc Bool :=
  orFalse do
    (init P).validate value true
    (initComparisons P value expected nowMs).allM id

/-- The comparisons of `verify_response` from the digest of the init on. -/
def responseComparisons (value : PairResponse) (acceptedInit : PairInit) (root digest : Bytes) (nowMs : Int) :
    List (Except PyExc Bool) :=
  [holds (value.initHash = digest),
    holds (value.responderDeviceEdPub = acceptedInit.responderDeviceEdPub),
    holds (¬(value.createdAtMs < acceptedInit.createdAtMs ∨ value.createdAtMs ≥ acceptedInit.expiresAtMs ∨
      value.expiresAtMs > acceptedInit.expiresAtMs)),
    holds (value.createdAtMs ≤ nowMs ∧ nowMs < value.expiresAtMs),
    sameTag P value.confirmationTag root digest,
    signatureHolds P value.responderDeviceEdPub value.signature (responseSigningBytes value)]

def verifyResponse (value : PairResponse) (acceptedInit : PairInit) (root : Bytes) (nowMs : Int) :
    Except PyExc Bool :=
  orFalse do
    response.validate value true
    if value.initId = acceptedInit.initId then do
      let digest ← initHash P acceptedInit
      (responseComparisons P value acceptedInit root digest nowMs).allM id
    else
      return false

/-! ## When they answer -/

/-- No exception but one that the checks turn into `False`. -/
def OnlyValueErrors {α : Type} (x : Except PyExc α) : Prop :=
  ∀ e, x = .error e → e.kind.isValueError = true

section
variable {P} {α β : Type}

theorem OnlyValueErrors.ok (a : α) : OnlyValueErrors (.ok a) := by
  intro e h
  cases h

theorem OnlyValueErrors.bind {x : Except PyExc α} {f : α → Except PyExc β} (h : OnlyValueErrors x)
    (hf : ∀ a, x = .ok a → OnlyValueErrors (f a)) : OnlyValueErrors (x >>= f) := by
  cases x with
  | error e =>
    intro e' he
    obtain rfl : e = e' := Except.error.inj he
    exact h e rfl
  | ok a => exact hf a rfl

theorem onlyValueErrors_orRaise {c : Prop} [Decidable c] {message : PyStr} : OnlyValueErrors (orRaise c message) := by
  intro e h
  rw [(orRaise_error.mp h).2]
  rfl

theorem onlyValueErrors_requireBytes {value : Bytes} {length : Nat} {fieldName : PyStr} :
    OnlyValueErrors (requireBytes value length fieldName) := onlyValueErrors_orRaise

theorem onlyValueErrors_u32 {n : Int} : OnlyValueErrors (u32 n) :=
  onlyValueErrors_orRaise.bind fun _ _ => .ok _

theorem onlyValueErrors_u64 {n : Int} : OnlyValueErrors (u64 n) :=
  onlyValueErrors_orRaise.bind fun _ _ => .ok _

theorem onlyValueErrors_validateTime {createdAtMs expiresAtMs : Int} :
    OnlyValueErrors (validateTime createdAtMs expiresAtMs) :=
  onlyValueErrors_u64.bind fun _ _ => onlyValueErrors_u64.bind fun _ _ => onlyValueErrors_orRaise

theorem onlyValueErrors_validateOneTimeSlot {value : PairInit} : OnlyValueErrors (validateOneTimeSlot value) := by
  unfold validateOneTimeSlot
  split <;> exact onlyValueErrors_orRaise

theorem onlyValueErrors_encodeAscii {s : PyStr} : OnlyValueErrors (encodeAscii s) := by
  intro e h
  unfold encodeAscii at h
  split at h
  · cases h
  · rw [← Except.error.inj h]
    rfl

theorem onlyValueErrors_addressBytes {value fieldName : PyStr} : OnlyValueErrors (addressBytes P value fieldName) := by
  unfold addressBytes
  split
  · intro e h
    rw [← Except.error.inj h]
    rfl
  · exact onlyValueErrors_encodeAscii.bind fun _ _ => onlyValueErrors_orRaise.bind fun _ _ => .ok _

theorem onlyValueErrors_checkInitV1 {value : PairInit} : OnlyValueErrors (checkInitV1 P value) := by
  unfold checkInitV1
  -- One step of the check at a time: an address, a width, a word or a condition.
  repeat' first
    | exact onlyValueErrors_validateTime
    | refine onlyValueErrors_orRaise.bind fun _ _ => ?_
    | refine onlyValueErrors_requireBytes.bind fun _ _ => ?_
    | refine onlyValueErrors_addressBytes.bind fun _ _ => ?_
    | refine onlyValueErrors_u32.bind fun _ _ => ?_
    | refine onlyValueErrors_validateOneTimeSlot.bind fun _ _ => ?_

theorem onlyValueErrors_checkResponseV1 {value : PairResponse} : OnlyValueErrors (checkResponseV1 value) := by
  unfold checkResponseV1
  repeat' first
    | exact onlyValueErrors_orRaise
    | refine onlyValueErrors_orRaise.bind fun _ _ => ?_
    | refine onlyValueErrors_requireBytes.bind fun _ _ => ?_
    | refine onlyValueErrors_validateTime.bind fun _ _ => ?_

theorem onlyValueErrors_validate {f : Format α} {value : α} {requireSignature : Bool}
    (hcheck : OnlyValueErrors (f.check value)) : OnlyValueErrors (f.validate value requireSignature) := by
  unfold Format.validate
  apply hcheck.bind
  intro _ _
  cases requireSignature with
  | true => exact onlyValueErrors_requireBytes
  | false => exact .ok _

/-- A record that passes its check has signing bytes: no assertion of the encoder fails. -/
theorem signingBytes_defined {f : Format α} {value : α} (hcheck : f.check value = .ok ()) :
    ∃ m, f.signingBytes value = .ok m := by
  obtain ⟨fields, hsigned, -⟩ := f.signed_widths value hcheck
  exact ⟨_, Format.signingBytes_ok.mpr ⟨hcheck, fields, hsigned, rfl⟩⟩

theorem encode_defined {f : Format α} {value : α} (hcheck : f.check value = .ok ())
    (hsignature : (f.signature value).length = signatureLen) : ∃ wire, f.encode value = .ok wire := by
  obtain ⟨fields, hsigned, -⟩ := f.signed_widths value hcheck
  exact ⟨_, Format.encode_ok.mpr ⟨hcheck, hsignature, fields, hsigned, rfl⟩⟩

theorem onlyValueErrors_of_defined {x : Except PyExc α} (h : ∃ a, x = .ok a) : OnlyValueErrors x := by
  obtain ⟨a, rfl⟩ := h
  exact .ok a

theorem onlyValueErrors_encode {f : Format α} {value : α} (hcheck : OnlyValueErrors (f.check value)) :
    OnlyValueErrors (f.encode value) := by
  intro e h
  cases hvalid : f.validate value true with
  | ok u =>
    obtain ⟨wire, hwire⟩ := encode_defined (Format.validate_ok.mp hvalid).1 (Format.validate_ok.mp hvalid).2
    rw [hwire] at h
    cases h
  | error e' =>
    unfold Format.encode at h
    rw [hvalid] at h
    obtain rfl : e' = e := Except.error.inj h
    exact onlyValueErrors_validate hcheck e' hvalid

theorem onlyValueErrors_allM {checks : List (Except PyExc Bool)} (h : ∀ c ∈ checks, OnlyValueErrors c) :
    OnlyValueErrors (checks.allM id) := by
  induction checks with
  | nil => exact .ok true
  | cons c rest ih =>
    rw [List.allM]
    apply (h c List.mem_cons_self).bind
    rintro (_ | _) -
    · exact .ok false
    · exact ih fun d hd => h d (List.mem_cons_of_mem c hd)

theorem allM_true {checks : List (Except PyExc Bool)} :
    checks.allM id = .ok true ↔ ∀ c ∈ checks, c = .ok true := by
  induction checks with
  | nil => simp [List.allM, pure, Except.pure]
  | cons c rest ih =>
    rw [List.allM, bind_ok, List.forall_mem_cons, ← ih]
    constructor
    · rintro ⟨_ | _, hc, h⟩
      · cases h
      · exact ⟨hc, h⟩
    · rintro ⟨hc, h⟩
      exact ⟨true, hc, h⟩

theorem orFalse_true {x : Except PyExc Bool} : orFalse x = .ok true ↔ x = .ok true := by
  unfold orFalse
  split
  · split <;> simp
  · exact Iff.rfl

theorem OnlyValueErrors.answers {x : Except PyExc Bool} (h : OnlyValueErrors x) : ∃ b, orFalse x = .ok b := by
  cases x with
  | ok b => exact ⟨b, rfl⟩
  | error e => exact ⟨false, if_pos (h e rfl)⟩

theorem holds_true {c : Prop} [Decidable c] : holds c = .ok true ↔ c := by
  simp [holds]

theorem sameBytes_true {value expected : Bytes} {length : Nat} {fieldName : PyStr} :
    sameBytes value expected length fieldName = .ok true ↔ expected.length = length ∧ value = expected := by
  unfold sameBytes
  simp only [bind_ok, pure_ok, requireBytes_ok, exists_const, decide_eq_true_eq]

theorem sameAddress_true {value : PyStr} {identityEdPub : Bytes} {fieldName : PyStr} :
    sameAddress P value identityEdPub fieldName = .ok true ↔
      identityEdPub.length = 32 ∧ Address.encode P identityEdPub = value := by
  unfold sameAddress
  simp only [bind_ok, pure_ok, requireBytes_ok, exists_const, decide_eq_true_eq]

theorem signatureHolds_true {publicKey signature : Bytes} {signingBytes : Except PyExc Bytes} :
    signatureHolds P publicKey signature signingBytes = .ok true ↔
      ∃ m, signingBytes = .ok m ∧ P.ed25519Verify publicKey signature m = true := by
  unfold signatureHolds
  simp only [bind_ok, pure_ok]

theorem confirmationTag_ok {root digest tag : Bytes} :
    confirmationTag P root digest = .ok tag ↔
      root.length = 32 ∧ digest.length = 32 ∧ hmacSha256 P root (confirmLabel ++ [0] ++ digest) = tag := by
  unfold confirmationTag
  simp only [bind_ok, pure_ok, requireBytes_ok, exists_const]

theorem sameTag_true {tag root digest : Bytes} :
    sameTag P tag root digest = .ok true ↔ confirmationTag P root digest = .ok tag := by
  unfold sameTag
  simp only [bind_ok, pure_ok, decide_eq_true_eq]
  constructor
  · rintro ⟨t, ht, rfl⟩
    exact ht
  · intro h
    exact ⟨tag, h, rfl⟩

end

end Rdap.Protocol.Pairing.V1
