import Rdap.Braid.WireReader
import Rdap.Protocol.Address
import Rdap.Protocol.SignedRecord
import Rdap.Python.Ascii

/-!
# Pairing records

The two versions have the same records and the same layout behind different magics and profiles.
What differs is what they check: the first version takes no key, hash or ciphertext of zeros.
-/

set_option autoImplicit false

namespace Rdap.Protocol.Pairing
open Python Lib Braid

def addressLen : Nat := 44
def initIdLen : Nat := 16
def nonceLen : Nat := 32
def ed25519KeyLen : Nat := 32
def x25519KeyLen : Nat := 32
def mlkem768EkLen : Nat := 1184
def mlkem768CtLen : Nat := 1088
def initiatorRole : UInt8 := 0
def responderRole : UInt8 := 1

structure PairInit where
  initiatorAddress : PyStr
  responderAddress : PyStr
  initId : Bytes
  pairingNonce : Bytes
  initiatorDeviceEdPub : Bytes
  responderDeviceEdPub : Bytes
  initiatorEphemeralX25519Pub : Bytes
  responderSignedX25519Pub : Bytes
  responderOneTimeX25519Pub : Bytes
  initiatorDeviceCertHash : Bytes
  responderDeviceCertHash : Bytes
  responderPrekeyBundleHash : Bytes
  signedPrekeyId : Int
  oneTimePrekeyId : Int
  responderMlkem768Ek : Bytes
  mlkem768Ciphertext : Bytes
  createdAtMs : Int
  expiresAtMs : Int
  signature : Bytes
  deriving DecidableEq

structure PairResponse where
  initId : Bytes
  initHash : Bytes
  responderDeviceEdPub : Bytes
  createdAtMs : Int
  expiresAtMs : Int
  confirmationTag : Bytes
  signature : Bytes
  deriving DecidableEq

/-! ## Checks -/

variable (P : Platform)

def zeros (n : Nat) : Bytes := List.replicate n 0

def u32 (value : Int) : Except PyExc Bytes := do
  orRaise (Word 4 value) (lit "value must fit u32")
  return word 4 value

def u64 (value : Int) : Except PyExc Bytes := do
  orRaise (Word 8 value) (lit "value must fit u64")
  return word 8 value

def requireCanonicalAddress (value : PyStr) : Except PyExc Unit := do
  orRaise (value ≠ []) (lit "address must be a non-empty string")
  orRaise (value.all isAscii = true) (lit "address must be ASCII")
  match Address.decode value with
  | none => valueError (lit "address must be canonical lowercase RavenAddressV1")
  | some (_, version) =>
    orRaise (value = strip value ∧ value = P.lower value)
      (lit "address must be canonical lowercase RavenAddressV1")
    orRaise (version = Address.addressVersion) (lit "unsupported Raven address version")

def addressBytes (value fieldName : PyStr) : Except PyExc Bytes :=
  match requireCanonicalAddress P value with
  | .error e => valueError (lit "invalid " ++ fieldName ++ lit ": " ++ e.message)
  | .ok _ => do
    let encoded ← encodeAscii value
    orRaise (encoded.length = addressLen)
      (fieldName ++ lit " must be exactly " ++ natDecimal addressLen ++ lit " ASCII bytes")
    return encoded

def validateTime (createdAtMs expiresAtMs : Int) : Except PyExc Unit := do
  let _ ← u64 createdAtMs
  let _ ← u64 expiresAtMs
  orRaise (createdAtMs < expiresAtMs) (lit "expires_at_ms must be greater than created_at_ms")

/-- The one-time key slot is filled just if its id is not zero. -/
def validateOneTimeSlot (value : PairInit) : Except PyExc Unit :=
  if value.oneTimePrekeyId = 0 then
    orRaise (value.responderOneTimeX25519Pub = zeros x25519KeyLen)
      (lit "zero one_time_prekey_id requires an all-zero one-time key slot")
  else
    orRaise (value.responderOneTimeX25519Pub ≠ zeros x25519KeyLen)
      (lit "non-zero one_time_prekey_id requires a one-time X25519 key")

/-! ## Version 1 -/

/-- `_validate_init` of `pair_init`, but for the signature. -/
def checkInitV1 (value : PairInit) : Except PyExc Unit := do
  let initiator ← addressBytes P value.initiatorAddress (lit "initiator_address")
  let responder ← addressBytes P value.responderAddress (lit "responder_address")
  orRaise (initiator ≠ responder) (lit "PairInit endpoints must differ")
  requireBytes value.initId initIdLen (lit "init_id")
  orRaise (value.initId ≠ zeros initIdLen) (lit "init_id must not be all-zero")
  requireBytes value.pairingNonce nonceLen (lit "pairing_nonce")
  orRaise (value.pairingNonce ≠ zeros nonceLen) (lit "pairing_nonce must not be all-zero")
  requireBytes value.initiatorDeviceEdPub ed25519KeyLen (lit "initiator_device_ed_pub")
  requireBytes value.responderDeviceEdPub ed25519KeyLen (lit "responder_device_ed_pub")
  orRaise (value.initiatorDeviceEdPub ≠ zeros ed25519KeyLen ∧ value.responderDeviceEdPub ≠ zeros ed25519KeyLen)
    (lit "PairInit device signing keys must not be all-zero")
  orRaise (value.initiatorDeviceEdPub ≠ value.responderDeviceEdPub)
    (lit "PairInit device signing keys must differ")
  requireBytes value.initiatorEphemeralX25519Pub x25519KeyLen (lit "initiator_ephemeral_x25519_pub")
  orRaise (value.initiatorEphemeralX25519Pub ≠ zeros x25519KeyLen)
    (lit "initiator_ephemeral_x25519_pub must not be all-zero")
  requireBytes value.responderSignedX25519Pub x25519KeyLen (lit "responder_signed_x25519_pub")
  orRaise (value.responderSignedX25519Pub ≠ zeros x25519KeyLen)
    (lit "responder_signed_x25519_pub must not be all-zero")
  requireBytes value.responderOneTimeX25519Pub x25519KeyLen (lit "responder_one_time_x25519_pub")
  requireBytes value.initiatorDeviceCertHash 32 (lit "initiator_device_cert_hash")
  requireBytes value.responderDeviceCertHash 32 (lit "responder_device_cert_hash")
  requireBytes value.responderPrekeyBundleHash 32 (lit "responder_prekey_bundle_hash")
  orRaise (value.initiatorDeviceCertHash ≠ zeros 32 ∧ value.responderDeviceCertHash ≠ zeros 32 ∧
    value.responderPrekeyBundleHash ≠ zeros 32) (lit "certificate and prekey hashes must not be all-zero")
  let _ ← u32 value.signedPrekeyId
  orRaise (value.signedPrekeyId ≠ 0) (lit "signed_prekey_id must be non-zero")
  let _ ← u32 value.oneTimePrekeyId
  validateOneTimeSlot value
  requireBytes value.responderMlkem768Ek mlkem768EkLen (lit "responder_mlkem768_ek")
  orRaise (value.responderMlkem768Ek ≠ zeros mlkem768EkLen) (lit "responder_mlkem768_ek must not be all-zero")
  requireBytes value.mlkem768Ciphertext mlkem768CtLen (lit "mlkem768_ciphertext")
  orRaise (value.mlkem768Ciphertext ≠ zeros mlkem768CtLen) (lit "mlkem768_ciphertext must not be all-zero")
  validateTime value.createdAtMs value.expiresAtMs

/-- `_validate_response` of `pair_init`, but for the signature. -/
def checkResponseV1 (value : PairResponse) : Except PyExc Unit := do
  requireBytes value.initId initIdLen (lit "init_id")
  orRaise (value.initId ≠ zeros initIdLen) (lit "init_id must not be all-zero")
  requireBytes value.initHash 32 (lit "init_hash")
  requireBytes value.responderDeviceEdPub 32 (lit "responder_device_ed_pub")
  validateTime value.createdAtMs value.expiresAtMs
  requireBytes value.confirmationTag 32 (lit "confirmation_tag")
  orRaise (value.initHash ≠ zeros value.initHash.length ∧
    value.responderDeviceEdPub ≠ zeros value.responderDeviceEdPub.length ∧
    value.confirmationTag ≠ zeros value.confirmationTag.length)
    (lit "PairResponse fixed fields must not be all-zero")

/-! ## Version 2 -/

/-- `_validate_init` of `pair_init_v2`, but for the signature. -/
def checkInitV2 (value : PairInit) : Except PyExc Unit := do
  let initiator ← addressBytes P value.initiatorAddress (lit "initiator_address")
  let responder ← addressBytes P value.responderAddress (lit "responder_address")
  orRaise (initiator ≠ responder) (lit "PairInit endpoints must differ")
  requireBytes value.initId initIdLen (lit "init_id")
  orRaise (value.initId ≠ zeros initIdLen) (lit "init_id must not be all-zero")
  requireBytes value.pairingNonce nonceLen (lit "pairing_nonce")
  orRaise (value.pairingNonce ≠ zeros nonceLen) (lit "pairing_nonce must not be all-zero")
  requireBytes value.initiatorDeviceEdPub ed25519KeyLen (lit "initiator_device_ed_pub")
  requireBytes value.responderDeviceEdPub ed25519KeyLen (lit "responder_device_ed_pub")
  orRaise (value.initiatorDeviceEdPub ≠ value.responderDeviceEdPub)
    (lit "PairInit device signing keys must differ")
  requireBytes value.initiatorEphemeralX25519Pub x25519KeyLen (lit "initiator_ephemeral_x25519_pub")
  requireBytes value.responderSignedX25519Pub x25519KeyLen (lit "responder_signed_x25519_pub")
  orRaise (value.responderSignedX25519Pub ≠ zeros x25519KeyLen)
    (lit "responder_signed_x25519_pub (SPK) must not be all-zero")
  requireBytes value.responderOneTimeX25519Pub x25519KeyLen (lit "responder_one_time_x25519_pub")
  requireBytes value.initiatorDeviceCertHash 32 (lit "initiator_device_cert_hash")
  requireBytes value.responderDeviceCertHash 32 (lit "responder_device_cert_hash")
  requireBytes value.responderPrekeyBundleHash 32 (lit "responder_prekey_bundle_hash")
  let _ ← u32 value.signedPrekeyId
  orRaise (value.signedPrekeyId ≠ 0) (lit "signed_prekey_id must be non-zero")
  let _ ← u32 value.oneTimePrekeyId
  validateOneTimeSlot value
  requireBytes value.responderMlkem768Ek mlkem768EkLen (lit "responder_mlkem768_ek")
  requireBytes value.mlkem768Ciphertext mlkem768CtLen (lit "mlkem768_ciphertext")
  validateTime value.createdAtMs value.expiresAtMs

/-- `_validate_response` of `pair_init_v2`, but for the signature. -/
def checkResponseV2 (value : PairResponse) : Except PyExc Unit := do
  requireBytes value.initId initIdLen (lit "init_id")
  orRaise (value.initId ≠ zeros initIdLen) (lit "init_id must not be all-zero")
  requireBytes value.initHash 32 (lit "init_hash")
  requireBytes value.responderDeviceEdPub 32 (lit "responder_device_ed_pub")
  validateTime value.createdAtMs value.expiresAtMs
  requireBytes value.confirmationTag 32 (lit "confirmation_tag")

/-! ## The layout -/

def initWidths : List Nat :=
  [addressLen, addressLen, initIdLen, nonceLen, ed25519KeyLen, ed25519KeyLen, x25519KeyLen, x25519KeyLen,
    x25519KeyLen, 32, 32, 32, 4, 4, mlkem768EkLen, mlkem768CtLen, 8, 8]

def responseWidths : List Nat := [initIdLen, 32, ed25519KeyLen, 8, 8, 32]

/-- The fields of `init_signing_bytes`. -/
def initFields (value : PairInit) : Except PyExc (List Bytes) := do
  let initiator ← addressBytes P value.initiatorAddress (lit "initiator_address")
  let responder ← addressBytes P value.responderAddress (lit "responder_address")
  let signedPrekeyId ← u32 value.signedPrekeyId
  let oneTimePrekeyId ← u32 value.oneTimePrekeyId
  let created ← u64 value.createdAtMs
  let expires ← u64 value.expiresAtMs
  return [initiator, responder, value.initId, value.pairingNonce, value.initiatorDeviceEdPub,
    value.responderDeviceEdPub, value.initiatorEphemeralX25519Pub, value.responderSignedX25519Pub,
    value.responderOneTimeX25519Pub, value.initiatorDeviceCertHash, value.responderDeviceCertHash,
    value.responderPrekeyBundleHash, signedPrekeyId, oneTimePrekeyId, value.responderMlkem768Ek,
    value.mlkem768Ciphertext, created, expires]

/-- `take(ADDRESS_LEN).decode("ascii")` -/
def addressText (b : Bytes) : Except PyExc PyStr :=
  match decodeAscii b with
  | .ok text => .ok text
  | .error _ => valueError (lit "PairInit address is not ASCII")

/-- The constructor call of `decode_init`. -/
def readInit : List Bytes → Bytes → Except PyExc PairInit
  | [initiator, responder, initId, pairingNonce, initiatorDeviceEdPub, responderDeviceEdPub,
      initiatorEphemeralX25519Pub, responderSignedX25519Pub, responderOneTimeX25519Pub, initiatorDeviceCertHash,
      responderDeviceCertHash, responderPrekeyBundleHash, signedPrekeyId, oneTimePrekeyId, responderMlkem768Ek,
      mlkem768Ciphertext, created, expires], signature => do
    let initiatorAddress ← addressText initiator
    let responderAddress ← addressText responder
    return {
      initiatorAddress, responderAddress, initId, pairingNonce, initiatorDeviceEdPub, responderDeviceEdPub,
      initiatorEphemeralX25519Pub, responderSignedX25519Pub, responderOneTimeX25519Pub, initiatorDeviceCertHash,
      responderDeviceCertHash, responderPrekeyBundleHash
      signedPrekeyId := ofBigEndian signedPrekeyId
      oneTimePrekeyId := ofBigEndian oneTimePrekeyId
      responderMlkem768Ek, mlkem768Ciphertext
      createdAtMs := ofBigEndian created
      expiresAtMs := ofBigEndian expires
      signature }
  | _, _ => valueError (lit "PairInit trailing bytes")

/-- The fields of `response_signing_bytes`. -/
def responseFields (value : PairResponse) : Except PyExc (List Bytes) := do
  let created ← u64 value.createdAtMs
  let expires ← u64 value.expiresAtMs
  return [value.initId, value.initHash, value.responderDeviceEdPub, created, expires, value.confirmationTag]

/-- The constructor call of `decode_response`. -/
def readResponse : List Bytes → Bytes → Except PyExc PairResponse
  | [initId, initHash, responderDeviceEdPub, created, expires, confirmationTag], signature =>
    .ok {
      initId, initHash, responderDeviceEdPub
      createdAtMs := ofBigEndian created
      expiresAtMs := ofBigEndian expires
      confirmationTag, signature }
  | _, _ => valueError (lit "PairResponse trailing bytes")

/-! ## What the checks leave of the layout -/

/-- Fields of the widths of the wire. -/
structure PairInit.Sized (value : PairInit) : Prop where
  initiatorAddress : ∃ b, addressBytes P value.initiatorAddress (lit "initiator_address") = .ok b
  responderAddress : ∃ b, addressBytes P value.responderAddress (lit "responder_address") = .ok b
  initId : value.initId.length = initIdLen
  pairingNonce : value.pairingNonce.length = nonceLen
  initiatorDeviceEdPub : value.initiatorDeviceEdPub.length = ed25519KeyLen
  responderDeviceEdPub : value.responderDeviceEdPub.length = ed25519KeyLen
  initiatorEphemeralX25519Pub : value.initiatorEphemeralX25519Pub.length = x25519KeyLen
  responderSignedX25519Pub : value.responderSignedX25519Pub.length = x25519KeyLen
  responderOneTimeX25519Pub : value.responderOneTimeX25519Pub.length = x25519KeyLen
  initiatorDeviceCertHash : value.initiatorDeviceCertHash.length = 32
  responderDeviceCertHash : value.responderDeviceCertHash.length = 32
  responderPrekeyBundleHash : value.responderPrekeyBundleHash.length = 32
  signedPrekeyId : Word 4 value.signedPrekeyId
  oneTimePrekeyId : Word 4 value.oneTimePrekeyId
  responderMlkem768Ek : value.responderMlkem768Ek.length = mlkem768EkLen
  mlkem768Ciphertext : value.mlkem768Ciphertext.length = mlkem768CtLen
  createdAtMs : Word 8 value.createdAtMs
  expiresAtMs : Word 8 value.expiresAtMs

structure PairResponse.Sized (value : PairResponse) : Prop where
  initId : value.initId.length = initIdLen
  initHash : value.initHash.length = 32
  responderDeviceEdPub : value.responderDeviceEdPub.length = ed25519KeyLen
  createdAtMs : Word 8 value.createdAtMs
  expiresAtMs : Word 8 value.expiresAtMs
  confirmationTag : value.confirmationTag.length = 32

section
variable {P}

theorem u32_ok {n : Int} {b : Bytes} : u32 n = .ok b ↔ Word 4 n ∧ b = word 4 n := by
  unfold u32
  simp only [bind_ok, pure_ok, orRaise_ok, exists_const, eq_comm (a := word 4 n)]

theorem u64_ok {n : Int} {b : Bytes} : u64 n = .ok b ↔ Word 8 n ∧ b = word 8 n := by
  unfold u64
  simp only [bind_ok, pure_ok, orRaise_ok, exists_const, eq_comm (a := word 8 n)]

theorem requireBytes_ok {value : Bytes} {length : Nat} {fieldName : PyStr} {u : Unit} :
    requireBytes value length fieldName = .ok u ↔ value.length = length := orRaise_ok

theorem validateTime_ok {createdAtMs expiresAtMs : Int} {u : Unit} :
    validateTime createdAtMs expiresAtMs = .ok u ↔
      Word 8 createdAtMs ∧ Word 8 expiresAtMs ∧ createdAtMs < expiresAtMs := by
  unfold validateTime
  simp only [bind_ok, orRaise_ok, u64_ok]
  constructor
  · rintro ⟨_, ⟨hcreated, -⟩, _, ⟨hexpires, -⟩, hlt⟩
    exact ⟨hcreated, hexpires, hlt⟩
  · rintro ⟨hcreated, hexpires, hlt⟩
    exact ⟨_, ⟨hcreated, rfl⟩, _, ⟨hexpires, rfl⟩, hlt⟩

theorem addressBytes_ok {value fieldName : PyStr} {b : Bytes} (h : addressBytes P value fieldName = .ok b) :
    encodeAscii value = .ok b ∧ b.length = addressLen := by
  unfold addressBytes at h
  cases hcanonical : requireCanonicalAddress P value with
  | error e =>
    rw [hcanonical] at h
    cases h
  | ok u =>
    rw [hcanonical] at h
    simp only [bind_ok, pure_ok, orRaise_ok] at h
    obtain ⟨b, hencode, _, hlength, rfl⟩ := h
    exact ⟨hencode, hlength⟩

theorem checkInitV1_sized {value : PairInit} (h : checkInitV1 P value = .ok ()) : value.Sized P := by
  unfold checkInitV1 at h
  simp only [bind_ok, orRaise_ok, requireBytes_ok, exists_const, u32_ok, validateTime_ok] at h
  obtain ⟨initiator, hinitiator, responder, hresponder, -, hid, -, hnonce, -, hinitiatorEd, hresponderEd, -, -,
    hephemeral, -, hsignedX, -, honeTime, hinitiatorCert, hresponderCert, hbundle, -, _, ⟨hsigned, -⟩, -, _,
    ⟨hslot, -⟩, _, -, hek, -, hct, -, hcreated, hexpires, -⟩ := h
  exact ⟨⟨initiator, hinitiator⟩, ⟨responder, hresponder⟩, hid, hnonce, hinitiatorEd, hresponderEd, hephemeral,
    hsignedX, honeTime, hinitiatorCert, hresponderCert, hbundle, hsigned, hslot, hek, hct, hcreated, hexpires⟩

theorem checkInitV2_sized {value : PairInit} (h : checkInitV2 P value = .ok ()) : value.Sized P := by
  unfold checkInitV2 at h
  simp only [bind_ok, orRaise_ok, requireBytes_ok, exists_const, u32_ok, validateTime_ok] at h
  obtain ⟨initiator, hinitiator, responder, hresponder, -, hid, -, hnonce, -, hinitiatorEd, hresponderEd, -,
    hephemeral, hsignedX, -, honeTime, hinitiatorCert, hresponderCert, hbundle, _, ⟨hsigned, -⟩, -, _,
    ⟨hslot, -⟩, _, -, hek, hct, hcreated, hexpires, -⟩ := h
  exact ⟨⟨initiator, hinitiator⟩, ⟨responder, hresponder⟩, hid, hnonce, hinitiatorEd, hresponderEd, hephemeral,
    hsignedX, honeTime, hinitiatorCert, hresponderCert, hbundle, hsigned, hslot, hek, hct, hcreated, hexpires⟩

theorem checkResponseV1_sized {value : PairResponse} (h : checkResponseV1 value = .ok ()) : value.Sized := by
  unfold checkResponseV1 at h
  simp only [bind_ok, orRaise_ok, requireBytes_ok, exists_const, validateTime_ok] at h
  obtain ⟨hid, -, hhash, hed, ⟨hcreated, hexpires, -⟩, htag, -⟩ := h
  exact ⟨hid, hhash, hed, hcreated, hexpires, htag⟩

theorem checkResponseV2_sized {value : PairResponse} (h : checkResponseV2 value = .ok ()) : value.Sized := by
  unfold checkResponseV2 at h
  simp only [bind_ok, orRaise_ok, requireBytes_ok, exists_const, validateTime_ok] at h
  obtain ⟨hid, -, hhash, hed, ⟨hcreated, hexpires, -⟩, htag⟩ := h
  exact ⟨hid, hhash, hed, hcreated, hexpires, htag⟩

/-! ## Fields written and read -/

theorem addressText_ok {value : PyStr} {b : Bytes} : addressText b = .ok value ↔ encodeAscii value = .ok b := by
  rw [← decodeAscii_ok]
  unfold addressText
  cases decodeAscii b with
  | ok text => exact Iff.rfl
  | error e => simp [valueError]

theorem initFields_ok {value : PairInit} (h : value.Sized P) :
    ∃ initiator responder, addressBytes P value.initiatorAddress (lit "initiator_address") = .ok initiator ∧
      addressBytes P value.responderAddress (lit "responder_address") = .ok responder ∧
      initFields P value = .ok [initiator, responder, value.initId, value.pairingNonce, value.initiatorDeviceEdPub,
        value.responderDeviceEdPub, value.initiatorEphemeralX25519Pub, value.responderSignedX25519Pub,
        value.responderOneTimeX25519Pub, value.initiatorDeviceCertHash, value.responderDeviceCertHash,
        value.responderPrekeyBundleHash, word 4 value.signedPrekeyId, word 4 value.oneTimePrekeyId,
        value.responderMlkem768Ek, value.mlkem768Ciphertext, word 8 value.createdAtMs,
        word 8 value.expiresAtMs] := by
  obtain ⟨initiator, hinitiator⟩ := h.initiatorAddress
  obtain ⟨responder, hresponder⟩ := h.responderAddress
  refine ⟨initiator, responder, hinitiator, hresponder, ?_⟩
  unfold initFields
  rw [hinitiator, hresponder, u32_ok.mpr ⟨h.signedPrekeyId, rfl⟩, u32_ok.mpr ⟨h.oneTimePrekeyId, rfl⟩,
    u64_ok.mpr ⟨h.createdAtMs, rfl⟩, u64_ok.mpr ⟨h.expiresAtMs, rfl⟩]
  rfl

theorem initFields_widths {value : PairInit} (h : value.Sized P) :
    ∃ fields, initFields P value = .ok fields ∧ fields.map List.length = initWidths := by
  obtain ⟨initiator, responder, hinitiator, hresponder, hfields⟩ := initFields_ok h
  refine ⟨_, hfields, ?_⟩
  simp only [List.map_cons, List.map_nil, (addressBytes_ok hinitiator).2, (addressBytes_ok hresponder).2, h.initId,
    h.pairingNonce, h.initiatorDeviceEdPub, h.responderDeviceEdPub, h.initiatorEphemeralX25519Pub,
    h.responderSignedX25519Pub, h.responderOneTimeX25519Pub, h.initiatorDeviceCertHash, h.responderDeviceCertHash,
    h.responderPrekeyBundleHash, h.responderMlkem768Ek, h.mlkem768Ciphertext, word_length, initWidths]

theorem readInit_initFields {value : PairInit} {fields : List Bytes} (h : value.Sized P)
    (hfields : initFields P value = .ok fields) : readInit fields value.signature = .ok value := by
  obtain ⟨initiator, responder, hinitiator, hresponder, hall⟩ := initFields_ok h
  obtain rfl := Except.ok.inj (hfields.symm.trans hall)
  unfold readInit
  dsimp only
  rw [addressText_ok.mpr (addressBytes_ok hinitiator).1, addressText_ok.mpr (addressBytes_ok hresponder).1]
  simp only [ok_bind, ofBigEndian_word h.signedPrekeyId, ofBigEndian_word h.oneTimePrekeyId,
    ofBigEndian_word h.createdAtMs, ofBigEndian_word h.expiresAtMs]
  rfl

theorem initFields_readInit {value : PairInit} {fields : List Bytes} {sig : Bytes}
    (hwidths : fields.map List.length = initWidths) (hread : readInit fields sig = .ok value)
    (h : value.Sized P) : initFields P value = .ok fields ∧ value.signature = sig := by
  unfold readInit at hread
  split at hread
  · simp only [initWidths, List.map_cons, List.map_nil, List.cons.injEq, and_true] at hwidths
    obtain ⟨-, -, -, -, -, -, -, -, -, -, -, -, hsigned, hslot, -, -, hcreated, hexpires⟩ := hwidths
    simp only [bind_ok, pure_ok] at hread
    obtain ⟨initiatorAddress, hinitiator, responderAddress, hresponder, rfl⟩ := hread
    obtain ⟨initiator, responder, hinitiator', hresponder', hfields⟩ := initFields_ok h
    obtain rfl := Except.ok.inj ((addressBytes_ok hinitiator').1.symm.trans (addressText_ok.mp hinitiator))
    obtain rfl := Except.ok.inj ((addressBytes_ok hresponder').1.symm.trans (addressText_ok.mp hresponder))
    refine ⟨?_, rfl⟩
    rw [hfields]
    dsimp only
    rw [word_ofBigEndian hsigned, word_ofBigEndian hslot, word_ofBigEndian hcreated, word_ofBigEndian hexpires]
  · cases hread

theorem responseFields_ok {value : PairResponse} (h : value.Sized) :
    responseFields value = .ok [value.initId, value.initHash, value.responderDeviceEdPub, word 8 value.createdAtMs,
      word 8 value.expiresAtMs, value.confirmationTag] := by
  unfold responseFields
  rw [u64_ok.mpr ⟨h.createdAtMs, rfl⟩, u64_ok.mpr ⟨h.expiresAtMs, rfl⟩]
  rfl

theorem responseFields_widths {value : PairResponse} (h : value.Sized) :
    ∃ fields, responseFields value = .ok fields ∧ fields.map List.length = responseWidths := by
  refine ⟨_, responseFields_ok h, ?_⟩
  simp only [List.map_cons, List.map_nil, h.initId, h.initHash, h.responderDeviceEdPub, h.confirmationTag,
    word_length, responseWidths]

theorem readResponse_responseFields {value : PairResponse} {fields : List Bytes} (h : value.Sized)
    (hfields : responseFields value = .ok fields) : readResponse fields value.signature = .ok value := by
  obtain rfl := Except.ok.inj (hfields.symm.trans (responseFields_ok h))
  unfold readResponse
  dsimp only
  rw [ofBigEndian_word h.createdAtMs, ofBigEndian_word h.expiresAtMs]

theorem responseFields_readResponse {value : PairResponse} {fields : List Bytes} {sig : Bytes}
    (hwidths : fields.map List.length = responseWidths) (hread : readResponse fields sig = .ok value)
    (h : value.Sized) : responseFields value = .ok fields ∧ value.signature = sig := by
  unfold readResponse at hread
  split at hread
  · simp only [responseWidths, List.map_cons, List.map_nil, List.cons.injEq, and_true] at hwidths
    obtain ⟨-, -, -, hcreated, hexpires, -⟩ := hwidths
    obtain rfl := Except.ok.inj hread
    refine ⟨?_, rfl⟩
    rw [responseFields_ok h, word_ofBigEndian hcreated, word_ofBigEndian hexpires]
  · cases hread

end

end Rdap.Protocol.Pairing
