import Rdap.Protocol.PairHandshake

/-!
# Two devices agree

An initiator that takes a response and the responder that made it hold the same init, field by field, and
the same root. What is assumed: no one else makes signatures that verify under the keys of the two devices,
no two of the strings they hash have one digest, and a device signs responses only to inits it has verified.
-/

set_option autoImplicit false

namespace Rdap.Protocol.Pairing.V1
open Python Lib Identity

variable (P : Platform)

/-! ## What a passed check says -/

/-- The init is about the keys, certificates and prekeys that are expected, inside their time. -/
structure Expected.Describes (expected : Expected) (value : PairInit) : Prop where
  initiatorIdentity : expected.initiatorIdentityEdPub.length = 32
  responderIdentity : expected.responderIdentityEdPub.length = 32
  initiatorAddress : Address.encode P expected.initiatorIdentityEdPub = value.initiatorAddress
  responderAddress : Address.encode P expected.responderIdentityEdPub = value.responderAddress
  initiatorDeviceEdPub : value.initiatorDeviceEdPub = expected.initiatorDeviceEdPub
  responderDeviceEdPub : value.responderDeviceEdPub = expected.responderDeviceEdPub
  responderSignedX25519Pub : value.responderSignedX25519Pub = expected.responderSignedX25519Pub
  responderOneTimeX25519Pub : value.responderOneTimeX25519Pub = expected.responderOneTimeX25519Pub
  initiatorDeviceCertHash : value.initiatorDeviceCertHash = expected.initiatorDeviceCertHash
  responderDeviceCertHash : value.responderDeviceCertHash = expected.responderDeviceCertHash
  responderPrekeyBundleHash : value.responderPrekeyBundleHash = expected.responderPrekeyBundleHash
  signedPrekeyId : value.signedPrekeyId = expected.signedPrekeyId
  oneTimePrekeyId : value.oneTimePrekeyId = expected.oneTimePrekeyId
  responderMlkem768Ek : value.responderMlkem768Ek = expected.responderMlkem768Ek
  notBefore : expected.trustNotBeforeMs ≤ value.createdAtMs
  notAfter : value.expiresAtMs ≤ expected.trustNotAfterMs

section
variable {P}

theorem verifyInit_iff {value : PairInit} {expected : Expected} {nowMs : Int} :
    verifyInit P value expected nowMs = .ok true ↔
      checkInitV1 P value = .ok () ∧ value.signature.length = signatureLen ∧ expected.Describes P value ∧
      (value.createdAtMs ≤ nowMs ∧ nowMs < value.expiresAtMs) ∧
      ∃ m, initSigningBytes P value = .ok m ∧
        P.ed25519Verify value.initiatorDeviceEdPub value.signature m = true := by
  unfold verifyInit
  rw [orFalse_true, bind_ok]
  simp only [allM_true, Format.validate_ok]
  unfold initComparisons
  simp only [List.forall_mem_cons, sameAddress_true, sameBytes_true, holds_true, signatureHolds_true, not_or,
    not_lt]
  constructor
  · rintro ⟨_, ⟨hcheck, hsignature⟩, ⟨hinitiator, hinitiatorAddress⟩, ⟨hresponder, hresponderAddress⟩, ⟨-, hed⟩,
      ⟨-, hpeerEd⟩, ⟨-, hsignedX⟩, ⟨-, honeTime⟩, ⟨-, hcert⟩, ⟨-, hpeerCert⟩, ⟨-, hbundle⟩, hsignedId, hslot, ⟨-, hek⟩,
      ⟨hnotBefore, hnotAfter⟩, hnow, hverified, -⟩
    exact ⟨hcheck, hsignature, ⟨hinitiator, hresponder, hinitiatorAddress, hresponderAddress, hed, hpeerEd, hsignedX,
      honeTime, hcert, hpeerCert, hbundle, hsignedId, hslot, hek, hnotBefore, hnotAfter⟩, hnow, hverified⟩
  · rintro ⟨hcheck, hsignature, h, hnow, hverified⟩
    have hsized := checkInitV1_sized hcheck
    refine ⟨(), ⟨hcheck, hsignature⟩, ⟨h.initiatorIdentity, h.initiatorAddress⟩,
      ⟨h.responderIdentity, h.responderAddress⟩, ⟨?_, h.initiatorDeviceEdPub⟩, ⟨?_, h.responderDeviceEdPub⟩,
      ⟨?_, h.responderSignedX25519Pub⟩, ⟨?_, h.responderOneTimeX25519Pub⟩, ⟨?_, h.initiatorDeviceCertHash⟩,
      ⟨?_, h.responderDeviceCertHash⟩, ⟨?_, h.responderPrekeyBundleHash⟩, h.signedPrekeyId, h.oneTimePrekeyId,
      ⟨?_, h.responderMlkem768Ek⟩, ⟨h.notBefore, h.notAfter⟩, hnow, hverified, by simp⟩
    · exact h.initiatorDeviceEdPub ▸ hsized.initiatorDeviceEdPub
    · exact h.responderDeviceEdPub ▸ hsized.responderDeviceEdPub
    · exact h.responderSignedX25519Pub ▸ hsized.responderSignedX25519Pub
    · exact h.responderOneTimeX25519Pub ▸ hsized.responderOneTimeX25519Pub
    · exact h.initiatorDeviceCertHash ▸ hsized.initiatorDeviceCertHash
    · exact h.responderDeviceCertHash ▸ hsized.responderDeviceCertHash
    · exact h.responderPrekeyBundleHash ▸ hsized.responderPrekeyBundleHash
    · exact h.responderMlkem768Ek ▸ hsized.responderMlkem768Ek

/-- A response in the time of the init and in its own. -/
def InTime (value : PairResponse) (acceptedInit : PairInit) (nowMs : Int) : Prop :=
  (acceptedInit.createdAtMs ≤ value.createdAtMs ∧ value.createdAtMs < acceptedInit.expiresAtMs ∧
    value.expiresAtMs ≤ acceptedInit.expiresAtMs) ∧ value.createdAtMs ≤ nowMs ∧ nowMs < value.expiresAtMs

theorem verifyResponse_iff {value : PairResponse} {acceptedInit : PairInit} {root : Bytes} {nowMs : Int} :
    verifyResponse P value acceptedInit root nowMs = .ok true ↔
      checkResponseV1 value = .ok () ∧ value.signature.length = signatureLen ∧ value.initId = acceptedInit.initId ∧
      initHash P acceptedInit = .ok value.initHash ∧
      value.responderDeviceEdPub = acceptedInit.responderDeviceEdPub ∧
      InTime value acceptedInit nowMs ∧
      confirmationTag P root value.initHash = .ok value.confirmationTag ∧
      ∃ m, responseSigningBytes value = .ok m ∧
        P.ed25519Verify value.responderDeviceEdPub value.signature m = true := by
  unfold verifyResponse InTime
  rw [orFalse_true, bind_ok]
  simp only [Format.validate_ok]
  constructor
  · rintro ⟨_, ⟨hcheck, hsignature⟩, h⟩
    by_cases hid : value.initId = acceptedInit.initId
    · rw [if_pos hid, bind_ok] at h
      obtain ⟨digest, hdigest, h⟩ := h
      unfold responseComparisons at h
      simp only [allM_true, List.forall_mem_cons, holds_true, sameTag_true, signatureHolds_true, not_or, not_lt,
        not_le] at h
      obtain ⟨rfl, hdevice, htime, hnow, htag, hverified, -⟩ := h
      exact ⟨hcheck, hsignature, hid, hdigest, hdevice, ⟨htime, hnow⟩, htag, hverified⟩
    · rw [if_neg hid] at h
      cases h
  · rintro ⟨hcheck, hsignature, hid, hdigest, hdevice, ⟨htime, hnow⟩, htag, hverified⟩
    refine ⟨(), ⟨hcheck, hsignature⟩, ?_⟩
    rw [if_pos hid, bind_ok]
    refine ⟨_, hdigest, ?_⟩
    unfold responseComparisons
    simp only [allM_true, List.forall_mem_cons, holds_true, sameTag_true, signatureHolds_true, not_or, not_lt,
      not_le]
    exact ⟨trivial, hdevice, htime, hnow, htag, hverified, by simp⟩

theorem initHash_ok {value : PairInit} {digest : Bytes} :
    initHash P value = .ok digest ↔
      ∃ wire, encodeInit P value = .ok wire ∧ P.sha256 (initSigningDomain ++ wire) = digest := by
  unfold initHash
  simp only [bind_ok, pure_ok]

end

/-! ## Tags -/

/-- The two strings that an HMAC hashes. -/
def hmacInputs (key msg : Bytes) : Set Bytes :=
  {(hmacKey P key).map (· ^^^ 0x36) ++ msg,
    (hmacKey P key).map (· ^^^ 0x5c) ++ P.sha256 ((hmacKey P key).map (· ^^^ 0x36) ++ msg)}

section
variable {P}

theorem hmacKey_length (key : Bytes) : (hmacKey P key).length = hmacBlock := by
  have hshort : (if key.length > hmacBlock then P.sha256 key else key).length ≤ hmacBlock := by
    split
    · rw [P.sha256_length]
      decide
    · omega
  unfold hmacKey
  rw [List.length_append, List.length_replicate]
  omega

theorem hmacKey_injective {k l : Bytes} (hk : k.length = 32) (hl : l.length = 32) (h : hmacKey P k = hmacKey P l) :
    k = l := by
  have hblock : ¬32 > hmacBlock := by decide
  unfold hmacKey at h
  rw [hk, hl, if_neg hblock, if_neg hblock] at h
  exact (List.append_inj h (hk.trans hl.symm)).1

theorem xor_injective (pad : UInt8) : Function.Injective fun b : UInt8 => b ^^^ pad := by
  intro a b h
  have hback : ∀ c : UInt8, (c ^^^ pad) ^^^ pad = c := fun c => by
    rw [UInt8.xor_assoc, UInt8.xor_self, UInt8.xor_zero]
  rw [← hback a, ← hback b]
  exact congrArg (· ^^^ pad) h

/-- Where the digest is injective on what is hashed, a tag determines its key and its message. -/
theorem hmacSha256_injOn {hashed : Set Bytes} (hfree : Set.InjOn P.sha256 hashed) {k l m n : Bytes}
    (hkm : hmacInputs P k m ⊆ hashed) (hln : hmacInputs P l n ⊆ hashed)
    (h : hmacSha256 P k m = hmacSha256 P l n) : hmacKey P k = hmacKey P l ∧ m = n := by
  have houter := hfree (hkm (Or.inr rfl)) (hln (Or.inr rfl)) h
  obtain ⟨hpad, hinner⟩ := List.append_inj houter (by rw [List.length_map, List.length_map, hmacKey_length,
    hmacKey_length])
  have hkey : hmacKey P k = hmacKey P l := (List.map_injective_iff.mpr (xor_injective 0x5c)) hpad
  have hmsg := hfree (hkm (Or.inl rfl)) (hln (Or.inl rfl)) hinner
  rw [hkey] at hmsg
  exact ⟨hkey, List.append_cancel_left hmsg⟩

end

/-! ## Devices -/

/-- An init that a responder has verified, with the root it has derived from it. -/
structure Acceptance where
  init : PairInit
  expected : Expected
  nowMs : Int
  zX : Bytes
  zPq : Bytes
  root : Bytes
  verified : verifyInit P init expected nowMs = .ok true
  derived : deriveProvisionalRoot P zX zPq init = .ok root

/-- What verifies under the key was signed by its device, as a record of some kind. -/
def Unforged (history : Bytes → Signable → Prop) (device : Bytes) : Prop :=
  ∀ sig m, P.ed25519Verify device sig m = true → ∃ s, history device s ∧ s.signingBytes P = .ok m

variable {P} in
/-- Every response the device has signed carries the digest of an init it has verified, and the tag of the
root it has derived. -/
def AnswersAccepted (history : Bytes → Signable → Prop) (accepted : Bytes → Acceptance P → Prop)
    (device : Bytes) : Prop :=
  ∀ r, history device (.pairResponse r) → ∃ a, accepted device a ∧ initHash P a.init = .ok r.initHash ∧
    confirmationTag P a.root r.initHash = .ok r.confirmationTag

/-- What is hashed for the digest of an init and for the tag over it. -/
def handshakeInputs (value : PairInit) (root : Bytes) : Set Bytes :=
  {x | (∃ wire, encodeInit P value = .ok wire ∧ x = initSigningDomain ++ wire) ∨
    ∃ digest, initHash P value = .ok digest ∧ x ∈ hmacInputs P root (confirmLabel ++ [0] ++ digest)}

variable {P} in
/-- What one initiator hashes, and a responder for all the inits it has verified. -/
def hashedBy (accepted : Bytes → Acceptance P → Prop) (device : Bytes) (value : PairInit) (root : Bytes) :
    Set Bytes :=
  handshakeInputs P value root ∪ {x | ∃ a, accepted device a ∧ x ∈ handshakeInputs P a.init a.root}

section
variable {P} {history : Bytes → Signable → Prop} {accepted : Bytes → Acceptance P → Prop}

/-- A device that signed these bytes signed an init of these fields. -/
theorem signed_pairInit {device sig m : Bytes} {value : PairInit} (hunf : Unforged P history device)
    (hm : initSigningBytes P value = .ok m) (hver : P.ed25519Verify device sig m = true) :
    ∃ v, history device (.pairInit v) ∧ v.unsigned = value.unsigned := by
  obtain ⟨s, hs, hbytes⟩ := hunf sig m hver
  have hkind := kind_unique P (a := .pairInit value) (b := s) hm hbytes
  cases s <;> cases hkind
  case pairInit v =>
    exact ⟨v, hs, Format.signingBytes_injective (f := init P) (a := v.unsigned) (b := value.unsigned) hbytes hm rfl⟩

theorem signed_pairResponse {device sig m : Bytes} {value : PairResponse} (hunf : Unforged P history device)
    (hm : responseSigningBytes value = .ok m) (hver : P.ed25519Verify device sig m = true) :
    ∃ r, history device (.pairResponse r) ∧ r.unsigned = value.unsigned := by
  obtain ⟨s, hs, hbytes⟩ := hunf sig m hver
  have hkind := kind_unique P (a := .pairResponse value) (b := s) hm hbytes
  cases s <;> cases hkind
  case pairResponse r =>
    exact ⟨r, hs, Format.signingBytes_injective (f := response) (a := r.unsigned) (b := value.unsigned) hbytes hm rfl⟩

/-- One digest, one init, its signature included. -/
theorem init_of_hash {hashed : Set Bytes} (hfree : Set.InjOn P.sha256 hashed) {a b : PairInit} {digest : Bytes}
    (hain : ∀ wire, encodeInit P a = .ok wire → initSigningDomain ++ wire ∈ hashed)
    (hbin : ∀ wire, encodeInit P b = .ok wire → initSigningDomain ++ wire ∈ hashed)
    (ha : initHash P a = .ok digest) (hb : initHash P b = .ok digest) : a = b := by
  obtain ⟨wireA, hwireA, hdigestA⟩ := initHash_ok.mp ha
  obtain ⟨wireB, hwireB, hdigestB⟩ := initHash_ok.mp hb
  have hwire := List.append_cancel_left
    (hfree (hain wireA hwireA) (hbin wireB hwireB) (hdigestA.trans hdigestB.symm))
  have hreadA := ((init P).encode_iff_decode a wireA).mp hwireA
  have hreadB := ((init P).encode_iff_decode b wireB).mp hwireB
  rw [hwire, hreadB] at hreadA
  exact (Except.ok.inj hreadA).symm

/-- One tag over one digest, one root. -/
theorem root_of_tag {hashed : Set Bytes} (hfree : Set.InjOn P.sha256 hashed) {root other digest tag : Bytes}
    (hroot : hmacInputs P root (confirmLabel ++ [0] ++ digest) ⊆ hashed)
    (hother : hmacInputs P other (confirmLabel ++ [0] ++ digest) ⊆ hashed)
    (h : confirmationTag P root digest = .ok tag) (ho : confirmationTag P other digest = .ok tag) : root = other := by
  obtain ⟨hlength, -, htag⟩ := confirmationTag_ok.mp h
  obtain ⟨hlength', -, htag'⟩ := confirmationTag_ok.mp ho
  exact hmacKey_injective hlength hlength' (hmacSha256_injOn hfree hroot hother (htag.trans htag'.symm)).1

theorem Acceptance.signed (a : Acceptance P) (hunf : Unforged P history a.init.initiatorDeviceEdPub) :
    ∃ v, history a.init.initiatorDeviceEdPub (.pairInit v) ∧ v.unsigned = a.init.unsigned := by
  obtain ⟨-, -, -, -, m, hm, hver⟩ := verifyInit_iff.mp a.verified
  exact signed_pairInit hunf hm hver

end

/-- Whatever the network does with inits and responses: when the initiator takes a response to its init,
the device it is paired with has verified that very init at a time when it was good, for the identities,
certificates and prekeys that it describes, and has derived the root that the initiator holds. The
initiator's device has signed the init's fields. -/
theorem pairing_agreement (history : Bytes → Signable → Prop) (accepted : Bytes → Acceptance P → Prop)
    (value : PairResponse) (own : PairInit) (root : Bytes) (nowMs : Int)
    (hinitiator : Unforged P history own.initiatorDeviceEdPub)
    (hresponder : Unforged P history own.responderDeviceEdPub)
    (hanswers : AnswersAccepted history accepted own.responderDeviceEdPub)
    (hfree : Set.InjOn P.sha256 (hashedBy accepted own.responderDeviceEdPub own root))
    (htaken : verifyResponse P value own root nowMs = .ok true) :
    ∃ a, accepted own.responderDeviceEdPub a ∧ a.init = own ∧ a.root = root ∧
      sessionId P a.init = sessionId P own ∧ a.expected.Describes P own ∧
      (own.createdAtMs ≤ a.nowMs ∧ a.nowMs < own.expiresAtMs) ∧
      (own.createdAtMs ≤ nowMs ∧ nowMs < own.expiresAtMs) ∧
      ∃ v, history own.initiatorDeviceEdPub (.pairInit v) ∧ v.unsigned = own.unsigned := by
  obtain ⟨-, -, -, hdigest, hdevice, ⟨⟨hstart, -, hstop⟩, hnow⟩, htag, m, hm, hver⟩ := verifyResponse_iff.mp htaken
  rw [hdevice] at hver
  obtain ⟨r, hsigned, hsame⟩ := signed_pairResponse hresponder hm hver
  obtain ⟨a, ha, hhash, hconfirm⟩ := hanswers r hsigned
  have hsameHash : r.unsigned.initHash = value.unsigned.initHash := by rw [hsame]
  have hsameTag : r.unsigned.confirmationTag = value.unsigned.confirmationTag := by rw [hsame]
  rw [show r.initHash = value.initHash from hsameHash] at hhash hconfirm
  rw [show r.confirmationTag = value.confirmationTag from hsameTag] at hconfirm
  have hinit : a.init = own := by
    apply init_of_hash hfree _ _ hhash hdigest
    · intro wire hwire
      exact Or.inr ⟨a, ha, Or.inl ⟨wire, hwire, rfl⟩⟩
    · intro wire hwire
      exact Or.inl (Or.inl ⟨wire, hwire, rfl⟩)
  have hroot : a.root = root := by
    apply root_of_tag hfree _ _ hconfirm htag
    · intro x hx
      exact Or.inr ⟨a, ha, Or.inr ⟨_, hhash, hx⟩⟩
    · intro x hx
      exact Or.inl (Or.inr ⟨_, hdigest, hx⟩)
  obtain ⟨-, -, hdescribes, hwindow, -⟩ := verifyInit_iff.mp a.verified
  rw [hinit] at hdescribes hwindow
  refine ⟨a, ha, hinit, hroot, by rw [hinit], hdescribes, hwindow, ⟨by omega, by omega⟩, ?_⟩
  rw [← hinit] at hinitiator ⊢
  exact a.signed hinitiator

namespace Sample

/-- Digests keep the length and the last 31 bytes. -/
def hashing : Platform :=
  { Platform.ofTable [] with
    sha256 := fun b => UInt8.ofNat b.length :: (b.reverse ++ List.replicate 31 0).take 31
    sha256_length := fun b => by simp }

def initiatorDevice : Bytes := List.replicate 32 7
def responderDevice : Bytes := List.replicate 32 8
def stamp : Bytes := List.replicate 64 9

def expected : Expected where
  initiatorIdentityEdPub := List.replicate 32 1
  responderIdentityEdPub := List.replicate 32 2
  initiatorDeviceEdPub := initiatorDevice
  responderDeviceEdPub := responderDevice
  responderSignedX25519Pub := List.replicate 32 3
  responderOneTimeX25519Pub := zeros 32
  initiatorDeviceCertHash := List.replicate 32 4
  responderDeviceCertHash := List.replicate 32 5
  responderPrekeyBundleHash := List.replicate 32 6
  signedPrekeyId := 1
  oneTimePrekeyId := 0
  responderMlkem768Ek := List.replicate mlkem768EkLen 10
  trustNotBeforeMs := 0
  trustNotAfterMs := 1000

/-- `rvn1qysqzqgpqyqszqgpqyqszqgpqyqszqgpqysxpn0c` -/
def sampleAddress : PyStr :=
  [114, 118, 110, 49, 113, 121, 115, 113, 122, 113, 103, 112, 113, 121, 113, 115, 122, 113, 103, 112, 113,
   121, 113, 115, 122, 113, 103, 112, 113, 121, 113, 115, 122, 113, 103, 112, 113, 121, 115, 120, 112, 110,
   48, 99]

/-- `rvn1qysqyqszqgpqyqszqgpqyqszqgpqyqszqgwdmx5u` -/
def otherAddress : PyStr :=
  [114, 118, 110, 49, 113, 121, 115, 113, 121, 113, 115, 122, 113, 103, 112, 113, 121, 113, 115, 122, 113,
   103, 112, 113, 121, 113, 115, 122, 113, 103, 112, 113, 121, 113, 115, 122, 113, 103, 119, 100, 109, 120,
   53, 117]

def offer : PairInit where
  initiatorAddress := sampleAddress
  responderAddress := otherAddress
  initId := List.replicate initIdLen 1
  pairingNonce := List.replicate nonceLen 2
  initiatorDeviceEdPub := initiatorDevice
  responderDeviceEdPub := responderDevice
  initiatorEphemeralX25519Pub := List.replicate 32 11
  responderSignedX25519Pub := expected.responderSignedX25519Pub
  responderOneTimeX25519Pub := expected.responderOneTimeX25519Pub
  initiatorDeviceCertHash := expected.initiatorDeviceCertHash
  responderDeviceCertHash := expected.responderDeviceCertHash
  responderPrekeyBundleHash := expected.responderPrekeyBundleHash
  signedPrekeyId := 1
  oneTimePrekeyId := 0
  responderMlkem768Ek := expected.responderMlkem768Ek
  mlkem768Ciphertext := List.replicate mlkem768CtLen 12
  createdAtMs := 10
  expiresAtMs := 100
  signature := stamp

def secret : Bytes := List.replicate 32 13

/-- What a computation has returned. -/
def got (x : Except PyExc Bytes) : Bytes := x.toOption.getD []

def root : Bytes := 96 :: List.replicate 30 9 ++ [1]

def answer : PairResponse where
  initId := offer.initId
  initHash := 242 :: List.replicate 31 9
  responderDeviceEdPub := responderDevice
  createdAtMs := 20
  expiresAtMs := 90
  confirmationTag := 96 :: List.replicate 31 9
  signature := stamp

/-- The two devices have signed the offer and the answer, and nothing else. -/
def platform : Platform :=
  { hashing with
    ed25519Verify := fun pk sig m => sig == stamp &&
      ((pk == initiatorDevice && m == got (initSigningBytes hashing offer)) ||
        (pk == responderDevice && m == got (responseSigningBytes answer)))
    ed25519_signature_length := fun h => by
      obtain ⟨hsig, -⟩ := Bool.and_eq_true_iff.mp h
      rw [eq_of_beq hsig]
      rfl }

theorem verifies_iff {device sig m : Bytes} : platform.ed25519Verify device sig m = true ↔ sig = stamp ∧
    ((device = initiatorDevice ∧ m = got (initSigningBytes hashing offer)) ∨
      (device = responderDevice ∧ m = got (responseSigningBytes answer))) := by
  unfold platform
  simp only [Bool.and_eq_true, Bool.or_eq_true, beq_iff_eq]

attribute [irreducible] offer answer root

/-- The strings that are hashed: the init, and the two of the tag. -/
def hashed : List Bytes :=
  let inner := (hmacKey platform root).map (· ^^^ 0x36) ++ (confirmLabel ++ [0] ++ answer.initHash)
  [initSigningDomain ++ got (encodeInit hashing offer), inner,
    (hmacKey platform root).map (· ^^^ 0x5c) ++ platform.sha256 inner]

/-- What the two devices compute, in one evaluation. -/
theorem computed :
    (verifyInit platform offer expected 15 = .ok true ∧
      deriveProvisionalRoot platform secret secret offer = .ok root ∧
      verifyResponse platform answer offer root 30 = .ok true) ∧
    (initSigningBytes platform offer = .ok (got (initSigningBytes hashing offer)) ∧
      responseSigningBytes answer = .ok (got (responseSigningBytes answer)) ∧
      encodeInit platform offer = .ok (got (encodeInit hashing offer)) ∧
      initHash platform offer = .ok answer.initHash ∧
      confirmationTag platform root answer.initHash = .ok answer.confirmationTag) ∧
    ∀ x ∈ hashed, ∀ y ∈ hashed, platform.sha256 x = platform.sha256 y → x = y := by
  decide +kernel

def acceptance : Acceptance platform where
  init := offer
  expected
  nowMs := 15
  zX := secret
  zPq := secret
  root
  verified := computed.1.1
  derived := computed.1.2.1

def history (device : Bytes) (s : Signable) : Prop :=
  (device = initiatorDevice ∧ s = .pairInit offer) ∨ (device = responderDevice ∧ s = .pairResponse answer)

def accepted (_ : Bytes) (a : Acceptance platform) : Prop := a = acceptance

theorem unforged (device : Bytes) : Unforged platform history device := by
  intro sig m hver
  obtain ⟨-, ⟨offerSigning, answerSigning, -⟩, -⟩ := computed
  obtain ⟨-, ⟨hdevice, rfl⟩ | ⟨hdevice, rfl⟩⟩ := verifies_iff.mp hver
  · exact ⟨.pairInit offer, Or.inl ⟨hdevice, rfl⟩, offerSigning⟩
  · exact ⟨.pairResponse answer, Or.inr ⟨hdevice, rfl⟩, answerSigning⟩

theorem answers (device : Bytes) : AnswersAccepted history accepted device := by
  rintro r (⟨-, h⟩ | ⟨-, h⟩)
  · cases h
  · obtain rfl := Signable.pairResponse.inj h
    obtain ⟨-, ⟨-, -, -, offerHash, answerTag⟩, -⟩ := computed
    exact ⟨acceptance, rfl, offerHash, answerTag⟩

theorem mem_hashed {x : Bytes} (hx : x ∈ handshakeInputs platform offer root) : x ∈ hashed := by
  obtain ⟨-, ⟨-, -, offerWire, offerHash, -⟩, -⟩ := computed
  unfold hashed
  rcases hx with ⟨wire, hwire, rfl⟩ | ⟨digest, hdigest, hx⟩
  · rw [Except.ok.inj (hwire.symm.trans offerWire)]
    exact List.mem_cons_self
  · rw [Except.ok.inj (hdigest.symm.trans offerHash)] at hx
    rcases hx with rfl | rfl
    · exact List.mem_cons_of_mem _ List.mem_cons_self
    · exact List.mem_cons_of_mem _ (List.mem_cons_of_mem _ List.mem_cons_self)

theorem injOn (device : Bytes) : Set.InjOn platform.sha256 (hashedBy accepted device offer root) := by
  have hall : ∀ x ∈ hashedBy accepted device offer root, x ∈ hashed := by
    rintro x (hx | ⟨a, rfl, hx⟩) <;> exact mem_hashed hx
  intro x hx y hy h
  exact computed.2.2 x (hall x hx) y (hall y hy) h

end Sample

theorem pairing_agreement_sample :
    ∃ a, Sample.accepted Sample.offer.responderDeviceEdPub a ∧ a.init = Sample.offer ∧ a.root = Sample.root ∧
      a.expected.Describes Sample.platform Sample.offer := by
  obtain ⟨a, ha, hinit, hroot, -, hdescribes, -⟩ := pairing_agreement Sample.platform Sample.history Sample.accepted
    Sample.answer Sample.offer Sample.root 30 (Sample.unforged _) (Sample.unforged _) (Sample.answers _)
    (Sample.injOn _) Sample.computed.1.2.2
  exact ⟨a, ha, hinit, hroot, hdescribes⟩

end Rdap.Protocol.Pairing.V1
