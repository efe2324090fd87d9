import Rdap.Protocol.PairAgreement

/-!
# Honest devices pair

The checks answer on every record, and between devices whose signatures verify the answer is yes for as
long as the times of the records allow.
-/

set_option autoImplicit false

namespace Rdap.Protocol.Pairing.V1
open Python Lib Braid Identity

variable {P : Platform}

/-! ## The checks answer -/

theorem onlyValueErrors_sameBytes {value expected : Bytes} {length : Nat} {fieldName : PyStr} :
    OnlyValueErrors (sameBytes value expected length fieldName) :=
  onlyValueErrors_requireBytes.bind fun _ _ => .ok _

theorem onlyValueErrors_sameAddress {value : PyStr} {identityEdPub : Bytes} {fieldName : PyStr} :
    OnlyValueErrors (sameAddress P value identityEdPub fieldName) :=
  onlyValueErrors_requireBytes.bind fun _ _ => .ok _

theorem onlyValueErrors_sameTag {tag root digest : Bytes} : OnlyValueErrors (sameTag P tag root digest) := by
  unfold sameTag confirmationTag
  apply OnlyValueErrors.bind
  · exact onlyValueErrors_requireBytes.bind fun _ _ => onlyValueErrors_requireBytes.bind fun _ _ => .ok _
  · exact fun _ _ => .ok _

theorem onlyValueErrors_signatureHolds {publicKey signature : Bytes} {signingBytes : Except PyExc Bytes}
    (h : ∃ m, signingBytes = .ok m) : OnlyValueErrors (signatureHolds P publicKey signature signingBytes) :=
  (onlyValueErrors_of_defined h).bind fun _ _ => .ok _

theorem verifyInit_answers (value : PairInit) (expected : Expected) (nowMs : Int) :
    ∃ b, verifyInit P value expected nowMs = .ok b := by
  unfold verifyInit
  apply OnlyValueErrors.answers
  apply (onlyValueErrors_validate onlyValueErrors_checkInitV1).bind
  intro _ hvalid
  have hsigning := signingBytes_defined (Format.validate_ok.mp hvalid).1
  apply onlyValueErrors_allM
  unfold initComparisons
  simp only [List.forall_mem_cons]
  exact ⟨onlyValueErrors_sameAddress, onlyValueErrors_sameAddress, onlyValueErrors_sameBytes,
    onlyValueErrors_sameBytes, onlyValueErrors_sameBytes, onlyValueErrors_sameBytes, onlyValueErrors_sameBytes,
    onlyValueErrors_sameBytes, onlyValueErrors_sameBytes, .ok _, .ok _, onlyValueErrors_sameBytes, .ok _, .ok _,
    onlyValueErrors_signatureHolds hsigning, by simp⟩

theorem onlyValueErrors_initHash {value : PairInit} : OnlyValueErrors (initHash P value) :=
  (onlyValueErrors_encode onlyValueErrors_checkInitV1).bind fun _ _ => .ok _

theorem verifyResponse_answers (value : PairResponse) (acceptedInit : PairInit) (root : Bytes) (nowMs : Int) :
    ∃ b, verifyResponse P value acceptedInit root nowMs = .ok b := by
  unfold verifyResponse
  apply OnlyValueErrors.answers
  apply (onlyValueErrors_validate onlyValueErrors_checkResponseV1).bind
  intro _ hvalid
  have hsigning := signingBytes_defined (Format.validate_ok.mp hvalid).1
  split
  · apply onlyValueErrors_initHash.bind
    intro digest _
    apply onlyValueErrors_allM
    unfold responseComparisons
    simp only [List.forall_mem_cons]
    exact ⟨.ok _, .ok _, .ok _, .ok _, onlyValueErrors_sameTag, onlyValueErrors_signatureHolds hsigning, by simp⟩
  · exact .ok _

/-- A Boolean that is true just if a condition holds. -/
theorem answer_eq {x : Except PyExc Bool} {c : Prop} [Decidable c] (hanswers : ∃ b, x = .ok b)
    (h : x = .ok true ↔ c) : x = .ok (decide c) := by
  obtain ⟨b, hb⟩ := hanswers
  rw [hb] at h ⊢
  by_cases hc : c
  · rw [h.mpr hc, decide_eq_true hc]
  · cases b with
    | true => exact absurd (h.mp rfl) hc
    | false => rw [decide_eq_false hc]

/-! ## What honest devices send -/

instance (value : PairResponse) (acceptedInit : PairInit) (nowMs : Int) : Decidable (InTime value acceptedInit nowMs) :=
  inferInstanceAs (Decidable ((_ ∧ _ ∧ _) ∧ _ ∧ _))

variable (P)

/-- The init with the signature of its device. -/
def signInit (sign : Bytes → Bytes) (value : PairInit) : Except PyExc PairInit := do
  let m ← initSigningBytes P value
  return { value with signature := sign m }

/-- The response that binds an init by its digest and a root by its tag. -/
def unsignedResponse (value : PairInit) (digest tag : Bytes) (createdAtMs expiresAtMs : Int) : PairResponse where
  initId := value.initId
  initHash := digest
  responderDeviceEdPub := value.responderDeviceEdPub
  createdAtMs
  expiresAtMs
  confirmationTag := tag
  signature := []

def respond (sign : Bytes → Bytes) (value : PairInit) (root : Bytes) (createdAtMs expiresAtMs : Int) :
    Except PyExc PairResponse := do
  let digest ← initHash P value
  let tag ← confirmationTag P root digest
  let unsigned := unsignedResponse value digest tag createdAtMs expiresAtMs
  let m ← responseSigningBytes unsigned
  return { unsigned with signature := sign m }

variable {P}

section
variable {value a : PairInit} {sign : Bytes → Bytes}

theorem signInit_ok : signInit P sign value = .ok a ↔
    ∃ m, initSigningBytes P value = .ok m ∧ { value with signature := sign m } = a := by
  unfold signInit
  simp only [bind_ok, pure_ok]

/-- Neither the check nor the signing bytes look at the signature. -/
theorem initSigningBytes_unsigned (sig : Bytes) :
    initSigningBytes P { value with signature := sig } = initSigningBytes P value := rfl

theorem checkInitV1_unsigned (sig : Bytes) :
    checkInitV1 P { value with signature := sig } = checkInitV1 P value := rfl

theorem Expected.Describes.signed {expected : Expected} (h : expected.Describes P value) (sig : Bytes) :
    expected.Describes P { value with signature := sig } :=
  ⟨h.1, h.2, h.3, h.4, h.5, h.6, h.7, h.8, h.9, h.10, h.11, h.12, h.13, h.14, h.15, h.16⟩

/-- A signed init travels as it is, and is taken for as long as it is good. -/
theorem signed_init_taken {expected : Expected} (hsigns : Signs P value.initiatorDeviceEdPub sign)
    (hcheck : checkInitV1 P value = .ok ()) (hdescribes : expected.Describes P value) :
    ∃ a, signInit P sign value = .ok a ∧ a.unsigned = value.unsigned ∧ checkInitV1 P a = .ok () ∧
      a.signature.length = signatureLen ∧
      ∀ nowMs, verifyInit P a expected nowMs = .ok (decide (a.createdAtMs ≤ nowMs ∧ nowMs < a.expiresAtMs)) := by
  obtain ⟨m, hm⟩ := signingBytes_defined (f := init P) hcheck
  have hlength := P.ed25519_signature_length (hsigns.verifies m)
  refine ⟨{ value with signature := sign m }, signInit_ok.mpr ⟨m, hm, rfl⟩, rfl, ?_, hlength, ?_⟩
  · rw [checkInitV1_unsigned, hcheck]
  · intro nowMs
    apply answer_eq (verifyInit_answers _ _ _)
    rw [verifyInit_iff, checkInitV1_unsigned, initSigningBytes_unsigned]
    constructor
    · exact fun h => h.2.2.2.1
    · exact fun hnow => ⟨hcheck, hlength, hdescribes.signed _, hnow, m, hm, hsigns.verifies m⟩

theorem root_defined {zX zPq : Bytes} (hcheck : checkInitV1 P a = .ok ()) (hsignature : a.signature.length = signatureLen)
    (hzX : zX.length = 32) (hzPq : zPq.length = 32) :
    ∃ root, deriveProvisionalRoot P zX zPq a = .ok root ∧ root.length = 32 := by
  obtain ⟨wire, hwire⟩ := encode_defined (f := init P) hcheck hsignature
  have hvalid : (init P).validate a true = .ok () := Format.validate_ok.mpr ⟨hcheck, hsignature⟩
  have htranscript : transcriptHash P a = .ok (P.sha256 (transcriptDomain ++ (initSigningDomain ++ wire))) := by
    unfold transcriptHash transcriptMaterial
    rw [hvalid, show encodeInit P a = .ok wire from hwire]
    rfl
  unfold deriveProvisionalRoot hkdfBlock requireBytes
  rw [orRaise_pos hzX, orRaise_pos hzPq, htranscript]
  simp only [ok_bind]
  rw [orRaise_pos (P.sha256_length _)]
  exact ⟨_, rfl, hmacSha256_length P _ _⟩

end

theorem respond_ok {sign : Bytes → Bytes} {value : PairInit} {root : Bytes} {createdAtMs expiresAtMs : Int}
    {r : PairResponse} : respond P sign value root createdAtMs expiresAtMs = .ok r ↔
      ∃ digest, initHash P value = .ok digest ∧ ∃ tag, confirmationTag P root digest = .ok tag ∧
        ∃ m, responseSigningBytes (unsignedResponse value digest tag createdAtMs expiresAtMs) = .ok m ∧
          { unsignedResponse value digest tag createdAtMs expiresAtMs with signature := sign m } = r := by
  unfold respond
  simp only [bind_ok, pure_ok]

/-- A response is made unless a digest is all zeros. -/
theorem respond_defined {sign : Bytes → Bytes} {value : PairInit} {root digest tag : Bytes}
    {createdAtMs expiresAtMs : Int} (hcheck : checkInitV1 P value = .ok ()) (hdigest : initHash P value = .ok digest)
    (htag : confirmationTag P root digest = .ok tag) (hcreated : Word 8 createdAtMs) (hexpires : Word 8 expiresAtMs)
    (hlt : createdAtMs < expiresAtMs) (hdigestZero : digest ≠ zeros 32) (htagZero : tag ≠ zeros 32) :
    ∃ r, respond P sign value root createdAtMs expiresAtMs = .ok r := by
  have hsized := checkInitV1_sized hcheck
  obtain ⟨-, hdigestLength, rfl⟩ := confirmationTag_ok.mp htag
  have htagLength := hmacSha256_length P root (confirmLabel ++ [0] ++ digest)
  have hwhole : checkResponseV1 (unsignedResponse value digest (hmacSha256 P root (confirmLabel ++ [0] ++ digest))
      createdAtMs expiresAtMs) = .ok () := by
    have hinit := hcheck
    unfold checkInitV1 at hinit
    simp only [bind_ok, orRaise_ok, requireBytes_ok, exists_const] at hinit
    obtain ⟨_, -, _, -, -, -, hid, -, -, -, -, ⟨-, hdevice⟩, -⟩ := hinit
    unfold checkResponseV1 unsignedResponse
    simp only [bind_ok, orRaise_ok, requireBytes_ok, exists_const, validateTime_ok]
    refine ⟨hsized.initId, hid, hdigestLength, hsized.responderDeviceEdPub, ⟨hcreated, hexpires, hlt⟩, htagLength,
      ?_, ?_, ?_⟩
    · rw [hdigestLength]
      exact hdigestZero
    · rw [hsized.responderDeviceEdPub]
      exact hdevice
    · rw [htagLength]
      exact htagZero
  obtain ⟨m, hm⟩ := signingBytes_defined (f := response) hwhole
  exact ⟨_, respond_ok.mpr ⟨digest, hdigest, _, htag, m, hm, rfl⟩⟩

theorem responseSigningBytes_check {r : PairResponse} {m : Bytes} (sig : Bytes) (h : responseSigningBytes r = .ok m) :
    checkResponseV1 { r with signature := sig } = .ok () := (Format.signingBytes_ok.mp h).1

/-- The initiator takes the response for as long as both are good. -/
theorem response_taken {sign : Bytes → Bytes} {value : PairInit} {root : Bytes} {createdAtMs expiresAtMs : Int}
    {r : PairResponse} (hsigns : Signs P value.responderDeviceEdPub sign)
    (h : respond P sign value root createdAtMs expiresAtMs = .ok r) :
    (∃ wire, encodeResponse r = .ok wire ∧ decodeResponse wire = .ok r) ∧
      ∀ nowMs, verifyResponse P r value root nowMs = .ok (decide (InTime r value nowMs)) := by
  obtain ⟨digest, hdigest, tag, htag, m, hm, rfl⟩ := respond_ok.mp h
  have hcheck := responseSigningBytes_check (sign m) hm
  have hlength := P.ed25519_signature_length (hsigns.verifies m)
  constructor
  · obtain ⟨wire, hwire⟩ := encode_defined (f := response) hcheck hlength
    exact ⟨wire, hwire, (response.encode_iff_decode _ wire).mp hwire⟩
  · intro nowMs
    apply answer_eq (verifyResponse_answers _ _ _ _)
    rw [verifyResponse_iff]
    constructor
    · exact fun h => h.2.2.2.2.2.1
    · exact fun htime => ⟨hcheck, hlength, rfl, hdigest, rfl, htime, htag, m, hm, hsigns.verifies m⟩

/-- Devices whose signatures verify pair. The responder takes the signed init at every time at which it is
good and at no other, both derive one root, and unless a digest is all zeros there is a response, which
the initiator takes at every time at which both are good and at no other. What is sent is read as it was
written. No record, honest or not, makes either check raise. -/
theorem honest_pairing (P : Platform) {signI signR : Bytes → Bytes} {value : PairInit} {expected : Expected}
    {zX zPq : Bytes} (hi : Signs P value.initiatorDeviceEdPub signI) (hr : Signs P value.responderDeviceEdPub signR)
    (hcheck : checkInitV1 P value = .ok ()) (hdescribes : expected.Describes P value) (hzX : zX.length = 32)
    (hzPq : zPq.length = 32) :
    (∃ a root digest tag, signInit P signI value = .ok a ∧ deriveProvisionalRoot P zX zPq a = .ok root ∧
      initHash P a = .ok digest ∧ confirmationTag P root digest = .ok tag ∧
      (∃ wire, encodeInit P a = .ok wire ∧ decodeInit P wire = .ok a) ∧
      (∀ nowMs, verifyInit P a expected nowMs = .ok (decide (a.createdAtMs ≤ nowMs ∧ nowMs < a.expiresAtMs))) ∧
      (∀ createdAtMs expiresAtMs : Int, Word 8 createdAtMs → Word 8 expiresAtMs → createdAtMs < expiresAtMs →
        digest = zeros 32 ∨ tag = zeros 32 ∨ ∃ r, respond P signR a root createdAtMs expiresAtMs = .ok r) ∧
      ∀ createdAtMs expiresAtMs r, respond P signR a root createdAtMs expiresAtMs = .ok r →
        (∃ wire, encodeResponse r = .ok wire ∧ decodeResponse wire = .ok r) ∧
        ∀ nowMs, verifyResponse P r a root nowMs = .ok (decide (InTime r a nowMs))) ∧
    (∀ (a : PairInit) (e : Expected) (nowMs : Int), ∃ b, verifyInit P a e nowMs = .ok b) ∧
    ∀ (r : PairResponse) (a : PairInit) (root : Bytes) (nowMs : Int), ∃ b, verifyResponse P r a root nowMs = .ok b := by
  refine ⟨?_, fun a e nowMs => verifyInit_answers a e nowMs, fun r a root nowMs => verifyResponse_answers r a root nowMs⟩
  obtain ⟨a, ha, hsame, hcheckA, hsignature, htaken⟩ := signed_init_taken hi hcheck hdescribes
  obtain ⟨root, hroot, hrootLength⟩ := root_defined hcheckA hsignature hzX hzPq
  obtain ⟨wire, hwire⟩ := encode_defined (f := init P) hcheckA hsignature
  have hdigest := initHash_ok.mpr ⟨wire, hwire, rfl⟩
  have htag := (confirmationTag_ok (P := P)).mpr ⟨hrootLength, P.sha256_length (initSigningDomain ++ wire), rfl⟩
  have hrA : Signs P a.responderDeviceEdPub signR := by
    have hdevice : a.unsigned.responderDeviceEdPub = value.unsigned.responderDeviceEdPub := by rw [hsame]
    exact (show a.responderDeviceEdPub = value.responderDeviceEdPub from hdevice) ▸ hr
  refine ⟨a, root, _, _, ha, hroot, hdigest, htag, ⟨wire, hwire, ((init P).encode_iff_decode a wire).mp hwire⟩,
    htaken, ?_, ?_⟩
  · intro createdAtMs expiresAtMs hcreated hexpires hlt
    by_cases hdigestZero : P.sha256 (initSigningDomain ++ wire) = zeros 32
    · exact Or.inl hdigestZero
    by_cases htagZero : hmacSha256 P root (confirmLabel ++ [0] ++ P.sha256 (initSigningDomain ++ wire)) = zeros 32
    · exact Or.inr (Or.inl htagZero)
    exact Or.inr (Or.inr (respond_defined hcheckA hdigest htag hcreated hexpires hlt hdigestZero htagZero))
  · intro createdAtMs expiresAtMs r hrespond
    exact response_taken hrA hrespond

namespace Sample

/-- Every stamp verifies. -/
def stamping : Platform :=
  { hashing with
    ed25519Verify := fun _ sig _ => sig == stamp
    ed25519_signature_length := fun h => by
      rw [eq_of_beq h]
      rfl }

theorem stamps (device : Bytes) (h : device.length = 32) : Signs stamping device fun _ => stamp :=
  ⟨h, fun _ => beq_self_eq_true stamp⟩

theorem offer_stamped : verifyInit stamping offer expected 15 = .ok true := by
  decide +kernel

end Sample

theorem honest_pairing_sample :
    ∃ a root, signInit Sample.stamping (fun _ => Sample.stamp) Sample.offer = .ok a ∧
      deriveProvisionalRoot Sample.stamping Sample.secret Sample.secret a = .ok root ∧
      ∀ nowMs, verifyInit Sample.stamping a Sample.expected nowMs =
        .ok (decide (a.createdAtMs ≤ nowMs ∧ nowMs < a.expiresAtMs)) := by
  obtain ⟨hcheck, -, hdescribes, -⟩ := verifyInit_iff.mp Sample.offer_stamped
  have hsized := checkInitV1_sized hcheck
  obtain ⟨⟨a, root, _, _, ha, hroot, -, -, -, htaken, -⟩, -⟩ :=
    honest_pairing Sample.stamping (Sample.stamps _ hsized.initiatorDeviceEdPub)
      (Sample.stamps _ hsized.responderDeviceEdPub) hcheck hdescribes (show Sample.secret.length = 32 from rfl)
      (show Sample.secret.length = 32 from rfl)
  exact ⟨a, root, ha, hroot, htaken⟩

end Rdap.Protocol.Pairing.V1
