import Rdap.Protocol.Address
import Rdap.Protocol.Canon
import Rdap.Python.Raise

/-!
# Device revocation records

A record names the four ways in which a device can be recognised and is signed under the
address of the identity that revokes it. Slices read what is there, so a record that ends
too early is noticed by the byte count at the end, or by the one index access before it.
-/

set_option autoImplicit false

namespace Rdap.Revocation
open Python Protocol Lib

def magic : Bytes := [0x52, 0x56, 0x44, 0x52, 0x31, 0, 0, 0]
def recordVersion : UInt8 := 1
def recordSuite : UInt8 := 1
/-- `rvn1/device-revocation` -/
def signingDomain : Bytes :=
  [0x72, 0x76, 0x6e, 0x31, 0x2f, 0x64, 0x65, 0x76, 0x69, 0x63, 0x65, 0x2d, 0x72, 0x65, 0x76, 0x6f,
    0x63, 0x61, 0x74, 0x69, 0x6f, 0x6e]
def addressLen : Nat := 44
def pubLen : Nat := 32
def hashLen : Nat := 32
def revocationIdLen : Nat := 16
def signatureLen : Nat := 64
def idMin : Nat := 1
def idMax : Nat := 64
def fixedPrefixLen : Nat := 54

structure DeviceRevocation where
  identityAddress : PyStr
  deviceId : Bytes
  deviceEdPub : Bytes
  deviceXPub : Bytes
  deviceCertHash : Bytes
  issuerDeviceId : Bytes
  issuerSeq : Int
  revocationId : Bytes
  reasonCode : Int
  createdAtMs : Int
  signature : Bytes
  deriving DecidableEq

variable (P : Platform)

def requireId (label : PyStr) (raw : Bytes) : Except PyExc Bytes :=
  if idMin ≤ raw.length ∧ raw.length ≤ idMax then .ok raw
  else valueError (label ++ lit " length must be 1..64")

def requireAddress (addr : PyStr) : Except PyExc Bytes :=
  if addr.length ≠ addressLen then
    valueError (lit "identity_address must be exactly 44 ASCII chars")
  else if Address.decode addr = none then
    valueError (lit "identity_address is not a valid RavenAddressV1")
  else if addr ≠ P.lower addr ∨ startsWith addr (lit "rvn1") = false then
    valueError (lit "identity_address must be canonical lowercase")
  else encodeAscii addr

/-- `n.to_bytes(8, "big")` for a number that was checked to fit. -/
def u64 (n : Int) : Bytes := bigEndian 8 n.toNat

def signingBytes (r : DeviceRevocation) : Except PyExc Bytes := do
  let deviceId ← requireId (lit "device_id") r.deviceId
  let issuer ← requireId (lit "issuer_device_id") r.issuerDeviceId
  let addr ← requireAddress P r.identityAddress
  orRaise (r.deviceEdPub.length = pubLen ∧ r.deviceXPub.length = pubLen)
    (lit "device pubs must be 32 bytes")
  orRaise (r.deviceCertHash.length = hashLen) (lit "device_cert_hash must be 32 bytes")
  orRaise (r.revocationId.length = revocationIdLen ∧
    r.revocationId ≠ List.replicate revocationIdLen 0) (lit "revocation_id must be 16 nonzero bytes")
  orRaise (0 ≤ r.reasonCode ∧ r.reasonCode ≤ 255) (lit "reason_code out of range")
  orRaise (0 ≤ r.issuerSeq ∧ r.issuerSeq < 2 ^ 64) (lit "issuer_seq out of range")
  orRaise (0 ≤ r.createdAtMs ∧ r.createdAtMs < 2 ^ 64) (lit "created_at_ms out of range")
  let deviceField ← lp deviceId
  let issuerField ← lp issuer
  return signingDomain ++ [recordVersion, recordSuite] ++ addr ++ deviceField ++ r.deviceEdPub ++
    r.deviceXPub ++ r.deviceCertHash ++ issuerField ++ u64 r.issuerSeq ++ r.revocationId ++
    [UInt8.ofNat r.reasonCode.toNat] ++ u64 r.createdAtMs

def encode (r : DeviceRevocation) : Except PyExc Bytes := do
  orRaise (r.signature.length = signatureLen) (lit "signature must be 64 bytes")
  let sb ← signingBytes P r
  return magic ++ sb.drop signingDomain.length ++ r.signature

/-- `buf[off : off + n]` -/
def slice (buf : Bytes) (off n : Nat) : Bytes := (buf.drop off).take n

/-- The field read and the offset after it. -/
def readLp (buf : Bytes) (off : Nat) : Except PyExc (Bytes × Nat) :=
  if off + 2 > buf.length then valueError (lit "truncated lp")
  else
    let n := ofBigEndian (slice buf off 2)
    if ¬(idMin ≤ n ∧ n ≤ idMax) then valueError (lit "lp length out of 1..64")
    else if off + 2 + n > buf.length then valueError (lit "truncated lp body")
    else .ok (slice buf (off + 2) n, off + 2 + n)

def minWireLen : Nat :=
  fixedPrefixLen + 2 + idMin + pubLen * 2 + hashLen + 2 + idMin + 8 + 16 + 1 + 8 + 64

def asciiAddress (raw : Bytes) : Except PyExc PyStr :=
  match decodeAscii raw with
  | .ok addr => .ok addr
  | .error _ => valueError (lit "identity_address not ASCII")

def decode (wire : Bytes) : Except PyExc DeviceRevocation := do
  orRaise (minWireLen ≤ wire.length) (lit "wire too short")
  orRaise (wire.take 8 = magic) (lit "bad magic")
  orRaise (wire.getD 8 0 = recordVersion ∧ wire.getD 9 0 = recordSuite) (lit "bad version/suite")
  let identityAddress ← asciiAddress (slice wire 10 addressLen)
  let _ ← requireAddress P identityAddress
  let (deviceId, off) ← readLp wire (10 + addressLen)
  let deviceEd := slice wire off pubLen
  let deviceX := slice wire (off + pubLen) pubLen
  let certHash := slice wire (off + 2 * pubLen) hashLen
  let (issuerId, off) ← readLp wire (off + 2 * pubLen + hashLen)
  let issuerSeq := ofBigEndian (slice wire off 8)
  let revId := slice wire (off + 8) revocationIdLen
  let reason ← atIndex wire (off + 8 + revocationIdLen)
  let created := ofBigEndian (slice wire (off + 9 + revocationIdLen) 8)
  let sig := slice wire (off + 17 + revocationIdLen) signatureLen
  orRaise (off + 17 + revocationIdLen + signatureLen = wire.length) (lit "trailing bytes")
  orRaise (revId ≠ List.replicate revocationIdLen 0) (lit "revocation_id all-zero")
  return {
    identityAddress, deviceId, deviceEdPub := deviceEd, deviceXPub := deviceX,
    deviceCertHash := certHash, issuerDeviceId := issuerId, issuerSeq, revocationId := revId,
    reasonCode := reason.toNat, createdAtMs := created, signature := sig }

theorem readLp_ok {buf field : Bytes} {off next : Nat} (h : readLp buf off = .ok (field, next)) :
    next = off + 2 + field.length ∧ field.length ≤ idMax ∧ next ≤ buf.length := by
  unfold readLp at h
  split at h
  · cases h
  · simp only at h
    split at h
    · cases h
    · rename_i hsize
      split at h
      · cases h
      · rename_i hroom
        obtain ⟨rfl, rfl⟩ := Prod.mk.inj (Except.ok.inj h)
        have hlen : (slice buf (off + 2) (ofBigEndian (slice buf off 2))).length =
            ofBigEndian (slice buf off 2) := by
          simp only [slice, List.length_take, List.length_drop] at hroom ⊢
          omega
        rw [hlen]
        exact ⟨rfl, by omega, by omega⟩

/-- Two ids of at most 64 bytes are all that varies in the size of a record. -/
theorem decode_ok {wire : Bytes} {r : DeviceRevocation} (h : decode P wire = .ok r) :
    (∃ b, requireAddress P r.identityAddress = .ok b) ∧ wire.length ≤ 379 := by
  unfold decode at h
  simp only [bind_ok, pure_ok, orRaise_ok] at h
  obtain ⟨_, _, _, _, _, _, addr, _, b, hb, ⟨deviceId, off⟩, hdevice, ⟨issuerId, off'⟩, hissuer, reason,
    _, _, hend, _, _, rfl⟩ := h
  obtain ⟨hoff, hid, _⟩ := readLp_ok hdevice
  obtain ⟨hoff', hid', _⟩ := readLp_ok hissuer
  refine ⟨⟨b, hb⟩, ?_⟩
  simp only [addressLen, pubLen, hashLen, revocationIdLen, signatureLen, idMax] at *
  omega

theorem requireAddress_ok {addr : PyStr} {b : Bytes} (h : requireAddress P addr = .ok b) :
    encodeAscii addr = .ok b ∧ b.length = addressLen := by
  unfold requireAddress at h
  split at h
  · cases h
  · rename_i hlen
    split at h
    · cases h
    · split at h
      · cases h
      · refine ⟨h, ?_⟩
        obtain ⟨_, rfl⟩ := encodeAscii_ok h
        simpa using hlen

def verify (r : DeviceRevocation) (identityEdPub : Bytes) : Bool :=
  if Address.encode P identityEdPub ≠ r.identityAddress then false
  else match signingBytes P r with
    | .ok message =>
      identityEdPub.length = 32 && P.ed25519Verify identityEdPub r.signature message
    | .error _ => false

def claimDigest (wire : Bytes) : Bytes := P.sha256 wire

/-! ## A record to evaluate the model on -/

def sampleKey : Bytes := List.replicate 32 7

/-- Signatures under the sample key verify if they have their length. -/
def samplePlatform : Platform :=
  { Platform.ofTable [] with
    ed25519Verify := fun pk sig _ => pk == sampleKey && sig.length == 64
    ed25519_signature_length := fun h => by simpa using (Bool.and_eq_true_iff.mp h).2 }

/-- The record with this sequence number and these bytes of identification. -/
def sampleRecord (n : UInt8) (issuerSeq : Nat) : DeviceRevocation where
  identityAddress := Address.encode samplePlatform sampleKey
  deviceId := [n]
  deviceEdPub := List.replicate 32 n
  deviceXPub := List.replicate 32 n
  deviceCertHash := List.replicate 32 n
  issuerDeviceId := [1]
  issuerSeq := issuerSeq
  revocationId := List.replicate 16 n
  reasonCode := 1
  createdAtMs := 5
  signature := List.replicate 63 9 ++ [n]

def sampleWire (n : UInt8) (issuerSeq : Nat) : Bytes :=
  magic ++ [recordVersion, recordSuite] ++
    (sampleRecord n issuerSeq).identityAddress.map (fun c => UInt8.ofNat c.val) ++
    frame 2 [n] ++ List.replicate 96 n ++ frame 2 [1] ++ u64 issuerSeq ++ List.replicate 16 n ++ [1] ++
    u64 5 ++ List.replicate 63 9 ++ [n]

end Rdap.Revocation
