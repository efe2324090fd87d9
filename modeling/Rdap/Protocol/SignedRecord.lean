import Rdap.Lib.Layout
import Rdap.Python.Raise

/-!
# Signed records of a fixed layout

A header of constants, fields of fixed widths, and a signature over both under a domain of its own.
The pairing records of both versions are such records.
-/

set_option autoImplicit false

namespace Rdap.Protocol.Pairing
open Python Lib

def signatureLen : Nat := 64
def suite : UInt8 := 1

def requireBytes (value : Bytes) (length : Nat) (fieldName : PyStr) : Except PyExc Unit :=
  orRaise (value.length = length)
    (fieldName ++ lit " must be exactly " ++ natDecimal length ++ lit " bytes")

/-- `if not c: raise AssertionError(message)` -/
def orAssert (c : Prop) [Decidable c] (message : PyStr) : Except PyExc Unit :=
  if c then .ok () else .error ⟨.assertionError, message⟩

/-- A record with its layout. `signed` lists the fields after the profile, `read` takes them and the
signature back. -/
structure Format (α : Type) where
  name : PyStr
  magic : Bytes
  version : UInt8
  role : UInt8
  profileId : Bytes
  signingDomain : Bytes
  widths : List Nat
  check : α → Except PyExc Unit
  signed : α → Except PyExc (List Bytes)
  signature : α → Bytes
  read : List Bytes → Bytes → Except PyExc α
  magic_length : magic.length = 8
  profile_length : profileId.length < 256
  signed_widths : ∀ v, check v = .ok () → ∃ fields, signed v = .ok fields ∧ fields.map List.length = widths
  read_signed : ∀ v fields, check v = .ok () → signed v = .ok fields → read fields (signature v) = .ok v
  signed_read : ∀ v fields sig, fields.map List.length = widths → read fields sig = .ok v → check v = .ok () →
    signed v = .ok fields ∧ signature v = sig

namespace Format
variable {α : Type} (f : Format α)

def profileLen : Nat := f.profileId.length
def signedLen : Nat := 12 + f.profileLen + f.widths.sum
def wireLen : Nat := f.signedLen + signatureLen

/-- What stands before the fields. -/
def header : List Bytes :=
  [f.magic, [f.version], [suite], [f.role], [UInt8.ofNat f.profileLen], f.profileId]

def validate (value : α) (requireSignature : Bool) : Except PyExc Unit := do
  f.check value
  if requireSignature then requireBytes (f.signature value) signatureLen (lit "signature") else .ok ()

def signingBytes (value : α) : Except PyExc Bytes := do
  f.validate value false
  let fields ← f.signed value
  let out := f.header.flatten ++ fields.flatten
  orAssert (out.length = f.signedLen) (f.name ++ lit " canonical length mismatch")
  return f.signingDomain ++ out

def encode (value : α) : Except PyExc Bytes := do
  f.validate value true
  let signing ← f.signingBytes value
  let wire := signing.drop f.signingDomain.length ++ f.signature value
  orAssert (wire.length = f.wireLen) (f.name ++ lit " wire length mismatch")
  return wire

def requireLength (wire : Bytes) : Except PyExc Unit :=
  orRaise (wire.length = f.wireLen)
    (f.name ++ lit " wire must be exactly " ++ natDecimal f.wireLen ++ lit " bytes")

/-- Decoding after the length check. -/
def decodeSized (wire : Bytes) : Except PyExc α := do
  orRaise (wire.take 8 = f.magic) (f.name ++ lit " magic mismatch")
  orRaise (wire.getD 8 0 = f.version ∧ wire.getD 9 0 = suite ∧ wire.getD 10 0 = f.role)
    (f.name ++ lit " version, suite, or role mismatch")
  orRaise ((wire.getD 11 0).toNat = f.profileLen ∧ (wire.drop 12).take f.profileLen = f.profileId)
    (f.name ++ lit " profile mismatch")
  let offset := 12 + f.profileLen
  let value ← f.read (cut f.widths (wire.drop offset)) ((wire.drop (offset + f.widths.sum)).take signatureLen)
  orRaise (offset + f.widths.sum + signatureLen = wire.length) (f.name ++ lit " trailing bytes")
  f.validate value true
  return value

def decode (wire : Bytes) : Except PyExc α := do
  f.requireLength wire
  f.decodeSized wire

/-! ## What encoding and decoding do -/

variable {f}

theorem orAssert_ok {c : Prop} [Decidable c] {message : PyStr} {u : Unit} : orAssert c message = .ok u ↔ c := by
  unfold orAssert
  split <;> simp_all

theorem validate_ok {value : α} {u : Unit} :
    f.validate value true = .ok u ↔ f.check value = .ok () ∧ (f.signature value).length = signatureLen := by
  unfold validate
  rw [bind_ok]
  simp only [if_true, requireBytes, orRaise_ok]
  exact ⟨fun ⟨_, h, hlen⟩ => ⟨h, hlen⟩, fun ⟨h, hlen⟩ => ⟨(), h, hlen⟩⟩

theorem validate_check {value : α} {u : Unit} : f.validate value false = .ok u ↔ f.check value = .ok () := by
  unfold validate
  rw [bind_ok]
  exact ⟨fun ⟨_, h, _⟩ => h, fun h => ⟨(), h, rfl⟩⟩

theorem header_widths : f.header.map List.length = [8, 1, 1, 1, 1, f.profileLen] := by
  simp only [header, List.map_cons, List.map_nil, f.magic_length, List.length_singleton]
  rfl

theorem header_length : f.header.flatten.length = 12 + f.profileLen := by
  rw [List.length_flatten, header_widths]
  simp only [List.sum_cons, List.sum_nil]
  omega

/-- The three checks of the decoder read the header. -/
theorem header_iff {wire : Bytes} (h : 12 ≤ wire.length) :
    (wire.take 8 = f.magic ∧ (wire.getD 8 0 = f.version ∧ wire.getD 9 0 = suite ∧ wire.getD 10 0 = f.role) ∧
      (wire.getD 11 0).toNat = f.profileLen ∧ (wire.drop 12).take f.profileLen = f.profileId) ↔
    wire.take (12 + f.profileLen) = f.header.flatten := by
  have hsum : [8, 1, 1, 1, 1, f.profileLen].sum = 12 + f.profileLen := by
    simp only [List.sum_cons, List.sum_nil]
    omega
  rw [← hsum, ← cut_eq_iff_take header_widths]
  have hlen : (UInt8.ofNat f.profileLen).toNat = f.profileLen :=
    Nat.mod_eq_of_lt f.profile_length
  have hbyte : (wire.getD 11 0).toNat = f.profileLen ↔ wire.getD 11 0 = UInt8.ofNat f.profileLen := by
    rw [← UInt8.toNat_inj, hlen]
  simp only [cut, List.drop_drop, header, List.cons.injEq, and_true]
  rw [take_one_drop 0 (by omega), take_one_drop 0 (by omega), take_one_drop 0 (by omega),
    take_one_drop 0 (by omega), hbyte]
  simp only [List.cons.injEq, and_true, and_assoc]

theorem fields_length {value : α} {fields : List Bytes} (hcheck : f.check value = .ok ())
    (h : f.signed value = .ok fields) : fields.map List.length = f.widths := by
  obtain ⟨fields', hsigned, hwidths⟩ := f.signed_widths value hcheck
  rw [Except.ok.inj (h.symm.trans hsigned)]
  exact hwidths

theorem signingBytes_ok {value : α} {b : Bytes} :
    f.signingBytes value = .ok b ↔ f.check value = .ok () ∧
      ∃ fields, f.signed value = .ok fields ∧ b = f.signingDomain ++ (f.header.flatten ++ fields.flatten) := by
  unfold signingBytes
  simp only [bind_ok, pure_ok, orAssert_ok, validate_check]
  constructor
  · rintro ⟨_, hcheck, fields, hsigned, _, hlength, rfl⟩
    exact ⟨hcheck, fields, hsigned, rfl⟩
  · rintro ⟨hcheck, fields, hsigned, rfl⟩
    refine ⟨(), hcheck, fields, hsigned, (), ?_, rfl⟩
    rw [List.length_append, header_length, List.length_flatten, fields_length hcheck hsigned, signedLen]

theorem encode_ok {value : α} {wire : Bytes} :
    f.encode value = .ok wire ↔ f.check value = .ok () ∧ (f.signature value).length = signatureLen ∧
      ∃ fields, f.signed value = .ok fields ∧
        wire = f.header.flatten ++ (fields.flatten ++ f.signature value) := by
  unfold encode
  simp only [bind_ok, pure_ok, orAssert_ok, validate_ok, signingBytes_ok]
  constructor
  · rintro ⟨_, ⟨hcheck, hsignature⟩, _, ⟨-, fields, hsigned, rfl⟩, _, hlength, rfl⟩
    refine ⟨hcheck, hsignature, fields, hsigned, ?_⟩
    rw [List.drop_left, List.append_assoc]
  · rintro ⟨hcheck, hsignature, fields, hsigned, rfl⟩
    refine ⟨(), ⟨hcheck, hsignature⟩, _, ⟨hcheck, fields, hsigned, rfl⟩, (), ?_, ?_⟩
    · rw [List.drop_left, List.length_append, List.length_append, header_length, List.length_flatten,
        fields_length hcheck hsigned, hsignature, wireLen, signedLen]
    · rw [List.drop_left, List.append_assoc]

/-- A string of the right length that passes the header checks is cut into header, fields and signature. -/
theorem wire_parts {wire : Bytes} (h : wire.length = f.wireLen)
    (hheader : wire.take (12 + f.profileLen) = f.header.flatten) :
    wire = f.header.flatten ++ ((cut f.widths (wire.drop (12 + f.profileLen))).flatten ++
      (wire.drop (12 + f.profileLen + f.widths.sum)).take signatureLen) := by
  have hlast : (wire.drop (12 + f.profileLen + f.widths.sum)).take signatureLen =
      wire.drop (12 + f.profileLen + f.widths.sum) := by
    apply List.take_of_length_le
    rw [List.length_drop, h, wireLen, signedLen]
    omega
  have hdrop : wire.drop (12 + f.profileLen + f.widths.sum) = (wire.drop (12 + f.profileLen)).drop f.widths.sum :=
    List.drop_drop.symm
  rw [hlast, hdrop, flatten_cut, List.take_append_drop, ← hheader, List.take_append_drop]

theorem decode_ok {value : α} {wire : Bytes} :
    f.decode wire = .ok value ↔ f.check value = .ok () ∧ (f.signature value).length = signatureLen ∧
      ∃ fields, f.signed value = .ok fields ∧
        wire = f.header.flatten ++ (fields.flatten ++ f.signature value) := by
  unfold decode decodeSized requireLength
  simp only [bind_ok, pure_ok, orRaise_ok, validate_ok]
  constructor
  · rintro ⟨_, hlength, _, hmagic, _, hversion, _, hprofile, value', hread, _, hend, _, ⟨hcheck, hsignature⟩, rfl⟩
    have htwelve : 12 ≤ wire.length := by
      rw [hlength, wireLen, signedLen]
      omega
    have hheader := (header_iff htwelve).mp ⟨hmagic, hversion, hprofile⟩
    have hwidths : (cut f.widths (wire.drop (12 + f.profileLen))).map List.length = f.widths := by
      apply cut_lengths
      rw [List.length_drop, hlength, wireLen, signedLen]
      omega
    obtain ⟨hsigned, hsig⟩ := f.signed_read _ _ _ hwidths hread hcheck
    refine ⟨hcheck, hsignature, _, hsigned, ?_⟩
    rw [hsig]
    exact wire_parts hlength hheader
  · rintro ⟨hcheck, hsignature, fields, hsigned, hwire⟩
    have hwidths := fields_length hcheck hsigned
    have hfields : fields.flatten.length = f.widths.sum := by rw [List.length_flatten, hwidths]
    have hlength : wire.length = f.wireLen := by
      rw [hwire, List.length_append, List.length_append, header_length, hfields, hsignature, wireLen, signedLen]
      omega
    have htwelve : 12 ≤ wire.length := by
      rw [hlength, wireLen, signedLen]
      omega
    have hheader : wire.take (12 + f.profileLen) = f.header.flatten := by
      rw [hwire]
      exact List.take_left' header_length
    have hdrop : wire.drop (12 + f.profileLen) = fields.flatten ++ f.signature value := by
      rw [hwire]
      exact List.drop_left' header_length
    have hlast : (wire.drop (12 + f.profileLen + f.widths.sum)).take signatureLen = f.signature value := by
      rw [← List.drop_drop, hdrop, List.drop_left' hfields]
      exact List.take_of_length_le (Nat.le_of_eq hsignature)
    obtain ⟨hmagic, hversion, hprofile⟩ := (header_iff htwelve).mpr hheader
    refine ⟨(), hlength, (), hmagic, (), hversion, (), hprofile, value, ?_, (), ?_, (), ⟨hcheck, hsignature⟩, rfl⟩
    · rw [hdrop, cut_append hwidths, hlast]
      exact f.read_signed value fields hcheck hsigned
    · rw [hlength, wireLen, signedLen]

/-- Encoding and decoding are inverse to each other. -/
theorem encode_iff_decode (value : α) (wire : Bytes) : f.encode value = .ok wire ↔ f.decode wire = .ok value :=
  encode_ok.trans decode_ok.symm

theorem take_magic {value : α} {wire : Bytes} (h : f.decode wire = .ok value) : wire.take 8 = f.magic := by
  unfold decode decodeSized at h
  simp only [bind_ok, orRaise_ok] at h
  obtain ⟨_, -, _, hmagic, -⟩ := h
  exact hmagic

end Format

end Rdap.Protocol.Pairing
