import Rdap.Identity.Signing
import Rdap.Protocol.PairInit

/-!
# Pairing records on the wire

The four decoders take just what the encoders of their version return, with the same record. Their
magics are four different ones, so that no two of them take the same string.
-/

set_option autoImplicit false

namespace Rdap.Protocol.Pairing
open Python Lib Identity

variable (P : Platform)

/-- A format of `PairInit` records, given what the version fixes. -/
def initFormat (name : PyStr) (version : UInt8) (profileId magic signingDomain : Bytes)
    (check : PairInit → Except PyExc Unit) (sized : ∀ v, check v = .ok () → v.Sized P)
    (magic_length : magic.length = 8) (profile_length : profileId.length < 256) : Format PairInit where
  name
  magic
  version
  role := initiatorRole
  profileId
  signingDomain
  widths := initWidths
  check
  signed := initFields P
  signature := PairInit.signature
  read := readInit
  magic_length
  profile_length
  signed_widths v h := initFields_widths (sized v h)
  read_signed v _ h hfields := readInit_initFields (sized v h) hfields
  signed_read v _ _ hwidths hread h := initFields_readInit hwidths hread (sized v h)

/-- A format of `PairResponse` records, given what the version fixes. -/
def responseFormat (name : PyStr) (version : UInt8) (profileId magic signingDomain : Bytes)
    (check : PairResponse → Except PyExc Unit) (sized : ∀ v, check v = .ok () → v.Sized)
    (magic_length : magic.length = 8) (profile_length : profileId.length < 256) : Format PairResponse where
  name
  magic
  version
  role := responderRole
  profileId
  signingDomain
  widths := responseWidths
  check
  signed := responseFields
  signature := PairResponse.signature
  read := readResponse
  magic_length
  profile_length
  signed_widths v h := responseFields_widths (sized v h)
  read_signed v _ h hfields := readResponse_responseFields (sized v h) hfields
  signed_read v _ _ hwidths hread h := responseFields_readResponse hwidths hread (sized v h)

/-! ## `pair_init` -/

namespace V1

def version : UInt8 := 1
def profileId : Bytes := asciiBytes (lit "ATSAM/indexed-session/v1")
def initMagic : Bytes := asciiBytes (lit "RVPI1") ++ zeros 3
def responseMagic : Bytes := asciiBytes (lit "RVPR1") ++ zeros 3
def initSigningDomain : Bytes := asciiBytes (lit "rvn1/pair-init")
def responseSigningDomain : Bytes := asciiBytes (lit "rvn1/pair-response")

def init : Format PairInit :=
  initFormat P (lit "PairInit") version profileId initMagic initSigningDomain (checkInitV1 P)
    (fun _ h => checkInitV1_sized h) (by decide) (by decide)

def response : Format PairResponse :=
  responseFormat (lit "PairResponse") version profileId responseMagic responseSigningDomain checkResponseV1
    (fun _ h => checkResponseV1_sized h) (by decide) (by decide)

def initSigningBytes (value : PairInit) : Except PyExc Bytes := (init P).signingBytes value
def encodeInit (value : PairInit) : Except PyExc Bytes := (init P).encode value
def decodeInit (wire : Bytes) : Except PyExc PairInit := (init P).decode wire
def responseSigningBytes (value : PairResponse) : Except PyExc Bytes := response.signingBytes value
def encodeResponse (value : PairResponse) : Except PyExc Bytes := response.encode value
def decodeResponse (wire : Bytes) : Except PyExc PairResponse := response.decode wire

end V1

/-! ## `pair_init_v2` -/

namespace V2

def version : UInt8 := 2
def profileId : Bytes := asciiBytes (lit "ATSAM/hybrid-ratchet/v2")
def initMagic : Bytes := asciiBytes (lit "RVPI2") ++ zeros 3
def responseMagic : Bytes := asciiBytes (lit "RVPR2") ++ zeros 3
def initSigningDomain : Bytes := asciiBytes (lit "rvn1/pair-init-v2")
def responseSigningDomain : Bytes := asciiBytes (lit "rvn1/pair-response-v2")

def init : Format PairInit :=
  initFormat P (lit "PairInit V2") version profileId initMagic initSigningDomain (checkInitV2 P)
    (fun _ h => checkInitV2_sized h) (by decide) (by decide)

def response : Format PairResponse :=
  responseFormat (lit "PairResponse V2") version profileId responseMagic responseSigningDomain checkResponseV2
    (fun _ h => checkResponseV2_sized h) (by decide) (by decide)

def initSigningBytes (value : PairInit) : Except PyExc Bytes := (init P).signingBytes value
def encodeInit (value : PairInit) : Except PyExc Bytes := (init P).encode value

/-- A record of the first version is refused before its length is looked at. -/
def decodeInit (wire : Bytes) : Except PyExc PairInit := do
  orRaise (¬(8 ≤ wire.length ∧ wire.take 8 = V1.initMagic))
    (lit "PairInit V1 must not be reinterpreted as V2")
  (init P).decode wire

def responseSigningBytes (value : PairResponse) : Except PyExc Bytes := response.signingBytes value
def encodeResponse (value : PairResponse) : Except PyExc Bytes := response.encode value

/-- Here the length is looked at first. -/
def decodeResponse (wire : Bytes) : Except PyExc PairResponse := do
  response.requireLength wire
  orRaise (wire.take 8 ≠ V1.responseMagic) (lit "PairResponse V1 must not be reinterpreted as V2")
  response.decodeSized wire

end V2

/-! ## Round trips -/

section
variable {P}

theorem V2.decodeInit_ok {wire : Bytes} {value : PairInit} :
    V2.decodeInit P wire = .ok value ↔ (V2.init P).decode wire = .ok value := by
  unfold V2.decodeInit
  simp only [bind_ok, orRaise_ok, exists_const]
  constructor
  · exact And.right
  · intro h
    refine ⟨?_, h⟩
    rintro ⟨-, hmagic⟩
    have hsame : V1.initMagic = V2.initMagic := hmagic.symm.trans (Format.take_magic h)
    revert hsame
    decide

theorem V2.decodeResponse_ok {wire : Bytes} {value : PairResponse} :
    V2.decodeResponse wire = .ok value ↔ V2.response.decode wire = .ok value := by
  unfold V2.decodeResponse
  simp only [bind_ok, orRaise_ok, exists_const]
  constructor
  · rintro ⟨u, hlength, -, h⟩
    exact bind_ok.mpr ⟨u, hlength, h⟩
  · intro h
    obtain ⟨u, hlength, hsized⟩ := bind_ok.mp h
    refine ⟨u, hlength, ?_, hsized⟩
    intro hmagic
    have hsame : V1.responseMagic = V2.responseMagic := hmagic.symm.trans (Format.take_magic h)
    revert hsame
    decide

end

/-- The four decoders, by what they accept, with the magics of their formats. -/
def decoders : List (Bytes × (Bytes → Bool)) :=
  [(V1.initMagic, fun wire => (V1.decodeInit P wire).isOk),
    (V1.responseMagic, fun wire => (V1.decodeResponse wire).isOk),
    (V2.initMagic, fun wire => (V2.decodeInit P wire).isOk),
    (V2.responseMagic, fun wire => (V2.decodeResponse wire).isOk)]

theorem decoders_magic : ∀ d ∈ decoders P, ∀ wire, d.2 wire = true → wire.take 8 = d.1 := by
  have hok : ∀ {α : Type} {x : Except PyExc α}, x.isOk = true → ∃ a, x = .ok a := by
    intro α x hx
    cases x with
    | ok a => exact ⟨a, rfl⟩
    | error e => cases hx
  simp only [decoders, List.mem_cons, List.not_mem_nil, or_false]
  rintro d (rfl | rfl | rfl | rfl) wire h <;> obtain ⟨value, h⟩ := hok h
  · exact Format.take_magic (f := V1.init P) h
  · exact Format.take_magic (f := V1.response) h
  · exact Format.take_magic (V2.decodeInit_ok.mp h)
  · exact Format.take_magic (V2.decodeResponse_ok.mp h)

theorem pair_codecs (P : Platform) :
    (∀ value wire, V1.encodeInit P value = .ok wire ↔ V1.decodeInit P wire = .ok value) ∧
    (∀ value wire, V1.encodeResponse value = .ok wire ↔ V1.decodeResponse wire = .ok value) ∧
    (∀ value wire, V2.encodeInit P value = .ok wire ↔ V2.decodeInit P wire = .ok value) ∧
    (∀ value wire, V2.encodeResponse value = .ok wire ↔ V2.decodeResponse wire = .ok value) ∧
    (decoders P).Pairwise fun d e => ∀ wire, ¬(d.2 wire = true ∧ e.2 wire = true) := by
  refine ⟨(V1.init P).encode_iff_decode, V1.response.encode_iff_decode, ?_, ?_, ?_⟩
  · intro value wire
    exact ((V2.init P).encode_iff_decode value wire).trans V2.decodeInit_ok.symm
  · intro value wire
    exact (V2.response.encode_iff_decode value wire).trans V2.decodeResponse_ok.symm
  · have hmagics : [V1.initMagic, V1.responseMagic, V2.initMagic, V2.responseMagic].Pairwise (· ≠ ·) := by decide
    have hpairs : (decoders P).Pairwise fun d e => d.1 ≠ e.1 := List.pairwise_map.mp hmagics
    refine hpairs.imp_of_mem ?_
    rintro d e hd he hne wire ⟨htake, hother⟩
    exact hne ((decoders_magic P d hd wire htake).symm.trans (decoders_magic P e he wire hother))

example : (V1.encodeResponse ⟨List.replicate 16 1, List.replicate 32 2, List.replicate 32 3, 10, 20,
    List.replicate 32 4, List.replicate 64 5⟩).isOk = true := by
  decide +kernel

end Rdap.Protocol.Pairing
