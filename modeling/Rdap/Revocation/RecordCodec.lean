import Rdap.Braid.WireReader
import Rdap.Lib.Layout
import Rdap.Python.Ascii
import Rdap.Revocation.Record

/-!
# The codec of a revocation record

The ids of a record vary in length, everything else has a fixed width. What is decoded is what was
encoded; a wire whose ids reach to its end has no byte for the reason code.
-/

set_option autoImplicit false

namespace Rdap.Python

theorem bind_error {ε α β : Type} {x : Except ε α} {f : α → Except ε β} {e : ε} :
    (x >>= f) = .error e ↔ x = .error e ∨ ∃ a, x = .ok a ∧ f a = .error e := by
  cases x with
  | error e => simp [bind, Except.bind]
  | ok a => simp [bind, Except.bind]

theorem atIndex_error {α : Type} {xs : List α} {i : Nat} {e : PyExc} :
    atIndex xs i = .error e ↔ xs.length ≤ i ∧ e = ⟨.indexError, lit "index out of range"⟩ := by
  unfold atIndex
  cases hget : xs[i]? with
  | none =>
    have hlen := List.getElem?_eq_none_iff.mp hget
    simp only [Except.error.injEq, hlen, true_and]
    exact eq_comm
  | some x =>
    have hlen := (List.getElem?_eq_some_iff.mp hget).1
    simp only [reduceCtorEq, false_iff]
    omega

end Rdap.Python

namespace Rdap.Revocation
open Python Protocol Lib

variable (P : Platform)

/-- What the encoder takes, with the bytes of the address. -/
structure DeviceRevocation.Valid (r : DeviceRevocation) (addr : Bytes) : Prop where
  address : requireAddress P r.identityAddress = .ok addr
  device : idMin ≤ r.deviceId.length ∧ r.deviceId.length ≤ idMax
  issuer : idMin ≤ r.issuerDeviceId.length ∧ r.issuerDeviceId.length ≤ idMax
  pubs : r.deviceEdPub.length = pubLen ∧ r.deviceXPub.length = pubLen
  certHash : r.deviceCertHash.length = hashLen
  revocation : r.revocationId.length = revocationIdLen ∧ r.revocationId ≠ List.replicate revocationIdLen 0
  reason : 0 ≤ r.reasonCode ∧ r.reasonCode ≤ 255
  sequence : 0 ≤ r.issuerSeq ∧ r.issuerSeq < 2 ^ 64
  created : 0 ≤ r.createdAtMs ∧ r.createdAtMs < 2 ^ 64
  signature : r.signature.length = signatureLen

def DeviceRevocation.fields (r : DeviceRevocation) (addr : Bytes) : List Bytes :=
  [magic, [recordVersion], [recordSuite], addr, bigEndian 2 r.deviceId.length, r.deviceId, r.deviceEdPub,
    r.deviceXPub, r.deviceCertHash, bigEndian 2 r.issuerDeviceId.length, r.issuerDeviceId, u64 r.issuerSeq,
    r.revocationId, [UInt8.ofNat r.reasonCode.toNat], u64 r.createdAtMs, r.signature]

/-- The widths of the fields of a record with ids of these lengths. -/
def recordWidths (device issuer : Nat) : List Nat :=
  [8, 1, 1, 44, 2, device, 32, 32, 32, 2, issuer, 8, 16, 1, 8, 64]

/-- The length field of the device id. -/
def deviceLength (wire : Bytes) : Nat := ofBigEndian (slice wire 54 2)

/-- The length field of the issuer's id. -/
def issuerLength (wire : Bytes) : Nat := ofBigEndian (slice wire (152 + deviceLength wire) 2)

/-- The header is in order and both ids are there. -/
structure Framed (wire : Bytes) : Prop where
  long : minWireLen ≤ wire.length
  magic : wire.take 8 = magic
  version : wire.getD 8 0 = recordVersion ∧ wire.getD 9 0 = recordSuite
  address : ∃ addr b, asciiAddress (slice wire 10 addressLen) = .ok addr ∧ requireAddress P addr = .ok b
  device : idMin ≤ deviceLength wire ∧ deviceLength wire ≤ idMax
  issuer : idMin ≤ issuerLength wire ∧ issuerLength wire ≤ idMax
  room : 154 + deviceLength wire + issuerLength wire ≤ wire.length

/-- The byte of the reason code lies in the wire, if the decoder comes to it. -/
def ReasonInside (wire : Bytes) : Prop :=
  Framed P wire → 178 + deviceLength wire + issuerLength wire < wire.length

/-- What stands at the places of the fields. -/
def fieldsOf (addr : PyStr) (wire : Bytes) : DeviceRevocation where
  identityAddress := addr
  deviceId := slice wire 56 (deviceLength wire)
  deviceEdPub := slice wire (56 + deviceLength wire) 32
  deviceXPub := slice wire (88 + deviceLength wire) 32
  deviceCertHash := slice wire (120 + deviceLength wire) 32
  issuerDeviceId := slice wire (154 + deviceLength wire) (issuerLength wire)
  issuerSeq := ofBigEndian (slice wire (154 + deviceLength wire + issuerLength wire) 8)
  revocationId := slice wire (162 + deviceLength wire + issuerLength wire) 16
  reasonCode := (wire.getD (178 + deviceLength wire + issuerLength wire) 0).toNat
  createdAtMs := ofBigEndian (slice wire (179 + deviceLength wire + issuerLength wire) 8)
  signature := slice wire (187 + deviceLength wire + issuerLength wire) 64

variable {P}

/-! ## Encoding -/

theorem requireId_ok {label : PyStr} {raw b : Bytes} :
    requireId label raw = .ok b ↔ (idMin ≤ raw.length ∧ raw.length ≤ idMax) ∧ b = raw := by
  unfold requireId
  split
  · rename_i h
    simp only [Except.ok.injEq, h, and_self, true_and]
    exact eq_comm
  · rename_i h
    simp only [valueError, reduceCtorEq, h, false_and]

theorem lp_id {b field : Bytes} (h : b.length ≤ idMax) : lp b = .ok field ↔ field = frame 2 b := by
  have hle : ¬ b.length > lpMaxLen := by
    have hmax : idMax ≤ lpMaxLen := by decide
    omega
  rw [Protocol.lp, if_neg hle, Except.ok.injEq]
  exact eq_comm

theorem encode_ok {r : DeviceRevocation} {wire : Bytes} :
    encode P r = .ok wire ↔ ∃ addr, r.Valid P addr ∧ wire = (r.fields addr).flatten := by
  unfold encode signingBytes
  simp only [bind_ok, orRaise_ok, pure_ok, exists_const, requireId_ok]
  constructor
  · rintro ⟨hsig, _, ⟨_, ⟨hdevice, rfl⟩, _, ⟨hissuer, rfl⟩, addr, haddr, hpubs, hcert, hrev, hreason, hseq,
      hcreated, deviceField, hdlp, issuerField, hilp, rfl⟩, rfl⟩
    rw [lp_id hdevice.2] at hdlp
    rw [lp_id hissuer.2] at hilp
    subst hdlp hilp
    refine ⟨addr, ⟨haddr, hdevice, hissuer, hpubs, hcert, hrev, hreason, hseq, hcreated, hsig⟩, ?_⟩
    simp [DeviceRevocation.fields, frame, signingDomain]
  · rintro ⟨addr, h, rfl⟩
    refine ⟨h.signature, _, ⟨_, ⟨h.device, rfl⟩, _, ⟨h.issuer, rfl⟩, addr, h.address, h.pubs, h.certHash,
      h.revocation, h.reason, h.sequence, h.created, _, (lp_id h.device.2).mpr rfl, _,
      (lp_id h.issuer.2).mpr rfl, rfl⟩, ?_⟩
    simp [DeviceRevocation.fields, frame, signingDomain]

/-! ## Decoding -/

/-- A field is read where its two bytes of length and its body lie in the wire. -/
theorem readLp_eq {buf : Bytes} {off : Nat} {p : Bytes × Nat} (hhead : off + 2 ≤ buf.length) :
    readLp buf off = .ok p ↔
      (idMin ≤ ofBigEndian (slice buf off 2) ∧ ofBigEndian (slice buf off 2) ≤ idMax) ∧
      off + 2 + ofBigEndian (slice buf off 2) ≤ buf.length ∧
      p = (slice buf (off + 2) (ofBigEndian (slice buf off 2)), off + 2 + ofBigEndian (slice buf off 2)) := by
  unfold readLp
  rw [if_neg (by omega)]
  by_cases hsize : idMin ≤ ofBigEndian (slice buf off 2) ∧ ofBigEndian (slice buf off 2) ≤ idMax
  · by_cases hroom : off + 2 + ofBigEndian (slice buf off 2) ≤ buf.length
    · simp only [hsize, hroom, gt_iff_lt, not_lt.mpr hroom, not_true_eq_false, if_false, Except.ok.injEq, and_self,
        true_and]
      exact eq_comm
    · simp only [hsize, hroom, gt_iff_lt, not_le.mp hroom, and_self, not_true_eq_false, if_false, if_true, valueError,
        reduceCtorEq, false_and, and_false]
  · simp only [hsize, not_false_eq_true, if_true, valueError, reduceCtorEq, false_and]

theorem readLp_device {wire : Bytes} {p : Bytes × Nat} (hlong : minWireLen ≤ wire.length) :
    readLp wire (10 + addressLen) = .ok p ↔ (idMin ≤ deviceLength wire ∧ deviceLength wire ≤ idMax) ∧
      p = (slice wire 56 (deviceLength wire), 56 + deviceLength wire) := by
  have hmin : 253 ≤ wire.length := hlong
  have hmax : idMax = 64 := rfl
  rw [readLp_eq (by simp only [addressLen]; omega)]
  change (idMin ≤ deviceLength wire ∧ deviceLength wire ≤ idMax) ∧ 56 + deviceLength wire ≤ wire.length ∧
    p = (slice wire 56 (deviceLength wire), 56 + deviceLength wire) ↔ _
  constructor
  · rintro ⟨hsize, -, hp⟩
    exact ⟨hsize, hp⟩
  · rintro ⟨hsize, hp⟩
    exact ⟨hsize, by omega, hp⟩

theorem issuer_offset (n : Nat) : 56 + n + 2 * pubLen + hashLen = 152 + n := by
  simp only [pubLen, hashLen]
  omega

theorem readLp_issuer {wire : Bytes} {p : Bytes × Nat} (hlong : minWireLen ≤ wire.length)
    (hdevice : deviceLength wire ≤ idMax) :
    readLp wire (56 + deviceLength wire + 2 * pubLen + hashLen) = .ok p ↔
      (idMin ≤ issuerLength wire ∧ issuerLength wire ≤ idMax) ∧
      154 + deviceLength wire + issuerLength wire ≤ wire.length ∧
      p = (slice wire (154 + deviceLength wire) (issuerLength wire),
        154 + deviceLength wire + issuerLength wire) := by
  have hmin : 253 ≤ wire.length := hlong
  have hmax : idMax = 64 := rfl
  have hnext : 152 + deviceLength wire + 2 = 154 + deviceLength wire := by omega
  rw [issuer_offset, readLp_eq (by omega), hnext]
  rfl

theorem atIndex_byte {xs : Bytes} {i : Nat} {b : UInt8} :
    atIndex xs i = .ok b ↔ i < xs.length ∧ b = xs.getD i 0 := by
  unfold atIndex
  rw [List.getD_eq_getElem?_getD]
  cases hget : xs[i]? with
  | none =>
    have hlen := List.getElem?_eq_none_iff.mp hget
    simp only [reduceCtorEq, false_iff]
    omega
  | some y =>
    have hlen := (List.getElem?_eq_some_iff.mp hget).1
    simp only [Except.ok.injEq, Option.getD_some, hlen, true_and]
    exact eq_comm

/-- What the decoder reads when it has come to the reason byte. -/
theorem framed_reads {wire : Bytes} (h : Framed P wire) :
    readLp wire (10 + addressLen) = .ok (slice wire 56 (deviceLength wire), 56 + deviceLength wire) ∧
      readLp wire (56 + deviceLength wire + 2 * pubLen + hashLen) =
        .ok (slice wire (154 + deviceLength wire) (issuerLength wire),
          154 + deviceLength wire + issuerLength wire) :=
  ⟨(readLp_device h.long).mpr ⟨h.device, rfl⟩, (readLp_issuer h.long h.device.2).mpr ⟨h.issuer, h.room, rfl⟩⟩

/-- The offsets as the decoder adds them up. -/
theorem record_offsets (n m : Nat) :
    56 + n + pubLen = 88 + n ∧ 56 + n + 2 * pubLen = 120 + n ∧
      154 + n + m + 8 + revocationIdLen = 178 + n + m ∧ 154 + n + m + 8 = 162 + n + m ∧
      154 + n + m + 9 + revocationIdLen = 179 + n + m ∧ 154 + n + m + 17 + revocationIdLen = 187 + n + m ∧
      187 + n + m + signatureLen = 251 + n + m := by
  simp only [pubLen, revocationIdLen, signatureLen]
  omega

theorem decode_iff {wire : Bytes} {r : DeviceRevocation} :
    decode P wire = .ok r ↔ Framed P wire ∧ wire.length = 251 + deviceLength wire + issuerLength wire ∧
      slice wire (162 + deviceLength wire + issuerLength wire) 16 ≠ List.replicate revocationIdLen 0 ∧
      ∃ addr, asciiAddress (slice wire 10 addressLen) = .ok addr ∧ r = fieldsOf addr wire := by
  obtain ⟨hxpub, hcert, hreason, hrev, hcreated, hsig, hend⟩ :=
    record_offsets (deviceLength wire) (issuerLength wire)
  unfold decode
  simp only [bind_ok, orRaise_ok, pure_ok, exists_const]
  constructor
  · rintro ⟨hlong, hmagic, hversion, addr, haddr, b, hb, ⟨_, off⟩, hdevice, ⟨_, off'⟩, hissuer, reason, hbyte,
      hlength, hzero, rfl⟩
    obtain ⟨hn, hp⟩ := (readLp_device hlong).mp hdevice
    obtain ⟨rfl, rfl⟩ := Prod.mk.inj hp
    obtain ⟨hm, hroom, hp'⟩ := (readLp_issuer hlong hn.2).mp hissuer
    obtain ⟨rfl, rfl⟩ := Prod.mk.inj hp'
    obtain ⟨_, rfl⟩ := atIndex_byte.mp hbyte
    dsimp only at hlength hzero ⊢
    rw [hsig, hend] at hlength
    rw [hrev] at hzero
    refine ⟨⟨hlong, hmagic, hversion, ⟨addr, b, haddr, hb⟩, hn, hm, hroom⟩, hlength.symm, hzero, addr, haddr, ?_⟩
    rw [hreason, hrev, hcreated, hsig, hcert, hxpub]
    rfl
  · rintro ⟨h, hlength, hzero, addr, haddr, rfl⟩
    obtain ⟨addr', b, haddr', hb⟩ := h.address
    obtain rfl := Except.ok.inj (haddr.symm.trans haddr')
    obtain ⟨hdevice, hissuer⟩ := framed_reads h
    have hbyte : atIndex wire (178 + deviceLength wire + issuerLength wire) =
        .ok (wire.getD (178 + deviceLength wire + issuerLength wire) 0) := atIndex_byte.mpr ⟨by omega, rfl⟩
    refine ⟨h.long, h.magic, h.version, addr, haddr, b, hb, _, hdevice, _, hissuer,
      wire.getD (178 + deviceLength wire + issuerLength wire) 0, ?_, ?_, ?_, ?_⟩
    · dsimp only
      rw [hreason]
      exact hbyte
    · dsimp only
      rw [hsig, hend]
      exact hlength.symm
    · dsimp only
      rw [hrev]
      exact hzero
    · dsimp only
      rw [hrev, hcreated, hsig, hcert, hxpub]
      rfl

/-! ## Round trips -/

theorem asciiAddress_ok {raw : Bytes} {addr : PyStr} : asciiAddress raw = .ok addr ↔ encodeAscii addr = .ok raw := by
  rw [← decodeAscii_ok]
  unfold asciiAddress
  cases decodeAscii raw with
  | ok text => exact Iff.rfl
  | error e => simp [valueError]

theorem requireAddress_encoded {addr : PyStr} {raw b : Bytes} (haddr : asciiAddress raw = .ok addr)
    (hb : requireAddress P addr = .ok b) : b = raw :=
  Except.ok.inj ((requireAddress_ok P hb).1.symm.trans (asciiAddress_ok.mp haddr))

/-- The slices at the places of the fields are the stretches of their widths. -/
theorem cut_recordWidths (n m : Nat) (wire : Bytes) : cut (recordWidths n m) wire =
    [wire.take 8, (wire.drop 8).take 1, (wire.drop 9).take 1, slice wire 10 44, slice wire 54 2, slice wire 56 n,
      slice wire (56 + n) 32, slice wire (88 + n) 32, slice wire (120 + n) 32, slice wire (152 + n) 2,
      slice wire (154 + n) m, slice wire (154 + n + m) 8, slice wire (162 + n + m) 16,
      (wire.drop (178 + n + m)).take 1, slice wire (179 + n + m) 8, slice wire (187 + n + m) 64] := by
  have hafter : ∀ a k : Nat, a + n + k = a + k + n := fun a k => by omega
  have hrev : 154 + n + m + 8 = 162 + n + m := by omega
  have hreason : 162 + n + m + 16 = 178 + n + m := by omega
  have hcreated : 178 + n + m + 1 = 179 + n + m := by omega
  have hsig : 179 + n + m + 8 = 187 + n + m := by omega
  simp only [cut, recordWidths, slice, List.drop_drop, Nat.reduceAdd, hafter _ 32, hafter _ 2, hrev, hreason,
    hcreated, hsig]

theorem recordWidths_sum (n m : Nat) : (recordWidths n m).sum = 251 + n + m := by
  simp only [recordWidths, List.sum_cons, List.sum_nil]
  omega

/-- What is decoded is encoded to the wire it came from. -/
theorem encode_of_decode {wire : Bytes} {r : DeviceRevocation} (h : decode P wire = .ok r) :
    encode P r = .ok wire := by
  obtain ⟨hframed, hlength, hzero, addr, haddr, rfl⟩ := decode_iff.mp h
  obtain ⟨addr', b, haddr', hb⟩ := hframed.address
  obtain rfl := Except.ok.inj (haddr.symm.trans haddr')
  have hsum := hlength.trans (recordWidths_sum (deviceLength wire) (issuerLength wire)).symm
  have hwidths := cut_lengths (Nat.le_of_eq hsum.symm)
  have hflat := flatten_cut (recordWidths (deviceLength wire) (issuerLength wire)) wire
  rw [← hsum, List.take_length] at hflat
  rw [cut_recordWidths] at hwidths hflat
  simp only [List.map_cons, List.map_nil, recordWidths, List.cons.injEq, and_true] at hwidths
  obtain ⟨-, -, -, -, hdlen, hdevice, hed, hx, hcert, hilen, hissuer, hseq, hrev, -, hcreated, hsig⟩ := hwidths
  refine encode_ok.mpr ⟨b, ⟨hb, ?_, ?_, ⟨hed, hx⟩, hcert, ⟨hrev, hzero⟩, ?_, ?_, ?_, hsig⟩, ?_⟩
  · exact hdevice.symm ▸ hframed.device
  · exact hissuer.symm ▸ hframed.issuer
  · have hbyte := (wire.getD (178 + deviceLength wire + issuerLength wire) 0).toNat_lt
    simp only [fieldsOf]
    omega
  · have hlt := ofBigEndian_lt (slice wire (154 + deviceLength wire + issuerLength wire) 8)
    rw [hseq] at hlt
    simp only [fieldsOf]
    omega
  · have hlt := ofBigEndian_lt (slice wire (179 + deviceLength wire + issuerLength wire) 8)
    rw [hcreated] at hlt
    simp only [fieldsOf]
    omega
  · obtain ⟨hversion, hsuite⟩ := hframed.version
    have hdl := bigEndian_ofBigEndian (slice wire 54 2)
    have hil := bigEndian_ofBigEndian (slice wire (152 + deviceLength wire) 2)
    rw [hdlen] at hdl
    rw [hilen] at hil
    rw [hframed.magic, take_one_drop 0 (show 8 < wire.length by omega), hversion,
      take_one_drop 0 (show 9 < wire.length by omega), hsuite, ← hdl, ← hil, ← Braid.word_ofBigEndian hseq,
      take_one_drop 0 (show 178 + deviceLength wire + issuerLength wire < wire.length by omega),
      ← Braid.word_ofBigEndian hcreated] at hflat
    refine hflat.symm.trans ?_
    rw [requireAddress_encoded haddr hb]
    unfold DeviceRevocation.fields fieldsOf
    dsimp only
    rw [hdevice, hissuer, Int.toNat_natCast, UInt8.ofNat_toNat]
    rfl

theorem u64_word {n : Int} (h : 0 ≤ n ∧ n < 2 ^ 64) : (ofBigEndian (u64 n) : Int) = n :=
  @Braid.ofBigEndian_word 8 n ⟨h.1, by omega⟩

/-- What is encoded is decoded to the record it came from. -/
theorem decode_of_encode {wire : Bytes} {r : DeviceRevocation} (h : encode P r = .ok wire) :
    decode P wire = .ok r := by
  obtain ⟨addr, hr, rfl⟩ := encode_ok.mp h
  have hmax : idMax = 64 := rfl
  have hmin : idMin = 1 := rfl
  obtain ⟨haddr, haddrLen⟩ := requireAddress_ok P hr.address
  have hdn : ofBigEndian (bigEndian 2 r.deviceId.length) = r.deviceId.length :=
    ofBigEndian_bigEndian (by have := hr.device; omega)
  have hin : ofBigEndian (bigEndian 2 r.issuerDeviceId.length) = r.issuerDeviceId.length :=
    ofBigEndian_bigEndian (by have := hr.issuer; omega)
  have hwidths : (r.fields addr).map List.length = recordWidths r.deviceId.length r.issuerDeviceId.length := by
    have hed : r.deviceEdPub.length = 32 := hr.pubs.1
    have hx : r.deviceXPub.length = 32 := hr.pubs.2
    have hcert : r.deviceCertHash.length = 32 := hr.certHash
    have hrev : r.revocationId.length = 16 := hr.revocation.1
    have hsig : r.signature.length = 64 := hr.signature
    have haddr : addr.length = 44 := haddrLen
    simp [DeviceRevocation.fields, recordWidths, magic, u64, hed, hx, hcert, hrev, hsig, haddr]
  have hlength : (r.fields addr).flatten.length = 251 + r.deviceId.length + r.issuerDeviceId.length := by
    rw [List.length_flatten, hwidths, recordWidths_sum]
  have hcut := cut_flatten hwidths
  generalize (r.fields addr).flatten = wire at hlength hcut ⊢
  rw [cut_recordWidths] at hcut
  simp only [DeviceRevocation.fields, List.cons.injEq, and_true] at hcut
  obtain ⟨hmagic, hversion, hsuite, haddress, hdlen, hdevice, hed, hx, hcert, hilen, hissuer, hseq, hrev, hreason,
    hcreated, hsig⟩ := hcut
  have hn : deviceLength wire = r.deviceId.length := by rw [deviceLength, hdlen, hdn]
  have hm : issuerLength wire = r.issuerDeviceId.length := by rw [issuerLength, hn, hilen, hin]
  rw [take_one_drop 0 (by omega), List.cons.injEq] at hversion hsuite hreason
  have hascii : asciiAddress (slice wire 10 addressLen) = .ok r.identityAddress := by
    rw [asciiAddress_ok]
    change encodeAscii _ = .ok (slice wire 10 44)
    rw [haddress]
    exact haddr
  refine decode_iff.mpr ⟨⟨?_, hmagic, ⟨hversion.1, hsuite.1⟩, ⟨_, _, hascii, hr.address⟩, hn ▸ hr.device,
    hm ▸ hr.issuer, by omega⟩, by omega, ?_, _, hascii, ?_⟩
  · have hdevice := hr.device
    have hissuer := hr.issuer
    change 253 ≤ wire.length
    omega
  · rw [hn, hm, hrev]
    exact hr.revocation.2
  · unfold fieldsOf
    have hcode : ((UInt8.ofNat r.reasonCode.toNat).toNat : Int) = r.reasonCode := by
      have hreason := hr.reason
      rw [UInt8.toNat_ofNat', Nat.mod_eq_of_lt (by omega), Int.toNat_of_nonneg hreason.1]
    rw [hn, hm, hdevice, hed, hx, hcert, hissuer, hseq, hrev, hreason.1, hcreated, hsig, u64_word hr.sequence,
      u64_word hr.created, hcode]

/-! ## Errors -/

theorem asciiAddress_error {raw : Bytes} {e : PyExc} (h : asciiAddress raw = .error e) : e.kind.isValueError = true := by
  unfold asciiAddress at h
  split at h
  · cases h
  · obtain rfl := Except.error.inj h
    rfl

theorem requireAddress_error {addr : PyStr} {e : PyExc} (h : requireAddress P addr = .error e) :
    e.kind.isValueError = true := by
  unfold requireAddress encodeAscii at h
  split_ifs at h <;> cases h <;> rfl

theorem readLp_error {buf : Bytes} {off : Nat} {e : PyExc} (h : readLp buf off = .error e) :
    e.kind.isValueError = true := by
  unfold readLp at h
  dsimp only at h
  split_ifs at h <;> cases h <;> rfl

theorem decode_error {wire : Bytes} {e : PyExc} (h : decode P wire = .error e) :
    e.kind.isValueError = true ∨
      Framed P wire ∧ wire.length ≤ 178 + deviceLength wire + issuerLength wire := by
  obtain ⟨-, -, hreason, -⟩ := record_offsets (deviceLength wire) (issuerLength wire)
  unfold decode at h
  simp only [bind_error, orRaise_ok, orRaise_error, exists_const] at h
  rcases h with ⟨-, rfl⟩ | ⟨hlong, ⟨-, rfl⟩ | ⟨hmagic, ⟨-, rfl⟩ | ⟨hversion, h⟩⟩⟩
  · exact Or.inl rfl
  · exact Or.inl rfl
  · exact Or.inl rfl
  rcases h with h | ⟨addr, haddr, h | ⟨b, hb, h | ⟨⟨_, off⟩, hdevice, h⟩⟩⟩
  · exact Or.inl (asciiAddress_error h)
  · exact Or.inl (requireAddress_error h)
  · exact Or.inl (readLp_error h)
  obtain ⟨hn, hp⟩ := (readLp_device hlong).mp hdevice
  obtain ⟨rfl, rfl⟩ := Prod.mk.inj hp
  rcases h with h | ⟨⟨_, off'⟩, hissuer, h⟩
  · exact Or.inl (readLp_error h)
  obtain ⟨hm, hroom, hp'⟩ := (readLp_issuer hlong hn.2).mp hissuer
  obtain ⟨rfl, rfl⟩ := Prod.mk.inj hp'
  rcases h with h | ⟨_, _, ⟨-, rfl⟩ | ⟨-, ⟨-, rfl⟩ | ⟨-, h⟩⟩⟩
  · dsimp only at h
    rw [hreason] at h
    exact Or.inr ⟨⟨hlong, hmagic, hversion, ⟨addr, b, haddr, hb⟩, hn, hm, hroom⟩, (atIndex_error.mp h).1⟩
  · exact Or.inl rfl
  · exact Or.inl rfl
  · cases h

/-- A wire that ends before its reason byte makes the decoder index out of range. -/
theorem decode_outside {wire : Bytes} (h : Framed P wire)
    (hshort : wire.length ≤ 178 + deviceLength wire + issuerLength wire) :
    decode P wire = .error ⟨.indexError, lit "index out of range"⟩ := by
  obtain ⟨-, -, hreason, -⟩ := record_offsets (deviceLength wire) (issuerLength wire)
  obtain ⟨addr, b, haddr, hb⟩ := h.address
  obtain ⟨hdevice, hissuer⟩ := framed_reads h
  unfold decode
  simp only [bind_error, orRaise_ok, exists_const]
  refine Or.inr ⟨h.long, Or.inr ⟨h.magic, Or.inr ⟨h.version, Or.inr ⟨addr, haddr, Or.inr ⟨b, hb,
    Or.inr ⟨_, hdevice, Or.inr ⟨_, hissuer, Or.inl ?_⟩⟩⟩⟩⟩⟩⟩
  dsimp only
  rw [hreason]
  exact atIndex_error.mpr ⟨hshort, rfl⟩

/-- The codec is exact, and raises nothing but value errors, just when the reason byte is not looked for
behind the end of the wire. -/
theorem record_codec_iff (P : Platform) (wire : Bytes) :
    ((∀ r, encode P r = .ok wire → decode P wire = .ok r) ∧
      ((∃ r, decode P wire = .ok r ∧ encode P r = .ok wire) ∨
        ∃ e, decode P wire = .error e ∧ e.kind.isValueError = true)) ↔ ReasonInside P wire := by
  constructor
  · rintro ⟨-, houtcome⟩ hframed
    by_contra hshort
    have hraise := decode_outside hframed (by omega)
    rcases houtcome with ⟨r, hr, -⟩ | ⟨e, he, hkind⟩
    · cases hr.symm.trans hraise
    · obtain rfl := Except.error.inj (he.symm.trans hraise)
      cases hkind
  · intro hinside
    refine ⟨fun r hr => decode_of_encode hr, ?_⟩
    cases hdecode : decode P wire with
    | ok r => exact Or.inl ⟨r, rfl, encode_of_decode hdecode⟩
    | error e =>
      refine Or.inr ⟨e, rfl, ?_⟩
      rcases decode_error hdecode with hkind | ⟨hframed, hshort⟩
      · exact hkind
      · have hlt := hinside hframed
        omega

/-- Two long ids, after which the wire ends. -/
def longIdsWire : Bytes :=
  magic ++ [recordVersion, recordSuite] ++
    (sampleRecord 1 1).identityAddress.map (fun c => UInt8.ofNat c.val) ++
    frame 2 (List.replicate 64 1) ++ List.replicate 96 1 ++ frame 2 (List.replicate 35 1)

theorem longIds_index_error : longIdsWire.length = 253 ∧
    ¬ ((∃ r, decode samplePlatform longIdsWire = .ok r ∧ encode samplePlatform r = .ok longIdsWire) ∨
      ∃ e, decode samplePlatform longIdsWire = .error e ∧ e.kind.isValueError = true) := by
  have hraise : decode samplePlatform longIdsWire = .error ⟨.indexError, lit "index out of range"⟩ := by
    decide +kernel
  refine ⟨by decide +kernel, ?_⟩
  rintro (⟨r, hr, -⟩ | ⟨e, he, hkind⟩)
  · cases hr.symm.trans hraise
  · obtain rfl := Except.error.inj (he.symm.trans hraise)
    cases hkind

end Rdap.Revocation
