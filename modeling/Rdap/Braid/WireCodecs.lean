import Rdap.Braid.Wire

/-!
# What the wire codecs accept

An encoder that does not raise writes the layout of its value, and a decoder accepts nothing
but layouts. The two differ in which values they admit: a masked byte, a key whose length is
not looked at, a direction that only the encoder checks.
-/

set_option autoImplicit false

namespace Rdap.Braid
open Python Lib

/-! ## RVCH1 -/

def Rvch1.layout (v : Rvch1) : Bytes :=
  rvch1Magic ++ (word 2 rvch1Schema ++ (v.ecDhPub ++ (word 4 v.ecPn ++ (word 4 v.ecN ++
    (word 8 v.sckaEpoch ++ (word 4 v.sckaPn ++ (word 4 v.sckaN ++ (u8 v.direction ++ u8 0))))))))

/-- The fields have the sizes of the layout. -/
structure Rvch1.Sized (v : Rvch1) : Prop where
  ecDhPub : v.ecDhPub.length = 32
  ecPn : Word 4 v.ecPn
  ecN : Word 4 v.ecN
  sckaEpoch : Word 8 v.sckaEpoch
  sckaPn : Word 4 v.sckaPn
  sckaN : Word 4 v.sckaN

theorem Rvch1.Sized.layout_length {v : Rvch1} (h : v.Sized) : v.layout.length = rvch1Len := by
  simp [Rvch1.layout, h.ecDhPub, rvch1Magic, rvch1Len]

theorem encodeRvch1_ok {v : Rvch1} {b : Bytes} :
    encodeRvch1 v = .ok b ↔ (v.Sized ∧ (v.direction = 0 ∨ v.direction = 1)) ∧ b = v.layout := by
  have hschema : Word 2 rvch1Schema := by decide
  unfold encodeRvch1
  simp only [bind_ok, orRaise_ok, toBytes_ok, pure_ok]
  constructor
  · rintro ⟨-, hpub, -, hdirection, _, ⟨-, rfl⟩, _, ⟨hpn, rfl⟩, _, ⟨hn, rfl⟩, _, ⟨hepoch, rfl⟩,
      _, ⟨hspn, rfl⟩, _, ⟨hsn, rfl⟩, rfl⟩
    exact ⟨⟨⟨hpub, hpn, hn, hepoch, hspn, hsn⟩, hdirection⟩, rfl⟩
  · rintro ⟨⟨h, hdirection⟩, rfl⟩
    exact ⟨(), h.ecDhPub, (), hdirection, _, ⟨hschema, rfl⟩, _, ⟨h.ecPn, rfl⟩, _, ⟨h.ecN, rfl⟩,
      _, ⟨h.sckaEpoch, rfl⟩, _, ⟨h.sckaPn, rfl⟩, _, ⟨h.sckaN, rfl⟩, rfl⟩

theorem decodeRvch1_ok {v : Rvch1} {b : Bytes} :
    decodeRvch1 b = .ok v ↔ (v.Sized ∧ Word 1 v.direction) ∧ b = v.layout := by
  have hschema : Word 2 rvch1Schema := by decide
  have hzero : Word 1 0 := by decide
  unfold decodeRvch1
  constructor
  · intro h
    simp only [bind_ok, orRaise_ok, pure_ok, expectMagic_ok (show rvch1Magic.length = 8 from rfl),
      rejectTrailing_ok, Prod.exists] at h
    obtain ⟨-, -, -, hmagic, schema, r, hread, -, rfl, pub, r₁, hread₁, pn, r₂, hread₂, n, r₃, hread₃, epoch,
      r₄, hread₄, spn, r₅, hread₅, sn, r₆, hread₆, direction, r₇, hread₇, zero, r₈, hread₈, -, rfl, -, rfl,
      rfl⟩ := h
    obtain ⟨-, hread⟩ := (readWord_reads 2).split hread
    obtain ⟨hpub, rfl⟩ := readArray32_reads.split hread₁
    obtain ⟨hpn, rfl⟩ := (readWord_reads 4).split hread₂
    obtain ⟨hn, rfl⟩ := (readWord_reads 4).split hread₃
    obtain ⟨hepoch, rfl⟩ := (readWord_reads 8).split hread₄
    obtain ⟨hspn, rfl⟩ := (readWord_reads 4).split hread₅
    obtain ⟨hsn, rfl⟩ := (readWord_reads 4).split hread₆
    obtain ⟨hdirection, rfl⟩ := readU8_reads.split hread₇
    obtain ⟨-, rfl⟩ := readU8_reads.split hread₈
    refine ⟨⟨⟨hpub, hpn, hn, hepoch, hspn, hsn⟩, hdirection⟩, ?_⟩
    rw [hmagic, hread]
    simp [Rvch1.layout]
  · rintro ⟨⟨h, hdirection⟩, rfl⟩
    have hend : u8 0 = u8 0 ++ [] := (List.append_nil _).symm
    rw [orRaise_pos h.layout_length]
    unfold Rvch1.layout
    rw [hend, expectMagic_append rfl, List.drop_left' (show rvch1Magic.length = 8 from rfl)]
    simp only [ok_bind, (readWord_reads 2).append hschema, orRaise_pos,
      readArray32_reads.append h.ecDhPub, (readWord_reads 4).append h.ecPn,
      (readWord_reads 4).append h.ecN, (readWord_reads 8).append h.sckaEpoch,
      (readWord_reads 4).append h.sckaPn, (readWord_reads 4).append h.sckaN,
      readU8_reads.append hdirection, readU8_reads.append hzero, rejectTrailing]
    rfl

/-! ## RVBM1 -/

/-- What a contract that is kept says about the fields. -/
theorem rvbm1_contract {m : Rvbm1} (h : validateRvbm1Contract m = .ok ()) :
    m.needsAead ≤ 1 ∧ (m.ecMkOracleLen = 0 ∨ m.ecMkOracleLen = 32) ∧
    (m.needsAead = 0 → m.ecMkOracle.length = 32) ∧
    m.aad.length ≤ rvba1Len ∧ (m.mode = 0 ∨ m.mode = 1) ∧
    m.body.length ≤ braidMaxAeadCiphertextBytes ∧
    (m.needsAead = 0 → m.expectedCt = none) ∧
    (m.needsAead ≠ 0 → (m.expectedCt.isSome = true ↔ m.mode = modeSealCompare)) ∧
    ∀ ct, m.expectedCt = some ct → ct.length ≤ braidMaxAeadCiphertextBytes := by
  unfold validateRvbm1Contract at h
  rw [bind_ok] at h
  obtain ⟨⟨⟩, hneeds, h⟩ := h
  rw [orRaise_ok] at hneeds
  split at h
  · rename_i hzero
    rw [orRaise_ok] at h
    obtain ⟨hlen, horacle, haad, hmode, hbody, hct⟩ := h
    refine ⟨hneeds, Or.inl hlen, ?_, ?_, Or.inl hmode, ?_, fun _ => hct, fun hne => absurd hzero hne, ?_⟩
    · intro _
      rw [horacle, List.length_replicate]
    · simp [haad]
    · simp [hbody]
    · intro ct hsome
      rw [hct] at hsome
      cases hsome
  · rename_i hzero
    simp only [bind_ok, orRaise_ok] at h
    obtain ⟨-, hlen, -, haad, -, hmode, h⟩ := h
    split at h
    · rename_i hseal
      simp only [bind_ok, orRaise_ok] at h
      obtain ⟨-, hbody, h⟩ := h
      cases hct : m.expectedCt with
      | none =>
        rw [hct] at h
        cases h
      | some ct =>
        simp only [hct, orRaise_ok] at h
        refine ⟨hneeds, hlen, fun hz => absurd hz hzero, by omega, Or.inl hseal, ?_,
          fun hz => absurd hz hzero, fun _ => by simp [hseal], ?_⟩
        · simp only [braidMaxAeadPlaintextBytes, braidMaxAeadCiphertextBytes] at *
          omega
        · intro ct' hsome
          cases hsome
          simp only [braidMaxAeadPlaintextBytes, braidMaxAeadCiphertextBytes] at *
          omega
    · split at h
      · rename_i hseal hopen
        simp only [bind_ok, orRaise_ok] at h
        obtain ⟨-, ⟨-, hbody⟩, hct⟩ := h
        refine ⟨hneeds, hlen, fun hz => absurd hz hzero, by omega, Or.inr hopen, hbody,
          fun _ => hct, fun _ => by simp [hct, hseal], ?_⟩
        intro ct hsome
        rw [hct] at hsome
        cases hsome
      · cases h

/-- A byte string behind its length in four bytes, when there is one. -/
def sectionOf : Option Bytes → Bytes
  | none => []
  | some bytes => word 4 bytes.length ++ bytes

def Rvbm1.layout (m : Rvbm1) : Bytes :=
  rvbm1Magic ++ (word 2 rvbm1Schema ++ (u8 m.needsAead ++ (u8 0 ++ (word 2 m.ecMkOracleLen ++
    (m.ecMkOracle ++ (word 2 m.aad.length ++ (m.aad ++ (u8 m.mode ++ (word 4 m.body.length ++ (m.body ++
    (if m.needsAead = 1 ∧ m.mode = modeSealCompare then sectionOf m.expectedCt else [])))))))))))

/-- The two fields that only the decoder has in their sizes. -/
def Rvbm1.Whole (m : Rvbm1) : Prop := 0 ≤ m.needsAead ∧ m.ecMkOracle.length = 32

theorem encodeExpectedCt_of {m : Rvbm1} (h : validateRvbm1Contract m = .ok ()) :
    encodeExpectedCt m =
      .ok (if m.needsAead = 1 ∧ m.mode = modeSealCompare then sectionOf m.expectedCt else []) := by
  obtain ⟨-, -, -, -, -, -, -, -, hlength⟩ := rvbm1_contract h
  unfold encodeExpectedCt
  cases hct : m.expectedCt with
  | none => simp [sectionOf]
  | some ct =>
    have hword : Word 4 ct.length := by
      apply word_natCast
      have hle := hlength ct hct
      simp only [braidMaxAeadCiphertextBytes] at hle
      omega
    simp only [sectionOf]
    split
    · rw [toBytes_pos hword]
      rfl
    · rfl

theorem encodeRvbm1_ok {m : Rvbm1} {b : Bytes} :
    encodeRvbm1 m = .ok b ↔ validateRvbm1Contract m = .ok () ∧ b = m.layout := by
  have hschema : Word 2 rvbm1Schema := by decide
  unfold encodeRvbm1
  simp only [bind_ok, toBytes_ok, pure_ok]
  constructor
  · rintro ⟨⟨⟩, hvalid, _, ⟨-, rfl⟩, _, ⟨-, rfl⟩, _, ⟨-, rfl⟩, _, ⟨-, rfl⟩, ct, hct, rfl⟩
    rw [encodeExpectedCt_of hvalid] at hct
    cases hct
    exact ⟨hvalid, rfl⟩
  · rintro ⟨hvalid, rfl⟩
    obtain ⟨-, horacle, -, haad, -, hbody, -, -, -⟩ := rvbm1_contract hvalid
    have horacle' : Word 2 m.ecMkOracleLen := by
      rcases horacle with h | h <;> rw [h] <;> decide
    have haad' : Word 2 m.aad.length := word_natCast (by simp only [rvba1Len] at haad; omega)
    have hbody' : Word 4 m.body.length :=
      word_natCast (by simp only [braidMaxAeadCiphertextBytes] at hbody; omega)
    exact ⟨(), hvalid, _, ⟨hschema, rfl⟩, _, ⟨horacle', rfl⟩, _, ⟨haad', rfl⟩, _, ⟨hbody', rfl⟩, _,
      encodeExpectedCt_of hvalid, rfl⟩

/-- The section is there just when the source reads one. -/
theorem readExpectedCt_reads (needs mode : Int) :
    Reads (fun ct : Option Bytes => (ct.isSome = true ↔ needs = 1 ∧ mode = modeSealCompare) ∧
      ∀ bytes, ct = some bytes → Word 4 bytes.length) sectionOf (readExpectedCt needs mode) := by
  intro r ct rest
  unfold readExpectedCt
  split
  · rename_i hsection
    simp only [bind_ok, pure_ok, Prod.exists, Prod.mk.injEq]
    constructor
    · rintro ⟨n, r', hlength, bytes, r'', hbytes, rfl, rfl⟩
      obtain ⟨hword, rfl⟩ := (readWord_reads 4).split hlength
      obtain ⟨rfl, rfl⟩ := (readBytes_reads n).split hbytes
      refine ⟨⟨by simp [hsection], ?_⟩, by simp [sectionOf]⟩
      intro bytes' hsome
      cases hsome
      exact hword
    · rintro ⟨⟨hsome, hword⟩, rfl⟩
      obtain ⟨bytes, rfl⟩ := Option.isSome_iff_exists.mp (hsome.mpr hsection)
      refine ⟨_, _, ?_, bytes, rest, (readBytes_reads _).append rfl rest, rfl, rfl⟩
      rw [sectionOf, List.append_assoc]
      exact (readWord_reads 4).append (hword bytes rfl) _
  · rename_i hsection
    constructor
    · intro h
      cases h
      exact ⟨⟨by simp [hsection], by simp⟩, rfl⟩
    · rintro ⟨⟨hsome, -⟩, rfl⟩
      cases ct with
      | none => rfl
      | some bytes => exact absurd (hsome.mp rfl) hsection

theorem Rvbm1.section_of {m : Rvbm1} (hvalid : validateRvbm1Contract m = .ok ()) (hwhole : m.Whole) :
    (m.expectedCt.isSome = true ↔ m.needsAead = 1 ∧ m.mode = modeSealCompare) ∧
    ∀ bytes, m.expectedCt = some bytes → Word 4 bytes.length := by
  obtain ⟨hneeds, -, -, -, -, -, hnone, hsome, hlength⟩ := rvbm1_contract hvalid
  obtain ⟨hlow, -⟩ := hwhole
  refine ⟨?_, ?_⟩
  · by_cases hzero : m.needsAead = 0
    · simp [hnone hzero, hzero]
    · have hone : m.needsAead = 1 := by omega
      rw [hsome hzero]
      simp [hone]
  · intro bytes hct
    apply word_natCast
    have hle := hlength bytes hct
    simp only [braidMaxAeadCiphertextBytes] at hle
    omega

theorem section_layout {needs mode : Int} {ct : Option Bytes}
    (h : ct.isSome = true ↔ needs = 1 ∧ mode = modeSealCompare) :
    (if needs = 1 ∧ mode = modeSealCompare then sectionOf ct else []) = sectionOf ct := by
  split
  · rfl
  · rename_i hsection
    cases ct with
    | none => rfl
    | some bytes => exact absurd (h.mp rfl) hsection

theorem decodeRvbm1_ok {m : Rvbm1} {b : Bytes} :
    decodeRvbm1 b = .ok m ↔ (validateRvbm1Contract m = .ok () ∧ m.Whole) ∧ b = m.layout := by
  have hschema : Word 2 rvbm1Schema := by decide
  have hzero : Word 1 0 := by decide
  unfold decodeRvbm1
  constructor
  · intro h
    simp only [bind_ok, orRaise_ok, pure_ok, expectMagic_ok (show rvbm1Magic.length = 8 from rfl),
      rejectTrailing_ok, Prod.exists] at h
    obtain ⟨-, hmagic, schema, r, hread, -, rfl, needs, r₁, hread₁, zero, r₂, hread₂, -, rfl, oracleLen,
      r₃, hread₃, oracle, r₄, hread₄, aadLen, r₅, hread₅, aad, r₆, hread₆, mode, r₇, hread₇, bodyLen, r₈,
      hread₈, body, r₉, hread₉, ct, r₀, hread₀, -, rfl, ⟨⟩, hvalid, rfl⟩ := h
    obtain ⟨-, hread⟩ := (readWord_reads 2).split hread
    obtain ⟨hneeds, rfl⟩ := readU8_reads.split hread₁
    obtain ⟨-, rfl⟩ := readU8_reads.split hread₂
    obtain ⟨-, rfl⟩ := (readWord_reads 2).split hread₃
    obtain ⟨horacle, rfl⟩ := (readBytes_reads 32).split hread₄
    obtain ⟨-, rfl⟩ := (readWord_reads 2).split hread₅
    obtain ⟨haad, rfl⟩ := (readBytes_reads aadLen).split hread₆
    obtain ⟨-, rfl⟩ := readU8_reads.split hread₇
    obtain ⟨-, rfl⟩ := (readWord_reads 4).split hread₈
    obtain ⟨hbody, rfl⟩ := (readBytes_reads bodyLen).split hread₉
    obtain ⟨⟨hsome, -⟩, rfl⟩ := (readExpectedCt_reads needs mode).split hread₀
    refine ⟨⟨hvalid, hneeds.1, ?_⟩, ?_⟩
    · exact_mod_cast horacle
    · rw [hmagic, hread]
      simp only [Rvbm1.layout, haad, hbody, section_layout hsome, List.append_nil]
  · rintro ⟨⟨hvalid, hwhole⟩, rfl⟩
    obtain ⟨hneeds, horacle, -, haad, hmode, hbody, -, -, -⟩ := rvbm1_contract hvalid
    have hneeds' : Word 1 m.needsAead := ⟨hwhole.1, by omega⟩
    have horacle' : Word 2 m.ecMkOracleLen := by
      rcases horacle with h | h <;> rw [h] <;> decide
    have haad' : Word 2 m.aad.length := word_natCast (by simp only [rvba1Len] at haad; omega)
    have hbody' : Word 4 m.body.length :=
      word_natCast (by simp only [braidMaxAeadCiphertextBytes] at hbody; omega)
    have hmode' : Word 1 m.mode := by
      rcases hmode with h | h <;> rw [h] <;> decide
    have hsection := Rvbm1.section_of hvalid hwhole
    have hkey : ((m.ecMkOracle.length : Nat) : Int) = 32 := by
      rw [hwhole.2]
      rfl
    unfold Rvbm1.layout
    rw [section_layout hsection.1, expectMagic_append rfl,
      List.drop_left' (show rvbm1Magic.length = 8 from rfl),
      show sectionOf m.expectedCt = sectionOf m.expectedCt ++ [] from (List.append_nil _).symm]
    simp only [ok_bind, (readWord_reads 2).append hschema, orRaise_pos, readU8_reads.append hneeds',
      readU8_reads.append hzero, (readWord_reads 2).append horacle', (readBytes_reads 32).append hkey,
      (readWord_reads 2).append haad', (readBytes_reads (m.aad.length : Int)).append rfl,
      readU8_reads.append hmode', (readWord_reads 4).append hbody',
      (readBytes_reads (m.body.length : Int)).append rfl,
      (readExpectedCt_reads m.needsAead m.mode).append hsection, rejectTrailing, hvalid]
    rfl

/-! ## RVBC1 -/

def Rvbc1.layout (c : Rvbc1) : Bytes :=
  rvbc1Magic ++ (word 8 c.epoch ++ (u8 c.chunkType ++ (word 4 c.index ++ (word 2 c.payload.length ++
    (c.payload ++ c.binding)))))

/-- The fields have the sizes of the layout. -/
structure Rvbc1.Sized (c : Rvbc1) : Prop where
  epoch : Word 8 c.epoch
  index : Word 4 c.index
  payload : c.payload.length ≤ rvbc1MaxPayload
  binding : c.binding.length = 32

theorem Rvbc1.Sized.payloadLen {c : Rvbc1} (h : c.Sized) : Word 2 c.payload.length := by
  apply word_natCast
  have hpayload := h.payload
  simp only [rvbc1MaxPayload, rvbc1MaxLen, rvbc1HeaderLen] at hpayload
  omega

theorem Rvbc1.layout_length {c : Rvbc1} (h : c.binding.length = 32) :
    c.layout.length = c.encodedLen := by
  simp only [Rvbc1.layout, List.length_append, word_length, u8_length, h, Rvbc1.encodedLen,
    rvbc1HeaderLen]
  simp only [rvbc1Magic, List.length_cons, List.length_nil]
  omega

theorem Rvbc1.encodedLen_range {c : Rvbc1} (h : c.payload.length ≤ rvbc1MaxPayload) :
    rvbc1MinLen ≤ c.encodedLen ∧ c.encodedLen ≤ rvbc1MaxLen := by
  simp only [rvbc1MaxPayload, rvbc1MaxLen, rvbc1MinLen, rvbc1HeaderLen, Rvbc1.encodedLen] at *
  omega

theorem encodeRvbc1_ok {c : Rvbc1} {b : Bytes} : encodeRvbc1 c = .ok b ↔ c.Sized ∧ b = c.layout := by
  unfold encodeRvbc1
  simp only [bind_ok, orRaise_ok, toBytes_ok, pure_ok]
  constructor
  · rintro ⟨-, hpayload, -, -, -, hbinding, _, ⟨hepoch, rfl⟩, _, ⟨hindex, rfl⟩, _, ⟨-, rfl⟩, rfl⟩
    exact ⟨⟨hepoch, hindex, hpayload, hbinding⟩, rfl⟩
  · rintro ⟨h, rfl⟩
    exact ⟨(), h.payload, (), Rvbc1.encodedLen_range h.payload, (), h.binding, _, ⟨h.epoch, rfl⟩, _,
      ⟨h.index, rfl⟩, _, ⟨h.payloadLen, rfl⟩, rfl⟩

theorem decodeRvbc1_ok {c : Rvbc1} {b : Bytes} :
    decodeRvbc1 b = .ok c ↔ (c.Sized ∧ Word 1 c.chunkType) ∧ b = c.layout := by
  unfold decodeRvbc1
  constructor
  · intro h
    simp only [bind_ok, orRaise_ok, pure_ok, expectMagic_ok (show rvbc1Magic.length = 8 from rfl),
      rejectTrailing_ok, Prod.exists] at h
    obtain ⟨-, ⟨-, hlength⟩, -, hmagic, epoch, r, hread, chunkType, r₁, hread₁, index, r₂, hread₂, plen, r₃,
      hread₃, payload, r₄, hread₄, binding, r₅, hread₅, -, rfl, rfl⟩ := h
    obtain ⟨hepoch, hread⟩ := (readWord_reads 8).split hread
    obtain ⟨htype, rfl⟩ := readU8_reads.split hread₁
    obtain ⟨hindex, rfl⟩ := (readWord_reads 4).split hread₂
    obtain ⟨-, rfl⟩ := (readWord_reads 2).split hread₃
    obtain ⟨hpayload, rfl⟩ := (readBytes_reads plen).split hread₄
    obtain ⟨hbinding, rfl⟩ := readArray32_reads.split hread₅
    have hlayout : b = (Rvbc1.mk epoch chunkType index payload binding).layout := by
      rw [hmagic, hread]
      simp only [Rvbc1.layout, hpayload, List.append_nil]
    refine ⟨⟨⟨hepoch, hindex, ?_, hbinding⟩, htype⟩, hlayout⟩
    rw [hlayout, Rvbc1.layout_length hbinding] at hlength
    simp only [Rvbc1.encodedLen, rvbc1MaxPayload, rvbc1MaxLen, rvbc1HeaderLen] at *
    omega
  · rintro ⟨⟨h, htype⟩, rfl⟩
    rw [orRaise_pos (by
      rw [Rvbc1.layout_length h.binding]
      exact Rvbc1.encodedLen_range h.payload)]
    unfold Rvbc1.layout
    rw [expectMagic_append rfl, List.drop_left' (show rvbc1Magic.length = 8 from rfl),
      show c.payload ++ c.binding = c.payload ++ (c.binding ++ []) by rw [List.append_nil]]
    simp only [ok_bind, (readWord_reads 8).append h.epoch, readU8_reads.append htype,
      (readWord_reads 4).append h.index, (readWord_reads 2).append h.payloadLen,
      (readBytes_reads (c.payload.length : Int)).append rfl, readArray32_reads.append h.binding,
      rejectTrailing, orRaise_pos]
    rfl

/-! ## RVBI1 -/

def presentLayout {α : Type} (enc : α → Bytes) : Option α → Bytes
  | none => u8 0 ++ u8 0
  | some a => u8 1 ++ (u8 0 ++ enc a)

theorem encodePresent_ok {α : Type} {encode : α → Except PyExc Bytes} {D : α → Prop} {enc : α → Bytes}
    (h : ∀ a b, encode a = .ok b ↔ D a ∧ b = enc a) {o : Option α} {b : Bytes} :
    encodePresent encode o = .ok b ↔ (∀ a, o = some a → D a) ∧ b = presentLayout enc o := by
  cases o with
  | none => simp [encodePresent, presentLayout, eq_comm]
  | some a =>
    simp only [encodePresent, presentLayout, bind_ok, pure_ok, h]
    constructor
    · rintro ⟨_, ⟨ha, rfl⟩, rfl⟩
      exact ⟨fun a' ha' => Option.some.inj ha' ▸ ha, rfl⟩
    · rintro ⟨ha, rfl⟩
      exact ⟨_, ⟨ha a rfl, rfl⟩, rfl⟩

theorem readPresent_reads {α : Type} {D : α → Prop} {enc : α → Bytes}
    {read : Bytes → Except PyExc (α × Bytes)} (h : Reads D enc read) (reserved flag : PyStr) :
    Reads (fun o : Option α => ∀ a, o = some a → D a) (presentLayout enc)
      (readPresent read reserved flag) := by
  have hzero : Word 1 0 := by decide
  have hone : Word 1 1 := by decide
  intro r o rest
  unfold readPresent
  constructor
  · intro hread
    simp only [bind_ok, orRaise_ok, Prod.exists] at hread
    obtain ⟨present, r₁, hread₁, zero, r₂, hread₂, -, rfl, hread⟩ := hread
    obtain ⟨-, rfl⟩ := readU8_reads.split hread₁
    obtain ⟨-, rfl⟩ := readU8_reads.split hread₂
    split at hread
    · rename_i hpresent
      simp only [bind_ok, pure_ok, Prod.exists, Prod.mk.injEq] at hread
      obtain ⟨a, r₃, hread₃, rfl, rfl⟩ := hread
      obtain ⟨ha, rfl⟩ := h.split hread₃
      refine ⟨fun a' ha' => Option.some.inj ha' ▸ ha, ?_⟩
      simp only [presentLayout, hpresent, List.append_assoc]
    · split at hread
      · rename_i hpresent
        cases hread
        refine ⟨by simp, ?_⟩
        simp only [presentLayout, hpresent, List.append_assoc]
      · cases hread
  · rintro ⟨ho, rfl⟩
    cases o with
    | none =>
      simp only [presentLayout, List.append_assoc]
      simp only [ok_bind, readU8_reads.append hzero, orRaise_pos]
      rfl
    | some a =>
      simp only [presentLayout, List.append_assoc]
      simp only [ok_bind, readU8_reads.append hone, readU8_reads.append hzero, orRaise_pos, if_true,
        h.append (ho a rfl)]
      rfl

theorem readRvch1_reads :
    Reads (fun v : Rvch1 => v.Sized ∧ Word 1 v.direction) Rvch1.layout readRvch1 := by
  intro r v rest
  unfold readRvch1
  simp only [bind_ok, pure_ok, Prod.exists, Prod.mk.injEq]
  constructor
  · rintro ⟨bytes, r', hread, _, hdecode, rfl, rfl⟩
    obtain ⟨hv, rfl⟩ := decodeRvch1_ok.mp hdecode
    exact ⟨hv, ((readBytes_reads _).split hread).2⟩
  · rintro ⟨hv, rfl⟩
    have hlength : ((v.layout.length : Nat) : Int) = rvch1Len := by rw [hv.1.layout_length]
    exact ⟨_, _, (readBytes_reads _).append hlength rest, v, decodeRvch1_ok.mpr ⟨hv, rfl⟩, rfl, rfl⟩

theorem encodeDigest_ok (digest b : Bytes) :
    encodeDigest digest = .ok b ↔ digest.length = 32 ∧ b = digest := by
  unfold encodeDigest
  simp only [bind_ok, orRaise_ok, pure_ok]
  constructor
  · rintro ⟨-, hlength, rfl⟩
    exact ⟨hlength, rfl⟩
  · rintro ⟨hlength, rfl⟩
    exact ⟨(), hlength, rfl⟩

/-- The frame is a chunk. -/
def IsChunk (frame : Bytes) : Prop := ∃ c, decodeRvbc1 frame = .ok c

theorem IsChunk.length {frame : Bytes} (h : IsChunk frame) :
    rvbc1MinLen ≤ frame.length ∧ frame.length ≤ rvbc1MaxLen := by
  obtain ⟨c, hc⟩ := h
  unfold decodeRvbc1 at hc
  rw [bind_ok] at hc
  obtain ⟨⟨⟩, hlength, -⟩ := hc
  exact orRaise_ok.mp hlength

theorem IsChunk.word {frame : Bytes} (h : IsChunk frame) : Word 4 frame.length := by
  apply word_natCast
  have hlength := h.length.2
  simp only [rvbc1MaxLen] at hlength
  omega

theorem readFrame_reads (op : Int) :
    Reads (fun f : Option Bytes => (f.isSome = true ↔ op = opReceive) ∧ ∀ bytes, f = some bytes → IsChunk bytes)
      sectionOf (readFrame op) := by
  intro r f rest
  unfold readFrame
  split
  · rename_i hop
    simp only [bind_ok, orRaise_ok, pure_ok, Prod.exists, Prod.mk.injEq]
    constructor
    · rintro ⟨n, r', hlength, -, -, -, -, bytes, r'', hbytes, c, hchunk, rfl, rfl⟩
      obtain ⟨-, rfl⟩ := (readWord_reads 4).split hlength
      obtain ⟨rfl, rfl⟩ := (readBytes_reads n).split hbytes
      refine ⟨⟨by simp [hop], ?_⟩, by simp [sectionOf]⟩
      intro bytes' hsome
      cases hsome
      exact ⟨c, hchunk⟩
    · rintro ⟨⟨hsome, hchunk⟩, rfl⟩
      obtain ⟨bytes, rfl⟩ := Option.isSome_iff_exists.mp (hsome.mpr hop)
      have hframe := hchunk bytes rfl
      obtain ⟨c, hc⟩ := hchunk bytes rfl
      obtain ⟨hmin, hmax⟩ := hframe.length
      have hpos : ((bytes.length : Nat) : Int) ≠ 0 := by
        simp only [rvbc1MinLen] at hmin
        omega
      refine ⟨_, _, ?_, (), hpos, (), ⟨by exact_mod_cast hmin, by exact_mod_cast hmax⟩, bytes, rest,
        (readBytes_reads _).append rfl rest, c, hc, rfl, rfl⟩
      rw [sectionOf, List.append_assoc]
      exact (readWord_reads 4).append hframe.word _
  · rename_i hop
    constructor
    · intro h
      cases h
      exact ⟨⟨by simp [hop], by simp⟩, rfl⟩
    · rintro ⟨⟨hsome, -⟩, rfl⟩
      cases f with
      | none => rfl
      | some bytes => exact absurd (hsome.mp rfl) hop

def Rvbi1.layout (inp : Rvbi1) : Bytes :=
  rvbi1Magic ++ (word 2 rvbi1Schema ++ (u8 inp.op ++ (u8 inp.direction ++ (word 2 0 ++
    (presentLayout Rvch1.layout inp.ch ++ (presentLayout Rvch1.layout inp.expectedCh ++
    (presentLayout (fun digest => digest) inp.objectDigest ++
    ((if inp.op = opReceive then sectionOf inp.frame else []) ++ inp.mutation.layout))))))))

/-- What the encoder and the decoder both look at. -/
structure Rvbi1.Sized (inp : Rvbi1) : Prop where
  contract : validateRvbi1Contract inp = .ok ()
  ch : ∀ ch, inp.ch = some ch → ch.Sized
  expectedCh : ∀ ch, inp.expectedCh = some ch → ch.Sized
  objectDigest : ∀ digest, inp.objectDigest = some digest → digest.length = 32
  frame : inp.op = opReceive → ∀ frame, inp.frame = some frame → IsChunk frame
  mutation : validateRvbm1Contract inp.mutation = .ok ()

/-- The headers go one of the two ways. -/
def Rvbi1.Directed (inp : Rvbi1) : Prop :=
  (∀ ch, inp.ch = some ch → ch.direction = 0 ∨ ch.direction = 1) ∧
  ∀ ch, inp.expectedCh = some ch → ch.direction = 0 ∨ ch.direction = 1

/-- The fields that only the decoder has in their sizes. -/
structure Rvbi1.Whole (inp : Rvbi1) : Prop where
  op : 0 ≤ inp.op
  direction : Word 1 inp.direction
  mutation : inp.mutation.Whole

theorem rvbi1_contract {inp : Rvbi1} (h : validateRvbi1Contract inp = .ok ()) :
    inp.op ≤ opReceive ∧ (inp.op = opSend → inp.frame = none) ∧
      (inp.op = opReceive → inp.frame.isSome = true) := by
  unfold validateRvbi1Contract at h
  simp only [bind_ok, orRaise_ok] at h
  obtain ⟨-, hop, h⟩ := h
  split at h
  · rename_i hsend
    rw [orRaise_ok] at h
    refine ⟨hop, fun _ => h.2.2.2, fun hreceive => ?_⟩
    rw [hsend] at hreceive
    cases hreceive
  · rename_i hsend
    refine ⟨hop, fun hs => absurd hs hsend, fun hreceive => ?_⟩
    rw [if_pos hreceive] at h
    simp only [bind_ok, orRaise_ok] at h
    obtain ⟨-, hframe, -⟩ := h
    exact Option.isSome_iff_ne_none.mpr hframe

theorem encodeFrame_ok {inp : Rvbi1} {b : Bytes} : encodeFrame inp = .ok b ↔
    (inp.op = opReceive → ∀ frame, inp.frame = some frame → IsChunk frame) ∧
    b = if inp.op = opReceive then sectionOf inp.frame else [] := by
  unfold encodeFrame
  cases hframe : inp.frame with
  | none => simp [sectionOf, eq_comm]
  | some frame =>
    simp only
    split
    · rename_i hop
      simp only [bind_ok, toBytes_ok, pure_ok, sectionOf, Option.some.injEq, forall_eq']
      constructor
      · rintro ⟨c, hc, _, ⟨-, rfl⟩, rfl⟩
        exact ⟨fun _ => ⟨c, hc⟩, rfl⟩
      · rintro ⟨hchunk, rfl⟩
        obtain ⟨c, hc⟩ := hchunk hop
        exact ⟨c, hc, _, ⟨(hchunk hop).word, rfl⟩, rfl⟩
    · rename_i hop
      simp [hop, eq_comm]

theorem encodeRvbi1_ok {inp : Rvbi1} {b : Bytes} :
    encodeRvbi1 inp = .ok b ↔ (inp.Sized ∧ inp.Directed) ∧ b = inp.layout := by
  have hschema : Word 2 rvbi1Schema := by decide
  have hzero : Word 2 0 := by decide
  have hheader := fun a c => @encodeRvch1_ok a c
  unfold encodeRvbi1
  simp only [bind_ok, toBytes_ok, pure_ok, encodePresent_ok hheader, encodePresent_ok encodeDigest_ok,
    encodeFrame_ok, encodeRvbm1_ok]
  constructor
  · rintro ⟨⟨⟩, hvalid, _, ⟨-, rfl⟩, _, ⟨-, rfl⟩, _, ⟨hch, rfl⟩, _, ⟨hexpected, rfl⟩, _,
      ⟨hdigest, rfl⟩, _, ⟨hframe, rfl⟩, _, ⟨hmutation, rfl⟩, rfl⟩
    exact ⟨⟨⟨hvalid, fun ch h => (hch ch h).1, fun ch h => (hexpected ch h).1, hdigest, hframe,
      hmutation⟩, fun ch h => (hch ch h).2, fun ch h => (hexpected ch h).2⟩, rfl⟩
  · rintro ⟨⟨h, hch, hexpected⟩, rfl⟩
    exact ⟨(), h.contract, _, ⟨hschema, rfl⟩, _, ⟨hzero, rfl⟩, _,
      ⟨fun ch hsome => ⟨h.ch ch hsome, hch ch hsome⟩, rfl⟩, _,
      ⟨fun ch hsome => ⟨h.expectedCh ch hsome, hexpected ch hsome⟩, rfl⟩, _, ⟨h.objectDigest, rfl⟩, _,
      ⟨h.frame, rfl⟩, _, ⟨h.mutation, rfl⟩, rfl⟩

/-- The directions that a decoded header can have. -/
def Rvbi1.ByteDirected (inp : Rvbi1) : Prop :=
  (∀ ch, inp.ch = some ch → Word 1 ch.direction) ∧
  ∀ ch, inp.expectedCh = some ch → Word 1 ch.direction

theorem decodeRvbi1_ok {inp : Rvbi1} {b : Bytes} :
    decodeRvbi1 b = .ok inp ↔ (inp.Sized ∧ inp.Whole ∧ inp.ByteDirected) ∧ b = inp.layout := by
  have hschema : Word 2 rvbi1Schema := by decide
  have hzero : Word 2 0 := by decide
  unfold decodeRvbi1
  constructor
  · intro h
    simp only [bind_ok, orRaise_ok, pure_ok, expectMagic_ok (show rvbi1Magic.length = 8 from rfl),
      Prod.exists, decodeRvbm1_ok] at h
    obtain ⟨-, hmagic, schema, r, hread, -, rfl, op, r₁, hread₁, direction, r₂, hread₂, zero, r₃, hread₃, -,
      rfl, ch, r₄, hread₄, expectedCh, r₅, hread₅, digest, r₆, hread₆, frame, r₇, hread₇, mutation,
      ⟨⟨hmutation, hwhole⟩, rfl⟩, -, -, -, -, ⟨⟩, hvalid, rfl⟩ := h
    obtain ⟨-, hread⟩ := (readWord_reads 2).split hread
    obtain ⟨hop, rfl⟩ := readU8_reads.split hread₁
    obtain ⟨hdirection, rfl⟩ := readU8_reads.split hread₂
    obtain ⟨-, rfl⟩ := (readWord_reads 2).split hread₃
    obtain ⟨hch, rfl⟩ := (readPresent_reads readRvch1_reads _ _).split hread₄
    obtain ⟨hexpected, rfl⟩ := (readPresent_reads readRvch1_reads _ _).split hread₅
    obtain ⟨hdigest, rfl⟩ := (readPresent_reads readArray32_reads _ _).split hread₆
    obtain ⟨⟨hsome, hframe⟩, rfl⟩ := (readFrame_reads op).split hread₇
    refine ⟨⟨⟨hvalid, fun c h => (hch c h).1, fun c h => (hexpected c h).1, hdigest, fun _ => hframe,
      hmutation⟩, ⟨hop.1, hdirection, hwhole⟩, fun c h => (hch c h).2, fun c h => (hexpected c h).2⟩, ?_⟩
    have hsection : (if op = opReceive then sectionOf frame else []) = sectionOf frame := by
      split
      · rfl
      · rename_i hne
        cases frame with
        | none => rfl
        | some bytes => exact absurd (hsome.mp rfl) hne
    rw [hmagic, hread]
    simp only [Rvbi1.layout, hsection]
  · rintro ⟨⟨h, hwhole, hch, hexpected⟩, rfl⟩
    obtain ⟨hle, hsend, hreceive⟩ := rvbi1_contract h.contract
    have hop : Word 1 inp.op := by
      refine ⟨hwhole.op, ?_⟩
      simp only [opReceive] at hle
      omega
    have hframe : (inp.frame.isSome = true ↔ inp.op = opReceive) ∧
        ∀ bytes, inp.frame = some bytes → IsChunk bytes := by
      have hlow := hwhole.op
      simp only [opReceive, opSend] at *
      by_cases hzero : inp.op = 0
      · have hnone := hsend hzero
        refine ⟨by simp [hnone, hzero], fun bytes hsome => ?_⟩
        rw [hnone] at hsome
        cases hsome
      · have hone : inp.op = 1 := by omega
        exact ⟨iff_of_true (hreceive hone) hone, h.frame hone⟩
    have hsection : (if inp.op = opReceive then sectionOf inp.frame else []) = sectionOf inp.frame := by
      split
      · rfl
      · rename_i hne
        cases hf : inp.frame with
        | none => rfl
        | some bytes => exact absurd (hframe.1.mp (by rw [hf]; rfl)) hne
    have hheader : ∀ ch, inp.ch = some ch → ch.Sized ∧ Word 1 ch.direction :=
      fun ch hsome => ⟨h.ch ch hsome, hch ch hsome⟩
    have hheader' : ∀ ch, inp.expectedCh = some ch → ch.Sized ∧ Word 1 ch.direction :=
      fun ch hsome => ⟨h.expectedCh ch hsome, hexpected ch hsome⟩
    have hdecode : decodeRvbm1 inp.mutation.layout = .ok inp.mutation :=
      decodeRvbm1_ok.mpr ⟨⟨h.mutation, hwhole.mutation⟩, rfl⟩
    have hencode : encodeRvbm1 inp.mutation = .ok inp.mutation.layout :=
      encodeRvbm1_ok.mpr ⟨h.mutation, rfl⟩
    unfold Rvbi1.layout
    rw [hsection, expectMagic_append rfl, List.drop_left' (show rvbi1Magic.length = 8 from rfl)]
    simp only [ok_bind, (readWord_reads 2).append hschema, (readWord_reads 2).append hzero, orRaise_pos,
      readU8_reads.append hop, readU8_reads.append hwhole.direction,
      (readPresent_reads readRvch1_reads _ _).append hheader,
      (readPresent_reads readRvch1_reads _ _).append hheader',
      (readPresent_reads readArray32_reads _ _).append h.objectDigest,
      (readFrame_reads inp.op).append hframe, hdecode, hencode, h.contract]
    rfl

/-! ## RVBE1 -/

def sizedLayout (bytes : Bytes) : Bytes := word 2 bytes.length ++ bytes

theorem encodeSized_ok {bytes b : Bytes} :
    encodeSized bytes = .ok b ↔ Word 2 bytes.length ∧ b = sizedLayout bytes := by
  unfold encodeSized
  simp only [bind_ok, toBytes_ok, pure_ok]
  constructor
  · rintro ⟨_, ⟨h, rfl⟩, rfl⟩
    exact ⟨h, rfl⟩
  · rintro ⟨h, rfl⟩
    exact ⟨_, ⟨h, rfl⟩, rfl⟩

theorem readSized_reads :
    Reads (fun bytes : Bytes => Word 2 bytes.length) sizedLayout readSized := by
  intro r bytes rest
  unfold readSized
  simp only [bind_ok, Prod.exists]
  constructor
  · rintro ⟨n, r', hlength, hread⟩
    obtain ⟨hword, rfl⟩ := (readWord_reads 2).split hlength
    obtain ⟨rfl, rfl⟩ := (readBytes_reads n).split hread
    exact ⟨hword, by rw [sizedLayout, List.append_assoc]⟩
  · rintro ⟨hword, rfl⟩
    refine ⟨_, _, ?_, (readBytes_reads _).append rfl rest⟩
    rw [sizedLayout, List.append_assoc]
    exact (readWord_reads 2).append hword _

def AdmittedTrustEvidence.bytes (t : AdmittedTrustEvidence) : Bytes :=
  t.initiatorCertDigest ++ (t.initiatorIdentityPub ++ (t.responderCertDigest ++ t.responderIdentityPub))

/-- Every part has the length at which the decoder cuts. -/
structure AdmittedTrustEvidence.Whole (t : AdmittedTrustEvidence) : Prop where
  initiatorCertDigest : t.initiatorCertDigest.length = 32
  initiatorIdentityPub : t.initiatorIdentityPub.length = 32
  responderCertDigest : t.responderCertDigest.length = 32
  responderIdentityPub : t.responderIdentityPub.length = 32

theorem AdmittedTrustEvidence.Whole.length {t : AdmittedTrustEvidence} (h : t.Whole) :
    t.bytes.length = admittedTrustLen := by
  simp [AdmittedTrustEvidence.bytes, h.initiatorCertDigest, h.initiatorIdentityPub,
    h.responderCertDigest, h.responderIdentityPub, admittedTrustLen]

def trustLayout : Option AdmittedTrustEvidence → Bytes
  | none => word 2 0
  | some t => sizedLayout t.bytes

theorem encodeTrust_ok {o : Option AdmittedTrustEvidence} {b : Bytes} : encodeTrust o = .ok b ↔
    (∀ t, o = some t → t.bytes.length = admittedTrustLen) ∧ b = trustLayout o := by
  cases o with
  | none =>
    have hzero : Word 2 0 := by decide
    simp only [encodeTrust, toBytes_ok, trustLayout]
    exact ⟨fun h => ⟨by simp, h.2⟩, fun h => ⟨hzero, h.2⟩⟩
  | some t =>
    simp only [encodeTrust, AdmittedTrustEvidence.encode, bind_ok, orRaise_ok, pure_ok, encodeSized_ok,
      trustLayout]
    constructor
    · rintro ⟨_, ⟨-, hlength, rfl⟩, -, rfl⟩
      refine ⟨fun t' ht' => ?_, rfl⟩
      cases ht'
      exact hlength
    · rintro ⟨hlength, rfl⟩
      have h := hlength t rfl
      have hword : Word 2 t.bytes.length := by
        rw [h]
        decide
      exact ⟨t.bytes, ⟨(), h, rfl⟩, hword, rfl⟩

theorem readTrust_reads :
    Reads (fun o : Option AdmittedTrustEvidence => ∀ t, o = some t → t.Whole) trustLayout readTrust := by
  have hzero : Word 2 0 := by decide
  have hfull : Word 2 admittedTrustLen := by decide
  intro r o rest
  unfold readTrust
  constructor
  · intro hread
    simp only [bind_ok, Prod.exists] at hread
    obtain ⟨n, r', hlength, hread⟩ := hread
    obtain ⟨-, rfl⟩ := (readWord_reads 2).split hlength
    split at hread
    · rename_i hn
      cases hread
      exact ⟨by simp, by rw [hn]; rfl⟩
    · split at hread
      · rename_i hn
        simp only [bind_ok, pure_ok, Prod.exists, Prod.mk.injEq] at hread
        obtain ⟨raw, r'', hraw, rfl, rfl⟩ := hread
        obtain ⟨hsize, rfl⟩ := (readBytes_reads _).split hraw
        have hsize' : raw.length = 128 := by exact_mod_cast hsize
        refine ⟨?_, ?_⟩
        · intro t ht
          cases ht
          constructor <;> simp only [List.length_take, List.length_drop] <;> omega
        · have hwhole : raw.take 32 ++ ((raw.drop 32).take 32 ++ ((raw.drop 64).take 32 ++
              (raw.drop 96).take 32)) = raw := by
            have hlast : (raw.drop 96).take 32 = raw.drop 96 :=
              List.take_of_length_le (by rw [List.length_drop]; omega)
            have hthird : (raw.drop 64).take 32 ++ raw.drop 96 = raw.drop 64 := by
              rw [show raw.drop 96 = (raw.drop 64).drop 32 by rw [List.drop_drop], List.take_append_drop]
            have hsecond : (raw.drop 32).take 32 ++ raw.drop 64 = raw.drop 32 := by
              rw [show raw.drop 64 = (raw.drop 32).drop 32 by rw [List.drop_drop], List.take_append_drop]
            rw [hlast, hthird, hsecond, List.take_append_drop]
          simp only [trustLayout, sizedLayout, AdmittedTrustEvidence.bytes, hwhole, hsize', hn,
            List.append_assoc]
          rfl
      · cases hread
  · rintro ⟨ho, rfl⟩
    cases o with
    | none =>
      simp only [trustLayout, ok_bind, (readWord_reads 2).append hzero]
      rfl
    | some t =>
      have h := ho t rfl
      have hlength : ((t.bytes.length : Nat) : Int) = admittedTrustLen := by rw [h.length]
      have hne : ¬((admittedTrustLen : Nat) : Int) = 0 := by decide
      have h₁ : t.bytes.take 32 = t.initiatorCertDigest := List.take_left' h.initiatorCertDigest
      have h₂ : t.bytes.drop 32 = t.initiatorIdentityPub ++ (t.responderCertDigest ++
        t.responderIdentityPub) := List.drop_left' h.initiatorCertDigest
      have h₃ : t.bytes.drop 64 = t.responderCertDigest ++ t.responderIdentityPub := by
        rw [show t.bytes.drop 64 = (t.bytes.drop 32).drop 32 by rw [List.drop_drop], h₂,
          List.drop_left' h.initiatorIdentityPub]
      have h₄ : t.bytes.drop 96 = t.responderIdentityPub := by
        rw [show t.bytes.drop 96 = (t.bytes.drop 64).drop 32 by rw [List.drop_drop], h₃,
          List.drop_left' h.responderCertDigest]
      simp only [trustLayout, sizedLayout, List.append_assoc, hlength]
      simp only [ok_bind, (readWord_reads 2).append hfull, if_neg hne, if_true,
        (readBytes_reads _).append hlength, h₁, h₂, h₃, h₄, List.take_left' h.initiatorIdentityPub,
        List.take_left' h.responderCertDigest, List.take_of_length_le (Nat.le_of_eq h.responderIdentityPub)]
      rfl

def Rvbe1.layout (env : Rvbe1) : Bytes :=
  rvbe1Magic ++ (word 2 rvbe1Schema ++ (word 8 env.clock ++ (word 4 env.capPayload ++
    (word 4 env.capChunks ++ (word 4 env.capState ++ (word 4 env.capReplayEntries ++
    (word 4 env.capReplayBytes ++ (sizedLayout env.keygenSeed ++ (sizedLayout env.encapsCoins ++
    (sizedLayout env.ecDhSeed ++ (trustLayout env.admittedTrust ++ word 4 0)))))))))))

/-- What the encoder and the decoder both look at. -/
structure Rvbe1.Sized (env : Rvbe1) : Prop where
  caps : validateRvbe1Caps env = .ok ()
  clock : Word 8 env.clock
  capPayload : Word 4 env.capPayload
  capChunks : Word 4 env.capChunks
  capState : Word 4 env.capState
  capReplayEntries : Word 4 env.capReplayEntries
  capReplayBytes : Word 4 env.capReplayBytes

theorem Rvbe1.Sized.seeds {env : Rvbe1} (h : env.Sized) :
    Word 2 env.keygenSeed.length ∧ Word 2 env.encapsCoins.length ∧ Word 2 env.ecDhSeed.length := by
  have hcaps := h.caps
  unfold validateRvbe1Caps validateRvbe1SeedLens at hcaps
  simp only [bind_ok, orRaise_ok] at hcaps
  obtain ⟨-, -, -, -, -, -, -, -, -, -, -, hkeygen, -, hencaps, hdh⟩ := hcaps
  refine ⟨?_, ?_, ?_⟩
  · rcases hkeygen with h | h <;> rw [h] <;> decide
  · rcases hencaps with h | h <;> rw [h] <;> decide
  · rcases hdh with h | h <;> rw [h] <;> decide

theorem encodeRvbe1_ok {env : Rvbe1} {b : Bytes} : encodeRvbe1 env = .ok b ↔
    (env.Sized ∧ ∀ t, env.admittedTrust = some t → t.bytes.length = admittedTrustLen) ∧
      b = env.layout := by
  have hschema : Word 2 rvbe1Schema := by decide
  have hzero : Word 4 0 := by decide
  unfold encodeRvbe1
  simp only [bind_ok, toBytes_ok, pure_ok, encodeSized_ok, encodeTrust_ok]
  constructor
  · rintro ⟨⟨⟩, hcaps, _, ⟨-, rfl⟩, _, ⟨hclock, rfl⟩, _, ⟨hpayload, rfl⟩, _, ⟨hchunks, rfl⟩, _,
      ⟨hstate, rfl⟩, _, ⟨hentries, rfl⟩, _, ⟨hbytes, rfl⟩, _, ⟨-, rfl⟩, _, ⟨-, rfl⟩, _, ⟨-, rfl⟩, _,
      ⟨htrust, rfl⟩, _, ⟨-, rfl⟩, rfl⟩
    exact ⟨⟨⟨hcaps, hclock, hpayload, hchunks, hstate, hentries, hbytes⟩, htrust⟩, rfl⟩
  · rintro ⟨⟨h, htrust⟩, rfl⟩
    obtain ⟨hkeygen, hencaps, hdh⟩ := h.seeds
    exact ⟨(), h.caps, _, ⟨hschema, rfl⟩, _, ⟨h.clock, rfl⟩, _, ⟨h.capPayload, rfl⟩, _,
      ⟨h.capChunks, rfl⟩, _, ⟨h.capState, rfl⟩, _, ⟨h.capReplayEntries, rfl⟩, _, ⟨h.capReplayBytes, rfl⟩,
      _, ⟨hkeygen, rfl⟩, _, ⟨hencaps, rfl⟩, _, ⟨hdh, rfl⟩, _, ⟨htrust, rfl⟩, _, ⟨hzero, rfl⟩, rfl⟩

theorem decodeRvbe1_ok {env : Rvbe1} {b : Bytes} : decodeRvbe1 b = .ok env ↔
    (env.Sized ∧ ∀ t, env.admittedTrust = some t → t.Whole) ∧ b = env.layout := by
  have hschema : Word 2 rvbe1Schema := by decide
  have hzero : Word 4 0 := by decide
  unfold decodeRvbe1
  constructor
  · intro h
    simp only [bind_ok, orRaise_ok, pure_ok, expectMagic_ok (show rvbe1Magic.length = 8 from rfl),
      rejectTrailing_ok, Prod.exists] at h
    obtain ⟨-, hmagic, schema, r, hread, -, rfl, clock, r₁, hread₁, payload, r₂, hread₂, chunks, r₃, hread₃,
      state, r₄, hread₄, entries, r₅, hread₅, bytes, r₆, hread₆, keygen, r₇, hread₇, encaps, r₈, hread₈,
      dh, r₉, hread₉, trust, r₀, hread₀, tail, rend, hreadEnd, -, rfl, -, rfl, ⟨⟩, hcaps, rfl⟩ := h
    obtain ⟨-, hread⟩ := (readWord_reads 2).split hread
    obtain ⟨hclock, rfl⟩ := (readWord_reads 8).split hread₁
    obtain ⟨hpayload, rfl⟩ := (readWord_reads 4).split hread₂
    obtain ⟨hchunks, rfl⟩ := (readWord_reads 4).split hread₃
    obtain ⟨hstate, rfl⟩ := (readWord_reads 4).split hread₄
    obtain ⟨hentries, rfl⟩ := (readWord_reads 4).split hread₅
    obtain ⟨hbytes, rfl⟩ := (readWord_reads 4).split hread₆
    obtain ⟨-, rfl⟩ := readSized_reads.split hread₇
    obtain ⟨-, rfl⟩ := readSized_reads.split hread₈
    obtain ⟨-, rfl⟩ := readSized_reads.split hread₉
    obtain ⟨htrust, rfl⟩ := readTrust_reads.split hread₀
    obtain ⟨-, rfl⟩ := (readWord_reads 4).split hreadEnd
    refine ⟨⟨⟨hcaps, hclock, hpayload, hchunks, hstate, hentries, hbytes⟩, htrust⟩, ?_⟩
    rw [hmagic, hread]
    simp only [Rvbe1.layout, List.append_nil]
  · rintro ⟨⟨h, htrust⟩, rfl⟩
    obtain ⟨hkeygen, hencaps, hdh⟩ := h.seeds
    have hend : word 4 0 = word 4 0 ++ [] := (List.append_nil _).symm
    unfold Rvbe1.layout
    rw [hend, expectMagic_append rfl, List.drop_left' (show rvbe1Magic.length = 8 from rfl)]
    simp only [ok_bind, (readWord_reads 2).append hschema, orRaise_pos, (readWord_reads 8).append h.clock,
      (readWord_reads 4).append h.capPayload, (readWord_reads 4).append h.capChunks,
      (readWord_reads 4).append h.capState, (readWord_reads 4).append h.capReplayEntries,
      (readWord_reads 4).append h.capReplayBytes, readSized_reads.append hkeygen,
      readSized_reads.append hencaps, readSized_reads.append hdh, readTrust_reads.append htrust,
      (readWord_reads 4).append hzero, rejectTrailing, h.caps]
    rfl

end Rdap.Braid
