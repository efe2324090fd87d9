import Rdap.Braid.WireCodecs

/-!
# Where the wire codecs are canonical

The five codecs invert each other but for the fields that one side does not check: the
direction of a header is checked by its encoder alone, and single bytes, the oracle key and
the parts of the trust evidence by their decoders alone.
-/

set_option autoImplicit false

namespace Rdap.Braid
open Python Lib

def byteAt (b : Bytes) (i : Nat) : Nat := (b.getD i 0).toNat

theorem byteAt_split {x : UInt8} {pre rest : Bytes} {i : Nat} (h : pre.length = i) :
    byteAt (pre ++ (x :: rest)) i = x.toNat := by
  unfold byteAt
  rw [List.getD_eq_getElem?_getD, List.getElem?_append_right (by omega), h, Nat.sub_self]
  rfl

theorem byteAt_u8 {n : Int} (hn : Word 1 n) {pre : Bytes} (rest : Bytes) {i : Nat} (h : pre.length = i) :
    byteAt (pre ++ (u8 n ++ rest)) i = n.toNat := by
  obtain ⟨hlow, hhigh⟩ := hn
  rw [u8, List.singleton_append, byteAt_split h, UInt8.toNat_ofNat']
  omega

theorem byteAt_direction {v : Rvch1} (h : v.Sized) (hdirection : Word 1 v.direction) (pre rest : Bytes)
    {i : Nat} (hi : pre.length + 66 = i) : byteAt (pre ++ (v.layout ++ rest)) i = v.direction.toNat := by
  have hhead : (pre ++ (rvch1Magic ++ (word 2 rvch1Schema ++ (v.ecDhPub ++ (word 4 v.ecPn ++
      (word 4 v.ecN ++ (word 8 v.sckaEpoch ++ (word 4 v.sckaPn ++ word 4 v.sckaN)))))))).length = i := by
    simp only [List.length_append, word_length, h.ecDhPub]
    simp only [rvch1Magic, List.length_cons, List.length_nil]
    omega
  rw [← byteAt_u8 hdirection (u8 0 ++ rest) hhead]
  simp only [Rvch1.layout, List.append_assoc]

/-- The direction in an encoded header. -/
def HeaderDirected (b : Bytes) : Prop := byteAt b 66 ≤ 1

theorem headerDirected_iff {v : Rvch1} (h : v.Sized) (hdirection : Word 1 v.direction) :
    HeaderDirected v.layout ↔ v.direction = 0 ∨ v.direction = 1 := by
  have hbyte := byteAt_direction h hdirection [] [] (i := 66) rfl
  rw [List.nil_append, List.append_nil] at hbyte
  obtain ⟨hlow, -⟩ := hdirection
  rw [HeaderDirected, hbyte]
  omega

/-! ## The headers of an input -/

/-- Where the expected header of an encoded input starts. -/
def expectedStart (b : Bytes) : Nat := if byteAt b 14 = 1 then 84 else 16

/-- The headers that an encoded input holds go one of the two ways. -/
def HeadersDirected (b : Bytes) : Prop :=
  (byteAt b 14 = 1 → byteAt b 82 ≤ 1) ∧
  (byteAt b (expectedStart b) = 1 → byteAt b (expectedStart b + 68) ≤ 1)

/-- One optional header of an input, as its bytes and as its value. -/
theorem present_directed {o : Option Rvch1} (h : ∀ v, o = some v → v.Sized ∧ Word 1 v.direction)
    {pre : Bytes} (rest : Bytes) {i : Nat} (hi : pre.length = i) :
    (byteAt (pre ++ (presentLayout Rvch1.layout o ++ rest)) i = 1 ↔ o.isSome = true) ∧
    ((byteAt (pre ++ (presentLayout Rvch1.layout o ++ rest)) i = 1 →
        byteAt (pre ++ (presentLayout Rvch1.layout o ++ rest)) (i + 68) ≤ 1) ↔
      ∀ v, o = some v → v.direction = 0 ∨ v.direction = 1) := by
  cases o with
  | none =>
    have hflag : byteAt (pre ++ (presentLayout Rvch1.layout none ++ rest)) i = 0 := by
      simp only [presentLayout, List.append_assoc]
      rw [byteAt_u8 (by decide) _ hi]
      rfl
    rw [hflag]
    exact ⟨by simp, by simp⟩
  | some v =>
    obtain ⟨hv, hdirection⟩ := h v rfl
    have hflag : byteAt (pre ++ (presentLayout Rvch1.layout (some v) ++ rest)) i = 1 := by
      simp only [presentLayout, List.append_assoc]
      rw [byteAt_u8 (by decide) _ hi]
      rfl
    have hheader : byteAt (pre ++ (presentLayout Rvch1.layout (some v) ++ rest)) (i + 68) =
        v.direction.toNat := by
      have hhead : (pre ++ (u8 1 ++ u8 0)).length + 66 = i + 68 := by
        simp only [List.length_append, u8_length]
        omega
      rw [← byteAt_direction hv hdirection _ rest hhead]
      simp only [presentLayout, List.append_assoc]
    have hlow := hdirection.1
    rw [hflag, hheader]
    refine ⟨by simp, ?_⟩
    constructor
    · intro hle v' hv'
      cases hv'
      have hle' := hle rfl
      omega
    · intro hway _
      have hway' := hway v rfl
      omega

theorem presentLayout_length {o : Option Rvch1} (h : ∀ v, o = some v → v.Sized) :
    (presentLayout Rvch1.layout o).length = if o.isSome = true then 70 else 2 := by
  cases o with
  | none => rfl
  | some v => simp [presentLayout, (h v rfl).layout_length, rvch1Len]

theorem headersDirected_iff {inp : Rvbi1} (h : inp.Sized) (hbyte : inp.ByteDirected) :
    HeadersDirected inp.layout ↔ inp.Directed := by
  obtain ⟨pre, hpre⟩ : ∃ pre, pre = rvbi1Magic ++ (word 2 rvbi1Schema ++ (u8 inp.op ++
      (u8 inp.direction ++ word 2 0))) := ⟨_, rfl⟩
  obtain ⟨last, hlast⟩ : ∃ last, last = presentLayout (fun digest => digest) inp.objectDigest ++
      ((if inp.op = opReceive then sectionOf inp.frame else []) ++ inp.mutation.layout) := ⟨_, rfl⟩
  have hlength : pre.length = 14 := by
    rw [hpre]
    simp [rvbi1Magic]
  have hlayout : inp.layout = pre ++ (presentLayout Rvch1.layout inp.ch ++
      (presentLayout Rvch1.layout inp.expectedCh ++ last)) := by
    rw [hpre, hlast]
    simp only [Rvbi1.layout, List.append_assoc]
  have hchs : ∀ v, inp.ch = some v → v.Sized ∧ Word 1 v.direction :=
    fun v hv => ⟨h.ch v hv, hbyte.1 v hv⟩
  have hexpecteds : ∀ v, inp.expectedCh = some v → v.Sized ∧ Word 1 v.direction :=
    fun v hv => ⟨h.expectedCh v hv, hbyte.2 v hv⟩
  obtain ⟨hflag, hch⟩ :=
    present_directed hchs (presentLayout Rvch1.layout inp.expectedCh ++ last) hlength
  rw [← hlayout] at hflag hch
  have hstart : (pre ++ presentLayout Rvch1.layout inp.ch).length = expectedStart inp.layout := by
    rw [List.length_append, hlength, presentLayout_length h.ch, expectedStart]
    by_cases hsome : inp.ch.isSome = true
    · rw [if_pos hsome, if_pos (hflag.mpr hsome)]
    · rw [if_neg hsome, if_neg fun hone => hsome (hflag.mp hone)]
  obtain ⟨-, hexpected⟩ := present_directed hexpecteds last hstart
  have hlayout' : inp.layout = (pre ++ presentLayout Rvch1.layout inp.ch) ++
      (presentLayout Rvch1.layout inp.expectedCh ++ last) := by rw [hlayout, List.append_assoc]
  rw [← hlayout'] at hexpected
  exact and_congr hch hexpected

theorem Rvbi1.Directed.bytes {inp : Rvbi1} (h : inp.Directed) : inp.ByteDirected := by
  have hword : ∀ n : Int, n = 0 ∨ n = 1 → Word 1 n := by
    rintro n (rfl | rfl) <;> decide
  exact ⟨fun ch hch => hword _ (h.1 ch hch), fun ch hch => hword _ (h.2 ch hch)⟩

theorem wire_canonical_iff (b : Bytes) :
    (∀ v, decodeRvch1 b = .ok v → (encodeRvch1 v = .ok b ↔ HeaderDirected b)) ∧
    (∀ v, encodeRvch1 v = .ok b → decodeRvch1 b = .ok v) ∧
    (∀ m, decodeRvbm1 b = .ok m → encodeRvbm1 m = .ok b) ∧
    (∀ m, encodeRvbm1 m = .ok b → (decodeRvbm1 b = .ok m ↔ m.Whole)) ∧
    (∀ c, decodeRvbc1 b = .ok c → encodeRvbc1 c = .ok b) ∧
    (∀ c, encodeRvbc1 c = .ok b → (decodeRvbc1 b = .ok c ↔ Word 1 c.chunkType)) ∧
    (∀ inp, decodeRvbi1 b = .ok inp → (encodeRvbi1 inp = .ok b ↔ HeadersDirected b)) ∧
    (∀ inp, encodeRvbi1 inp = .ok b → (decodeRvbi1 b = .ok inp ↔ inp.Whole)) ∧
    (∀ env, decodeRvbe1 b = .ok env → encodeRvbe1 env = .ok b) ∧
    (∀ env, encodeRvbe1 env = .ok b →
      (decodeRvbe1 b = .ok env ↔ ∀ t, env.admittedTrust = some t → t.Whole)) := by
  refine ⟨?_, ?_, ?_, ?_, ?_, ?_, ?_, ?_, ?_, ?_⟩
  · intro v hdecode
    obtain ⟨⟨hsized, hdirection⟩, rfl⟩ := decodeRvch1_ok.mp hdecode
    rw [encodeRvch1_ok, headerDirected_iff hsized hdirection]
    exact ⟨fun h => h.1.2, fun h => ⟨⟨hsized, h⟩, rfl⟩⟩
  · intro v hencode
    obtain ⟨⟨hsized, hdirection⟩, rfl⟩ := encodeRvch1_ok.mp hencode
    apply decodeRvch1_ok.mpr
    refine ⟨⟨hsized, ?_⟩, rfl⟩
    rcases hdirection with h | h <;> rw [h] <;> decide
  · intro m hdecode
    obtain ⟨⟨hvalid, -⟩, rfl⟩ := decodeRvbm1_ok.mp hdecode
    exact encodeRvbm1_ok.mpr ⟨hvalid, rfl⟩
  · intro m hencode
    obtain ⟨hvalid, rfl⟩ := encodeRvbm1_ok.mp hencode
    rw [decodeRvbm1_ok]
    exact ⟨fun h => h.1.2, fun h => ⟨⟨hvalid, h⟩, rfl⟩⟩
  · intro c hdecode
    obtain ⟨⟨hsized, -⟩, rfl⟩ := decodeRvbc1_ok.mp hdecode
    exact encodeRvbc1_ok.mpr ⟨hsized, rfl⟩
  · intro c hencode
    obtain ⟨hsized, rfl⟩ := encodeRvbc1_ok.mp hencode
    rw [decodeRvbc1_ok]
    exact ⟨fun h => h.1.2, fun h => ⟨⟨hsized, h⟩, rfl⟩⟩
  · intro inp hdecode
    obtain ⟨⟨hsized, -, hbyte⟩, rfl⟩ := decodeRvbi1_ok.mp hdecode
    rw [encodeRvbi1_ok, headersDirected_iff hsized hbyte]
    exact ⟨fun h => h.1.2, fun h => ⟨⟨hsized, h⟩, rfl⟩⟩
  · intro inp hencode
    obtain ⟨⟨hsized, hdirected⟩, rfl⟩ := encodeRvbi1_ok.mp hencode
    rw [decodeRvbi1_ok]
    exact ⟨fun h => h.1.2.1, fun h => ⟨⟨hsized, h, hdirected.bytes⟩, rfl⟩⟩
  · intro env hdecode
    obtain ⟨⟨hsized, htrust⟩, rfl⟩ := decodeRvbe1_ok.mp hdecode
    exact encodeRvbe1_ok.mpr ⟨⟨hsized, fun t ht => (htrust t ht).length⟩, rfl⟩
  · intro env hencode
    obtain ⟨⟨hsized, -⟩, rfl⟩ := encodeRvbe1_ok.mp hencode
    rw [decodeRvbe1_ok]
    exact ⟨fun h => h.1.2, fun h => ⟨⟨hsized, h⟩, rfl⟩⟩

section Sample

/-- A chunk whose type has more than a byte. -/
def wideChunk : Rvbc1 := ⟨1, 256, 0, [], List.replicate 32 7⟩

/-- A header that goes neither way. -/
def strayHeader : Rvch1 := ⟨List.replicate 32 5, 0, 0, 1, 0, 0, 2⟩

/-- The type of the chunk comes back as another, and the header decodes but does not encode. -/
theorem codecs_not_canonical :
    encodeRvbc1 wideChunk = .ok wideChunk.layout ∧
    decodeRvbc1 wideChunk.layout = .ok { wideChunk with chunkType := 0 } ∧
    decodeRvch1 strayHeader.layout = .ok strayHeader ∧
    encodeRvch1 strayHeader = .error ⟨.valueError, lit "rvch1 direction"⟩ := by
  decide +kernel

end Sample

end Rdap.Braid
