import Rdap.Braid.StateCodecs
import Rdap.Braid.SystematicChunks

/-!
# Inbound sets

What `_validate_inbound_set` takes: the chunks are sorted by index and the bits that are set are their
indices. A new chunk keeps both, and a new set is put where its key belongs, so that an insertion does
nothing but add the chunk to the set of its key.
-/

set_option autoImplicit false

namespace Rdap.Braid
open Python Lib

/-! ## Sorted lists -/

theorem strictlySorted_ok {α : Type} {lt : α → α → Bool} {values : List α} {fieldName : PyStr} {u : Unit}
    (htrans : ∀ a b c, lt a b = true → lt b c = true → lt a c = true) :
    strictlySorted lt values fieldName = .ok u ↔ values.Pairwise fun a b => lt a b = true := by
  unfold strictlySorted
  rw [orRaise_ok]
  have : IsTrans α fun a b => lt a b = true := ⟨htrans⟩
  rw [← List.isChain_iff_pairwise]
  induction values with
  | nil => simp
  | cons a values ih =>
    cases values with
    | nil => simp
    | cons b values =>
      rw [List.isChain_cons_cons, List.tail_cons, List.zip_cons_cons, List.all_cons, Bool.and_eq_true]
      exact and_congr Iff.rfl ih

/-! ## Bits -/

/-- The bit of an index. -/
def bitAt (bitmap : Bytes) (i : Nat) : Bool := (bitmap.getD (i / 8) 0).toNat.testBit (i % 8)

theorem signedIndex_nat {xs : Bytes} {i : Nat} (h : i < xs.length) : signedIndex xs i = .ok (xs.getD i 0) := by
  unfold signedIndex atIndex
  rw [if_pos (Int.natCast_nonneg i), Int.toNat_natCast, List.getElem?_eq_getElem h, List.getD_eq_getElem?_getD,
    List.getElem?_eq_getElem h]
  rfl

theorem bitmapGet_nat {bitmap : Bytes} {i : Nat} (hbitmap : bitmap.length = 8) (hi : i < 64) :
    bitmapGet bitmap i = .ok (bitAt bitmap i) := by
  have hdiv : (i : Int) / 8 = (i / 8 : Nat) := by omega
  have hmod : ((i : Int) % 8).toNat = i % 8 := by omega
  unfold bitmapGet
  rw [hdiv, hmod, signedIndex_nat (by omega)]
  rfl

/-- The bitmap with one more bit. -/
theorem setBit_nat {bitmap : Bytes} {i : Nat} (hbitmap : bitmap.length = 8) (hi : i < 64) :
    ∃ next, setBit bitmap i = .ok next ∧ next.length = 8 ∧
      ∀ j < 64, bitAt next j = true ↔ bitAt bitmap j = true ∨ j = i := by
  have hdiv : (i : Int) / 8 = (i / 8 : Nat) := by omega
  have hmod : ((i : Int) % 8).toNat = i % 8 := by omega
  have hplace : i / 8 < bitmap.length := by omega
  refine ⟨bitmap.set (i / 8) (bitmap.getD (i / 8) 0 ||| UInt8.ofNat (1 <<< (i % 8))), ?_, ?_, ?_⟩
  · unfold setBit
    rw [hdiv, hmod, signedIndex_nat hplace, if_pos (Int.natCast_nonneg _), Int.toNat_natCast]
    rfl
  · rw [List.length_set, hbitmap]
  · intro j hj
    unfold bitAt
    by_cases hbyte : j / 8 = i / 8
    · have hget : (bitmap.set (i / 8) (bitmap.getD (i / 8) 0 ||| UInt8.ofNat (1 <<< (i % 8)))).getD (j / 8) 0 =
          bitmap.getD (i / 8) 0 ||| UInt8.ofNat (1 <<< (i % 8)) := by
        rw [hbyte, List.getD_eq_getElem?_getD, List.getElem?_set_self hplace]
        rfl
      have hsmall : 1 <<< (i % 8) < 256 := by
        have hlt : i % 8 < 8 := Nat.mod_lt _ (by decide)
        interval_cases i % 8 <;> decide
      rw [hget, UInt8.toNat_or, Nat.testBit_or, UInt8.toNat_ofNat', Nat.mod_eq_of_lt hsmall, Bool.or_eq_true,
        hbyte, Nat.one_shiftLeft, Nat.testBit_two_pow, decide_eq_true_eq]
      exact or_congr Iff.rfl ⟨fun h => by omega, fun h => by omega⟩
    · have hget : (bitmap.set (i / 8) (bitmap.getD (i / 8) 0 ||| UInt8.ofNat (1 <<< (i % 8)))).getD (j / 8) 0 =
          bitmap.getD (j / 8) 0 := by
        rw [List.getD_eq_getElem?_getD, List.getElem?_set_ne (fun h => hbyte h.symm), List.getD_eq_getElem?_getD]
      rw [hget]
      constructor
      · exact Or.inl
      · rintro (h | rfl)
        · exact h
        · exact absurd rfl hbyte

/-! ## Valid sets -/

/-- What `_validate_inbound_set` asks for. -/
structure InboundSet.Sound (inbound : InboundSet) : Prop where
  direction : inbound.direction = 0 ∨ inbound.direction = 1
  length : sourceLength inbound.sourceKind = some inbound.expectedSourceLen
  maxIndex : inbound.maxIndex = 63
  bitmap : inbound.bitmap.length = 8
  sorted : inbound.chunks.Pairwise fun a b => a.index < b.index
  chunk : ∀ c ∈ inbound.chunks, (0 ≤ c.index ∧ c.index ≤ 63) ∧ c.payload.length = 32
  bits : ∀ i < 64, bitAt inbound.bitmap i = true ↔ ∃ c ∈ inbound.chunks, c.index = (i : Int)

/-- The indices of the bits that are set. -/
def setBits (bitmap : Bytes) : List Nat := (List.range 64).filter (bitAt bitmap)

theorem countBits_ok {inbound : InboundSet} (hbitmap : inbound.bitmap.length = 8) {is : List Nat}
    (his : ∀ i ∈ is, i < 64) {count n : Nat} :
    countBits inbound is count = .ok n ↔
      (∀ i ∈ is, bitAt inbound.bitmap i = true → ∃ c ∈ inbound.chunks, c.index = (i : Int)) ∧
      n = count + (is.filter (bitAt inbound.bitmap)).length := by
  induction is generalizing count with
  | nil =>
    simp only [countBits, Except.ok.injEq, List.not_mem_nil, false_implies, implies_true, true_and, List.filter_nil,
      List.length_nil, Nat.add_zero]
    exact eq_comm
  | cons i is ih =>
    have hrest : ∀ j ∈ is, j < 64 := fun j hj => his j (List.mem_cons_of_mem i hj)
    unfold countBits
    rw [bitmapGet_nat hbitmap (his i List.mem_cons_self), List.forall_mem_cons]
    simp only [bind_ok, Except.ok.injEq, exists_eq_left']
    cases hbit : bitAt inbound.bitmap i with
    | false =>
      rw [if_neg Bool.false_ne_true, ih hrest, List.filter_cons_of_neg (by simp [hbit])]
      simp
    | true =>
      rw [if_pos rfl, bind_ok, List.filter_cons_of_pos hbit, List.length_cons]
      simp only [orRaise_ok, exists_const, ih hrest]
      constructor
      · rintro ⟨hchunk, hall, hn⟩
        exact ⟨⟨fun _ => hchunk, hall⟩, by omega⟩
      · rintro ⟨⟨hchunk, hall⟩, hn⟩
        exact ⟨hchunk trivial, hall, by omega⟩

theorem setBits_nodup (bitmap : Bytes) : ((setBits bitmap).map Int.ofNat).Nodup :=
  (List.nodup_range.filter _).map fun _ _ h => Int.ofNat.inj h

theorem mem_setBits {bitmap : Bytes} {i : Int} :
    i ∈ (setBits bitmap).map Int.ofNat ↔ ∃ n < 64, bitAt bitmap n = true ∧ (n : Int) = i := by
  simp only [setBits, List.mem_map, List.mem_filter, List.mem_range, and_assoc]
  rfl

theorem indices_nodup {chunks : List InboundChunk} (h : chunks.Pairwise fun a b => a.index < b.index) :
    (chunks.map InboundChunk.index).Nodup := by
  rw [List.Nodup, List.pairwise_map]
  exact h.imp fun hlt => by omega

/-- The indices of the chunks are the bits that are set. -/
theorem InboundSet.Sound.indices {inbound : InboundSet} (h : inbound.Sound) :
    (inbound.chunks.map InboundChunk.index).Perm ((setBits inbound.bitmap).map Int.ofNat) := by
  rw [List.perm_ext_iff_of_nodup (indices_nodup h.sorted) (setBits_nodup _)]
  intro i
  rw [mem_setBits, List.mem_map]
  constructor
  · rintro ⟨c, hc, rfl⟩
    obtain ⟨⟨hlow, hhigh⟩, -⟩ := h.chunk c hc
    refine ⟨c.index.toNat, by omega, (h.bits _ (by omega)).mpr ⟨c, hc, ?_⟩, ?_⟩
    · exact (Int.toNat_of_nonneg hlow).symm
    · exact Int.toNat_of_nonneg hlow
  · rintro ⟨n, hn, hbit, rfl⟩
    exact (h.bits n hn).mp hbit

theorem index_lt_trans (a b c : InboundChunk) (hab : decide (a.index < b.index) = true)
    (hbc : decide (b.index < c.index) = true) : decide (a.index < c.index) = true := by
  rw [decide_eq_true_eq] at hab hbc ⊢
  exact Int.lt_trans hab hbc

/-- The validator takes just the sound sets. -/
theorem validateInboundSet_ok {inbound : InboundSet} {u : Unit} :
    validateInboundSet inbound = .ok u ↔ inbound.Sound := by
  unfold validateInboundSet
  simp only [bind_ok, orRaise_ok, exists_const, strictlySorted_ok index_lt_trans, checkEach_ok, requireBytes_ok,
    decide_eq_true_eq]
  constructor
  · rintro ⟨hdirection, -, hlength, hmax, hbitmap, -, hsorted, hchunks, n, hbits, hcount⟩
    have hrange : (inbound.maxIndex + 1).toNat = 64 := by
      rw [hmax]
      rfl
    rw [hrange, countBits_ok hbitmap fun i hi => List.mem_range.mp hi] at hbits
    obtain ⟨horphan, hn⟩ := hbits
    have hsubset : (setBits inbound.bitmap).map Int.ofNat ⊆ inbound.chunks.map InboundChunk.index := by
      intro i hi
      obtain ⟨m, hm, hbit, rfl⟩ := mem_setBits.mp hi
      obtain ⟨c, hc, hindex⟩ := horphan m (List.mem_range.mpr hm) hbit
      exact List.mem_map.mpr ⟨c, hc, hindex⟩
    have hperm := (List.subperm_of_subset (setBits_nodup inbound.bitmap) hsubset).perm_of_length_le (by
      rw [List.length_map, List.length_map, setBits]
      omega)
    have hin : ∀ c ∈ inbound.chunks, ∃ m < 64, bitAt inbound.bitmap m = true ∧ (m : Int) = c.index :=
      fun c hc => mem_setBits.mp (hperm.mem_iff.mpr (List.mem_map_of_mem hc))
    refine ⟨hdirection, hlength.symm, hmax, hbitmap, hsorted, ?_, ?_⟩
    · intro c hc
      obtain ⟨m, hm, -, hindex⟩ := hin c hc
      obtain ⟨-, hpayload, -⟩ := hchunks c hc
      exact ⟨by omega, hpayload⟩
    · intro i hi
      constructor
      · exact horphan i (List.mem_range.mpr hi)
      · rintro ⟨c, hc, hindex⟩
        obtain ⟨m, -, hbit, hm⟩ := hin c hc
        obtain rfl : m = i := by omega
        exact hbit
  · intro h
    have hperm := h.indices.length_eq
    rw [List.length_map, List.length_map] at hperm
    have hrange : (inbound.maxIndex + 1).toNat = 64 := by
      rw [h.maxIndex]
      rfl
    have hsome : sourceLength inbound.sourceKind ≠ none := by
      rw [h.length]
      exact Option.some_ne_none _
    have hle : (setBits inbound.bitmap).length ≤ 64 := by
      have hfilter := List.length_filter_le (bitAt inbound.bitmap) (List.range 64)
      rw [List.length_range] at hfilter
      exact hfilter
    have hcap : maxChunksPerEpoch = 64 := rfl
    refine ⟨h.direction, hsome, h.length.symm, h.maxIndex, h.bitmap, by omega, h.sorted, ?_,
      (setBits inbound.bitmap).length, ?_, hperm.symm⟩
    · intro c hc
      obtain ⟨⟨hlow, hhigh⟩, hpayload⟩ := h.chunk c hc
      have hmax : braidMaxChunkIndex = 63 := rfl
      have hindex : ((c.index.toNat : Nat) : Int) = c.index := Int.toNat_of_nonneg hlow
      have hget := bitmapGet_nat h.bitmap (show c.index.toNat < 64 by omega)
      rw [hindex] at hget
      refine ⟨⟨by omega, by rw [h.maxIndex]; omega⟩, hpayload, _, hget, ?_⟩
      exact (h.bits _ (by omega)).mpr ⟨c, hc, hindex.symm⟩
    · rw [hrange, countBits_ok h.bitmap fun i hi => List.mem_range.mp hi]
      refine ⟨fun i hi hbit => (h.bits i (List.mem_range.mp hi)).mp hbit, ?_⟩
      rw [Nat.zero_add]
      rfl

/-! ## Entering a frame -/

instance : Std.Total fun a b : InboundChunk => a.index ≤ b.index := ⟨fun a b => Int.le_total a.index b.index⟩

instance : IsTrans InboundChunk fun a b => a.index ≤ b.index := ⟨fun _ _ _ => Int.le_trans⟩

/-- A frame with an index that is not there is entered. -/
theorem InboundSet.Sound.enter {inbound : InboundSet} (h : inbound.Sound) {frame : Rvbc1}
    (hindex : 0 ≤ frame.index ∧ frame.index ≤ 63) (hpayload : frame.payload.length = 32)
    (hnew : ∀ c ∈ inbound.chunks, c.index ≠ frame.index) :
    ∃ next, enterFrame inbound frame inbound.sourceKind = (next, .ok ()) ∧ next.Sound ∧ next.key = inbound.key ∧
      ∀ c, c ∈ next.chunks ↔ c = ⟨frame.index, frame.payload⟩ ∨ c ∈ inbound.chunks := by
  have hnat : ((frame.index.toNat : Nat) : Int) = frame.index := Int.toNat_of_nonneg hindex.1
  obtain ⟨bitmap, hset, hlength, hbits⟩ := setBit_nat h.bitmap (show frame.index.toNat < 64 by omega)
  rw [hnat] at hset
  have hnone : inbound.chunks.find? (fun chunk => chunk.index = frame.index) = none := by
    rw [List.find?_eq_none]
    intro c hc
    simpa using hnew c hc
  have hmem : ∀ c, c ∈ (inbound.chunks ++ [(⟨frame.index, frame.payload⟩ : InboundChunk)]).insertionSort
      (fun a b => a.index ≤ b.index) ↔ c = ⟨frame.index, frame.payload⟩ ∨ c ∈ inbound.chunks := by
    intro c
    rw [List.mem_insertionSort, List.mem_append, List.mem_singleton]
    exact or_comm
  refine ⟨{ inbound with
    bitmap
    chunks := (inbound.chunks ++ [(⟨frame.index, frame.payload⟩ : InboundChunk)]).insertionSort
      fun a b => a.index ≤ b.index }, ?_, ⟨h.direction, h.length, h.maxIndex, hlength, ?_, ?_, ?_⟩, rfl, hmem⟩
  · unfold enterFrame sourceLengthAt
    rw [h.length]
    simp only
    rw [if_neg, hnone]
    · simp only [hset]
    · rintro (hne | hne | hne)
      · exact hne rfl
      · exact hne h.maxIndex
      · exact hne h.bitmap
  · apply insertionSort_strict
    · intro a b _ hnot
      omega
    · rw [List.pairwise_append]
      refine ⟨h.sorted.imp fun hlt hboth => by omega, List.pairwise_singleton _ _, ?_⟩
      rintro a ha b hb ⟨hle, hge⟩
      obtain rfl := List.mem_singleton.mp hb
      exact hnew a ha (Int.le_antisymm hle hge)
  · intro c hc
    rcases (hmem c).mp hc with rfl | hc
    · exact ⟨hindex, hpayload⟩
    · exact h.chunk c hc
  · intro i hi
    rw [hbits i hi, h.bits i hi]
    constructor
    · rintro (⟨c, hc, hci⟩ | rfl)
      · exact ⟨c, (hmem c).mpr (Or.inr hc), hci⟩
      · exact ⟨_, (hmem _).mpr (Or.inl rfl), hnat.symm⟩
    · rintro ⟨c, hc, hci⟩
      rcases (hmem c).mp hc with rfl | hc
      · have hval : frame.index = (i : Int) := hci
        exact Or.inr (by omega)
      · exact Or.inl ⟨c, hc, hci⟩

/-- An index is held once. -/
theorem InboundSet.Sound.unique {inbound : InboundSet} (h : inbound.Sound) {c d : InboundChunk}
    (hc : c ∈ inbound.chunks) (hd : d ∈ inbound.chunks) (heq : c.index = d.index) : c = d :=
  List.inj_on_of_nodup_map (indices_nodup h.sorted) hc hd heq

/-- A frame with an index that is there changes nothing, and is refused if its payload differs. -/
theorem InboundSet.Sound.again {inbound : InboundSet} (h : inbound.Sound) {frame : Rvbc1} {c : InboundChunk}
    (hc : c ∈ inbound.chunks) (hindex : c.index = frame.index) :
    enterFrame inbound frame inbound.sourceKind =
      (inbound, if c.payload ≠ frame.payload then valueError (lit "conflicting inbound chunk") else .ok ()) := by
  have hfind : inbound.chunks.find? (fun chunk => chunk.index = frame.index) = some c := by
    cases hfound : inbound.chunks.find? (fun chunk => chunk.index = frame.index) with
    | none =>
      have hnot := List.find?_eq_none.mp hfound c hc
      simp [hindex] at hnot
    | some d =>
      have hd : d.index = frame.index := by simpa using List.find?_some hfound
      rw [h.unique (List.mem_of_find?_eq_some hfound) hc (hd.trans hindex.symm)]
  unfold enterFrame sourceLengthAt
  rw [h.length]
  simp only
  rw [if_neg, hfind]
  · simp only
    split <;> rfl
  · rintro (hne | hne | hne)
    · exact hne rfl
    · exact hne h.maxIndex
    · exact hne h.bitmap

/-! ## All sets -/

/-- Sound and sorted by key. -/
structure SoundSets (sets : List InboundSet) : Prop where
  sound : ∀ inbound ∈ sets, inbound.Sound
  sorted : sets.Pairwise fun a b => inboundBefore a b = true

theorem inboundBefore_iff (a b : InboundSet) : inboundBefore a b = true ↔ inboundLe a b ∧ a.key ≠ b.key := by
  simp only [inboundBefore, inboundLe, LexLe, InboundSet.key, Bool.or_eq_true, Bool.and_eq_true, decide_eq_true_eq,
    ne_eq, Prod.mk.injEq]
  omega

instance : Std.Total inboundLe := ⟨fun a b => lexLe_total a.key b.key⟩

instance : IsTrans InboundSet inboundLe := ⟨fun _ _ _ => lexLe_trans⟩

theorem inboundBefore_trans (a b c : InboundSet) (hab : inboundBefore a b = true) (hbc : inboundBefore b c = true) :
    inboundBefore a c = true := by
  rw [inboundBefore_iff] at hab hbc ⊢
  refine ⟨lexLe_trans hab.1 hbc.1, fun heq => hab.2 ?_⟩
  exact lexLe_antisymm hab.1 (show LexLe b.key a.key from heq ▸ hbc.1)

theorem SoundSets.keys_nodup {sets : List InboundSet} (h : SoundSets sets) : (sets.map InboundSet.key).Nodup := by
  rw [List.Nodup, List.pairwise_map]
  exact h.sorted.imp fun hlt => ((inboundBefore_iff _ _).mp hlt).2

/-- A key is used once. -/
theorem SoundSets.unique {sets : List InboundSet} (h : SoundSets sets) {a b : InboundSet} (ha : a ∈ sets)
    (hb : b ∈ sets) (heq : a.key = b.key) : a = b :=
  List.inj_on_of_nodup_map h.keys_nodup ha hb heq

theorem putBack_keys (inbound : InboundSet) (sets : List InboundSet) :
    (putBack inbound sets).map InboundSet.key = sets.map InboundSet.key := by
  induction sets with
  | nil => rfl
  | cons item items ih =>
    unfold putBack
    split
    · rename_i hkey
      rw [List.map_cons, List.map_cons, hkey]
    · rw [List.map_cons, List.map_cons, ih]

theorem putBack_found {inbound : InboundSet} {sets : List InboundSet}
    (h : sets.find? (fun item => item.key = inbound.key) = some inbound) : putBack inbound sets = sets := by
  induction sets with
  | nil => rfl
  | cons item items ih =>
    unfold putBack
    rw [List.find?_cons] at h
    split
    · rename_i hkey
      rw [decide_eq_true hkey] at h
      rw [Option.some.inj h]
    · rename_i hkey
      rw [decide_eq_false hkey] at h
      rw [ih h]

theorem mem_putBack {inbound item : InboundSet} {sets : List InboundSet} (h : (sets.map InboundSet.key).Nodup)
    (hkey : inbound.key ∈ sets.map InboundSet.key) :
    item ∈ putBack inbound sets ↔ item = inbound ∨ (item ∈ sets ∧ item.key ≠ inbound.key) := by
  induction sets with
  | nil => cases hkey
  | cons first items ih =>
    rw [List.map_cons, List.nodup_cons] at h
    unfold putBack
    split
    · rename_i hfirst
      rw [List.mem_cons, List.mem_cons]
      constructor
      · rintro (rfl | hitem)
        · exact Or.inl rfl
        · refine Or.inr ⟨Or.inr hitem, fun heq => h.1 ?_⟩
          rw [hfirst, ← heq]
          exact List.mem_map_of_mem hitem
      · rintro (rfl | ⟨rfl | hitem, hne⟩)
        · exact Or.inl rfl
        · exact absurd hfirst hne
        · exact Or.inr hitem
    · rename_i hfirst
      rw [List.map_cons, List.mem_cons] at hkey
      have hrest := hkey.resolve_left fun heq => hfirst heq.symm
      rw [List.mem_cons, List.mem_cons, ih h.2 hrest]
      constructor
      · rintro (rfl | rfl | ⟨hitem, hne⟩)
        · exact Or.inr ⟨Or.inl rfl, hfirst⟩
        · exact Or.inl rfl
        · exact Or.inr ⟨Or.inr hitem, hne⟩
      · rintro (rfl | ⟨rfl | hitem, hne⟩)
        · exact Or.inr (Or.inl rfl)
        · exact Or.inl rfl
        · exact Or.inr (Or.inr ⟨hitem, hne⟩)

theorem SoundSets.putBack {sets : List InboundSet} (h : SoundSets sets) {next : InboundSet} (hnext : next.Sound)
    (hkey : next.key ∈ sets.map InboundSet.key) : SoundSets (putBack next sets) := by
  constructor
  · intro item hitem
    rcases (mem_putBack h.keys_nodup hkey).mp hitem with rfl | ⟨hitem, -⟩
    · exact hnext
    · exact h.sound item hitem
  · have hkeys : (sets.map InboundSet.key).Pairwise fun a b => LexLe a b ∧ a ≠ b := by
      rw [List.pairwise_map]
      exact h.sorted.imp fun hlt => (inboundBefore_iff _ _).mp hlt
    rw [← putBack_keys next sets, List.pairwise_map] at hkeys
    exact hkeys.imp fun hlt => (inboundBefore_iff _ _).mpr hlt

/-- An empty set is sound. -/
theorem emptyInboundSet_ok {direction kind : Int} (epoch : Int) (hdirection : direction = 0 ∨ direction = 1)
    (hkind : sourceLength kind ≠ none) :
    ∃ empty, emptyInboundSet direction epoch kind = .ok empty ∧ empty.Sound ∧ empty.key = (direction, epoch, kind) ∧
      empty.chunks = [] := by
  obtain ⟨length, hlength⟩ := Option.ne_none_iff_exists'.mp hkind
  refine ⟨⟨direction, epoch, kind, length, 63, List.replicate 8 0, []⟩, ?_,
    ⟨hdirection, hlength, rfl, rfl, List.Pairwise.nil, ?_, ?_⟩, rfl, rfl⟩
  · unfold emptyInboundSet sourceLengthAt
    rw [hlength]
    rfl
  · intro c hc
    cases hc
  · intro i hi
    have hzero : ∀ n, (List.replicate 8 (0 : UInt8)).getD n 0 = 0 := by
      intro n
      rw [List.getD_eq_getElem?_getD, List.getElem?_replicate]
      split <;> rfl
    have hbit : bitAt (List.replicate 8 0) i = false := by
      unfold bitAt
      rw [hzero]
      exact Nat.zero_testBit _
    constructor
    · intro htrue
      cases hbit.symm.trans htrue
    · rintro ⟨c, hc, -⟩
      cases hc

/-- The set with the key is there, or is made empty and put in its place. -/
theorem SoundSets.find {sets : List InboundSet} (h : SoundSets sets) {direction kind : Int} (epoch : Int)
    (hdirection : direction = 0 ∨ direction = 1) (hkind : sourceLength kind ≠ none) :
    ∃ inbound all, findOrAppend sets direction epoch kind = .ok (inbound, all) ∧ SoundSets all ∧ inbound ∈ all ∧
      inbound.key = (direction, epoch, kind) ∧
      (all = sets ∧ sets.find? (fun item => item.key = inbound.key) = some inbound ∨
        inbound.chunks = [] ∧ (∀ item ∈ sets, item.key ≠ inbound.key) ∧
          ∀ item, item ∈ all ↔ item = inbound ∨ item ∈ sets) := by
  unfold findOrAppend
  cases hfind : sets.find? fun item => item.key = (direction, epoch, kind) with
  | some inbound =>
    have hkey : inbound.key = (direction, epoch, kind) := by simpa using List.find?_some hfind
    refine ⟨inbound, sets, rfl, h, List.mem_of_find?_eq_some hfind, hkey, Or.inl ⟨rfl, ?_⟩⟩
    rw [hkey]
    exact hfind
  | none =>
    obtain ⟨empty, hempty, hsound, hkey, hchunks⟩ := emptyInboundSet_ok epoch hdirection hkind
    have hother : ∀ item ∈ sets, item.key ≠ empty.key := by
      intro item hitem heq
      have hnot := List.find?_eq_none.mp hfind item hitem
      simp [heq, hkey] at hnot
    have hmem : ∀ item, item ∈ (sets ++ [empty]).insertionSort inboundLe ↔ item = empty ∨ item ∈ sets := by
      intro item
      rw [List.mem_insertionSort, List.mem_append, List.mem_singleton]
      exact or_comm
    refine ⟨empty, (sets ++ [empty]).insertionSort inboundLe, ?_, ⟨?_, ?_⟩, (hmem empty).mpr (Or.inl rfl), hkey,
      Or.inr ⟨hchunks, hother, hmem⟩⟩
    · rw [hempty]
      rfl
    · intro item hitem
      rcases (hmem item).mp hitem with rfl | hitem
      · exact hsound
      · exact h.sound item hitem
    · apply insertionSort_strict
      · intro a b hle hnot
        rw [inboundBefore_iff]
        refine ⟨hle, fun heq => hnot ?_⟩
        have hself : LexLe a.key a.key := (lexLe_total a.key a.key).elim id id
        show LexLe b.key a.key
        rw [← heq]
        exact hself
      · rw [List.pairwise_append]
        refine ⟨h.sorted.imp fun hlt hboth => ?_, List.pairwise_singleton _ _, ?_⟩
        · exact ((inboundBefore_iff _ _).mp hlt).2 (lexLe_antisymm hboth.1 hboth.2)
        · rintro a ha b hb ⟨hle, hge⟩
          obtain rfl := List.mem_singleton.mp hb
          exact hother a ha (lexLe_antisymm hle hge)

/-! ## An insertion -/

/-- A set with this key holds the chunk. -/
def HasChunk (sets : List InboundSet) (key : Int × Int × Int) (c : InboundChunk) : Prop :=
  ∃ inbound ∈ sets, inbound.key = key ∧ c ∈ inbound.chunks

/-- What arrives: a frame, and the direction and kind it is taken for. -/
structure Arrival where
  direction : Int
  frame : Rvbc1
  sourceKind : Int

namespace Arrival

def key (a : Arrival) : Int × Int × Int := (a.direction, a.frame.epoch, a.sourceKind)

def chunk (a : Arrival) : InboundChunk := ⟨a.frame.index, a.frame.payload⟩

structure Valid (a : Arrival) : Prop where
  direction : a.direction = 0 ∨ a.direction = 1
  kind : sourceLength a.sourceKind ≠ none
  index : 0 ≤ a.frame.index ∧ a.frame.index ≤ 63
  payload : a.frame.payload.length = 32

def insert (state : Rvfb1State) (a : Arrival) : Rvfb1State × Except PyExc (Option Bytes) :=
  insertSystematicFrame state a.direction a.frame a.sourceKind

end Arrival

/-- A frame that conflicts with a chunk is refused and changes nothing. -/
theorem insert_conflict {state : Rvfb1State} (h : SoundSets state.inboundSets) {inbound : InboundSet}
    (hinbound : inbound ∈ state.inboundSets) {c : InboundChunk} (hc : c ∈ inbound.chunks) {frame : Rvbc1}
    (hepoch : frame.epoch = inbound.epoch) (hindex : frame.index = c.index) (hne : frame.payload ≠ c.payload) :
    insertSystematicFrame state inbound.direction frame inbound.sourceKind =
      (state, .error ⟨.valueError, lit "conflicting inbound chunk"⟩) := by
  have hsound := h.sound inbound hinbound
  have hkind : sourceLength inbound.sourceKind ≠ none := by
    rw [hsound.length]
    exact Option.some_ne_none _
  obtain ⟨found, all, hfind, _, _, hkey, hcases⟩ := h.find frame.epoch hsound.direction hkind
  have hsame : inbound.key = found.key := by
    rw [hkey, hepoch]
    rfl
  unfold insertSystematicFrame
  rw [hfind]
  rcases hcases with ⟨rfl, hfirst⟩ | ⟨_, hother, _⟩
  · obtain rfl := h.unique hinbound (List.mem_of_find?_eq_some hfirst) hsame
    simp only [hsound.again hc hindex.symm, if_pos (Ne.symm hne), putBack_found hfirst]
    rfl
  · exact absurd hsame (hother inbound hinbound)

/-- A frame that conflicts with no chunk is in its set afterwards; the others are as they were. -/
theorem insert_entered {state : Rvfb1State} (h : SoundSets state.inboundSets) {a : Arrival} (ha : a.Valid)
    (hagree : ∀ c, HasChunk state.inboundSets a.key c → c.index = a.frame.index → c.payload = a.frame.payload) :
    ∃ inbound ∈ (a.insert state).1.inboundSets, inbound.key = a.key ∧ (a.insert state).2 = .ok inbound.joined ∧
      SoundSets (a.insert state).1.inboundSets ∧
      ∀ key c, HasChunk (a.insert state).1.inboundSets key c ↔
        HasChunk state.inboundSets key c ∨ (key = a.key ∧ c = a.chunk) := by
  obtain ⟨found, all, hfind, hall, hfound, hkey, hcases⟩ := h.find a.frame.epoch ha.direction ha.kind
  have hsound := hall.sound found hfound
  have hkind : found.sourceKind = a.sourceKind := congrArg (fun key => key.2.2) hkey
  -- the empty set that may have been made holds nothing
  have hbefore : ∀ key c, HasChunk all key c ↔ HasChunk state.inboundSets key c := by
    rcases hcases with ⟨rfl, -⟩ | ⟨hempty, -, hmem⟩
    · exact fun key c => Iff.rfl
    · intro key c
      constructor
      · rintro ⟨item, hitem, hitemKey, hc⟩
        rcases (hmem item).mp hitem with rfl | hitem
        · rw [hempty] at hc
          cases hc
        · exact ⟨item, hitem, hitemKey, hc⟩
      · rintro ⟨item, hitem, hrest⟩
        exact ⟨item, (hmem item).mpr (Or.inr hitem), hrest⟩
  have hchunks : ∀ c ∈ found.chunks, HasChunk state.inboundSets a.key c :=
    fun c hc => (hbefore a.key c).mp ⟨found, hfound, hkey, hc⟩
  obtain ⟨next, hentered, hnext, hnextKey, hnextChunks⟩ : ∃ next, enterFrame found a.frame found.sourceKind =
      (next, .ok ()) ∧ next.Sound ∧ next.key = found.key ∧
      ∀ c, c ∈ next.chunks ↔ c = a.chunk ∨ c ∈ found.chunks := by
    by_cases hthere : ∃ c ∈ found.chunks, c.index = a.frame.index
    · obtain ⟨c, hc, hindex⟩ := hthere
      have hpayload := hagree c (hchunks c hc) hindex
      refine ⟨found, ?_, hsound, rfl, fun d => ⟨Or.inr, ?_⟩⟩
      · rw [hsound.again hc hindex, if_neg (not_not.mpr hpayload)]
      · rintro (rfl | hd)
        · have heq : c = a.chunk := by
            cases c
            simp only at hindex hpayload
            rw [hindex, hpayload]
            rfl
          exact heq ▸ hc
        · exact hd
    · exact hsound.enter ha.index ha.payload fun c hc hindex => hthere ⟨c, hc, hindex⟩
  have hinsert : a.insert state = ({ state with inboundSets := putBack next all }, .ok next.joined) := by
    unfold Arrival.insert insertSystematicFrame
    rw [hfind]
    simp only
    rw [← hkind, hentered]
    rfl
  have hin : next.key ∈ all.map InboundSet.key := hnextKey ▸ List.mem_map_of_mem hfound
  have hmem : ∀ item, item ∈ putBack next all ↔ item = next ∨ (item ∈ all ∧ item.key ≠ next.key) :=
    fun item => mem_putBack hall.keys_nodup hin
  rw [hinsert]
  refine ⟨next, (hmem next).mpr (Or.inl rfl), hnextKey.trans hkey, rfl, hall.putBack hnext hin, ?_⟩
  intro key c
  rw [← hbefore key c]
  constructor
  · rintro ⟨item, hitem, hitemKey, hc⟩
    rcases (hmem item).mp hitem with rfl | ⟨hitem, -⟩
    · rcases (hnextChunks c).mp hc with rfl | hc
      · exact Or.inr ⟨hitemKey.symm.trans (hnextKey.trans hkey), rfl⟩
      · exact Or.inl ⟨found, hfound, hnextKey.symm.trans hitemKey, hc⟩
    · exact Or.inl ⟨item, hitem, hitemKey, hc⟩
  · rintro (⟨item, hitem, hitemKey, hc⟩ | ⟨rfl, rfl⟩)
    · by_cases hsame : item.key = next.key
      · obtain rfl := hall.unique hitem hfound (hsame.trans hnextKey)
        exact ⟨next, (hmem next).mpr (Or.inl rfl), hnextKey.trans hitemKey, (hnextChunks c).mpr (Or.inr hc)⟩
      · exact ⟨item, (hmem item).mpr (Or.inr ⟨hitem, hsame⟩), hitemKey, hc⟩
    · exact ⟨next, (hmem next).mpr (Or.inl rfl), hnextKey.trans hkey, (hnextChunks _).mpr (Or.inl rfl)⟩

end Rdap.Braid
