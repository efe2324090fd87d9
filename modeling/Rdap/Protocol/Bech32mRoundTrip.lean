import Rdap.Protocol.Checksum

/-!
# Bech32m texts and payloads correspond

The character set has no digit one, so that the last one of a text is the separator; what stands
before it is the human-readable part, and what comes after it determines the payload and is
determined by it.
-/

set_option autoImplicit false

namespace Rdap.Protocol.Bech32m
open Lib Python

/-! ## Characters -/

theorem idxOf?_charAt {d : Nat} (hd : d < 2 ^ 5) : charset.idxOf? (charAt d) = some d := by
  have hall : ∀ d < 2 ^ 5, charset.idxOf? (charAt d) = some d := by decide +kernel
  exact hall d hd

theorem charAt_of_idxOf? {c : CodePoint} {d : Nat} (h : charset.idxOf? c = some d) :
    d < 2 ^ 5 ∧ charAt d = c := by
  obtain ⟨hlt, hget, -⟩ := List.findIdx?_eq_some_iff_getElem.mp h
  have hlength : charset.length = 2 ^ 5 := by decide
  refine ⟨hlength ▸ hlt, ?_⟩
  unfold charAt
  rw [List.getD_eq_getElem?_getD, List.getElem?_eq_getElem hlt]
  exact beq_iff_eq.mp hget

theorem mapM_idxOf? {data : List Nat} (h : ∀ d ∈ data, d < 2 ^ 5) :
    (data.map charAt).mapM (fun c => charset.idxOf? c) = some data := by
  induction data with
  | nil => rfl
  | cons d ds ih =>
    rw [List.map_cons, List.mapM_cons, idxOf?_charAt (h d List.mem_cons_self),
      ih fun e he => h e (List.mem_cons_of_mem d he)]
    rfl

theorem charAt_of_mapM {text : PyStr} {data : List Nat}
    (h : text.mapM (fun c => charset.idxOf? c) = some data) :
    (∀ d ∈ data, d < 2 ^ 5) ∧ data.map charAt = text := by
  induction text generalizing data with
  | nil =>
    obtain rfl : [] = data := by simpa using h
    exact ⟨fun d hd => absurd hd List.not_mem_nil, rfl⟩
  | cons c text ih =>
    rw [List.mapM_cons] at h
    obtain ⟨d, hd, hrest⟩ := Option.bind_eq_some_iff.mp h
    obtain ⟨ds, hds, heq⟩ := Option.bind_eq_some_iff.mp hrest
    obtain rfl := Option.some.inj heq
    obtain ⟨hlt, hchar⟩ := charAt_of_idxOf? hd
    obtain ⟨hall, htext⟩ := ih hds
    constructor
    · intro e he
      rcases List.mem_cons.mp he with heq | he
      · rw [heq]
        exact hlt
      · exact hall e he
    · rw [List.map_cons, hchar, htext]

theorem charAt_mem {d : Nat} (hd : d < 2 ^ 5) : charAt d ∈ charset := by
  have hall : ∀ d < 2 ^ 5, charAt d ∈ charset := by decide +kernel
  exact hall d hd

/-- Printable, lower case and not the separator. -/
def Plain (c : CodePoint) : Prop := 33 ≤ c.val ∧ c.val ≤ 126 ∧ asciiLower c = c

theorem asciiLower_of_not_upper {c : CodePoint} (h : ¬(65 ≤ c.val ∧ c.val ≤ 90)) : asciiLower c = c := dif_neg h

theorem charset_plain {c : CodePoint} (h : c ∈ charset) : Plain c ∧ c ≠ 49 := by
  have hall : charset.all (fun c => 33 ≤ c.val && c.val ≤ 126 && !(65 ≤ c.val && c.val ≤ 90) && c.val != 49) =
      true := by decide +kernel
  have hc := List.all_eq_true.mp hall c h
  simp only [Bool.and_eq_true, decide_eq_true_eq, Bool.not_eq_true', Bool.and_eq_false_iff,
    decide_eq_false_iff_not, bne_iff_ne] at hc
  refine ⟨⟨hc.1.1.1, hc.1.1.2, asciiLower_of_not_upper (by omega)⟩, ?_⟩
  intro heq
  exact hc.2 (congrArg Fin.val heq)

/-! ## The separator -/

theorem rfind_append {head rest : PyStr} {c : CodePoint} (h : c ∉ rest) :
    rfind (head ++ c :: rest) c = some head.length := by
  have hreverse : (head ++ c :: rest).reverse = rest.reverse ++ c :: head.reverse := by simp
  have hnone : rest.reverse.findIdx? (· = c) = none := by
    rw [List.findIdx?_eq_none_iff]
    intro d hd
    have hne : d ≠ c := fun heq => h (heq ▸ List.mem_reverse.mp hd)
    simpa using hne
  unfold rfind
  rw [hreverse, List.findIdx?_append, hnone, List.findIdx?_cons]
  simp

theorem rfind_some {s : PyStr} {c : CodePoint} {pos : Nat} (h : rfind s c = some pos) :
    ∃ head rest, s = head ++ c :: rest ∧ c ∉ rest ∧ pos = head.length := by
  by_cases hmem : c ∈ s
  · obtain ⟨front, back, hsplit, hfront⟩ := List.eq_append_cons_of_mem (List.mem_reverse.mpr hmem)
    have hs : s = back.reverse ++ c :: front.reverse := by
      have hback := congrArg List.reverse hsplit
      rw [List.reverse_reverse] at hback
      rw [hback]
      simp
    have hrest : c ∉ front.reverse := fun hin => hfront (List.mem_reverse.mp hin)
    rw [hs, rfind_append hrest] at h
    exact ⟨back.reverse, front.reverse, hs, hrest, (Option.some.inj h).symm⟩
  · have hnone : s.reverse.findIdx? (· = c) = none := by
      rw [List.findIdx?_eq_none_iff]
      intro d hd
      have hne : d ≠ c := fun heq => hmem (heq ▸ List.mem_reverse.mp hd)
      simpa using hne
    unfold rfind at h
    rw [hnone] at h
    cases h

/-! ## Texts -/

/-- The five-bit groups of a payload. -/
theorem groups (payload : Bytes) :
    ∃ data, convertbits (payload.map UInt8.toNat) 8 5 true = some data ∧ (∀ d ∈ data, d < 2 ^ 5) ∧
      convertbits data 5 8 false = some (payload.map UInt8.toNat) := by
  apply convertbits_back (by decide) (by decide)
  intro v hv
  obtain ⟨b, -, rfl⟩ := List.mem_map.mp hv
  exact b.toNat_lt

theorem map_ofNat_toNat (payload : Bytes) : (payload.map UInt8.toNat).map UInt8.ofNat = payload := by
  rw [List.map_map]
  have hid : ∀ b ∈ payload, (UInt8.ofNat ∘ UInt8.toNat) b = b := by
    intro b _
    exact UInt8.ofNat_toNat
  exact (List.map_congr_left hid).trans (List.map_id' payload)

theorem map_toNat_ofNat {values : List Nat} (h : ∀ v ∈ values, v < 2 ^ 8) :
    (values.map UInt8.ofNat).map UInt8.toNat = values := by
  rw [List.map_map]
  have hid : ∀ v ∈ values, (UInt8.toNat ∘ UInt8.ofNat) v = v := by
    intro v hv
    exact UInt8.toNat_ofNat_of_lt' (h v hv)
  exact (List.map_congr_left hid).trans (List.map_id' values)

/-- The part after the separator is lower case, printable and has no separator. -/
theorem map_charAt_plain {data : List Nat} (h : ∀ d ∈ data, d < 2 ^ 5) {c : CodePoint}
    (hc : c ∈ data.map charAt) : Plain c ∧ c ≠ 49 := by
  obtain ⟨d, hd, rfl⟩ := List.mem_map.mp hc
  exact charset_plain (charAt_mem (h d hd))

theorem symbols_lt {hrp : PyStr} {data : List Nat} (h : ∀ d ∈ data, d < 2 ^ 5) :
    ∀ d ∈ data ++ createChecksum hrp data, d < 2 ^ 5 := by
  intro d hd
  rcases List.mem_append.mp hd with hd | hd
  · exact h d hd
  · exact createChecksum_lt d hd

theorem encode_eq {hrp : PyStr} {payload : Bytes} {data : List Nat}
    (h : convertbits (payload.map UInt8.toNat) 8 5 true = some data) :
    encode hrp payload = hrp ++ 49 :: (data ++ createChecksum hrp data).map charAt := by
  have hone : lit "1" = [49] := rfl
  unfold encode
  rw [h, hone]
  simp

theorem decodeLower_encode {hrp : PyStr} (hne : hrp ≠ []) (payload : Bytes) :
    decodeLower (encode hrp payload) = some (hrp, payload) := by
  obtain ⟨data, hdata, hlt, hback⟩ := groups payload
  have hsymbols : ∀ d ∈ data ++ createChecksum hrp data, d < 2 ^ 5 := symbols_lt hlt
  have hrest : 49 ∉ (data ++ createChecksum hrp data).map charAt := fun h => (map_charAt_plain hsymbols h).2 rfl
  have hpos := List.length_pos_iff.mpr hne
  have hverify := (verifyChecksum_unique (createChecksum_length hrp data) createChecksum_lt).mpr rfl
  unfold decodeLower
  rw [encode_eq hdata, rfind_append hrest]
  simp only
  rw [if_neg]
  · have hdrop : (hrp ++ 49 :: (data ++ createChecksum hrp data).map charAt).drop (hrp.length + 1) =
        (data ++ createChecksum hrp data).map charAt := by
      rw [← List.drop_drop, List.drop_left]
      rfl
    have htake : (data ++ createChecksum hrp data).take
        ((data ++ createChecksum hrp data).length - 6) = data := by
      rw [List.length_append, createChecksum_length, Nat.add_sub_cancel, List.take_left]
    rw [hdrop, mapM_idxOf? hsymbols, List.take_left]
    simp only
    rw [hverify, if_pos rfl, htake, hback, Option.map_some, map_ofNat_toNat]
  · rw [List.length_append, List.length_cons, List.length_map, List.length_append, createChecksum_length]
    omega

/-- Whatever is taken is the text of what it is taken for. -/
theorem encode_decodeLower {s hrp : PyStr} {payload : Bytes} (h : decodeLower s = some (hrp, payload)) :
    encode hrp payload = s ∧ hrp ≠ [] := by
  unfold decodeLower at h
  split at h
  · cases h
  · rename_i pos hfind
    obtain ⟨head, rest, rfl, hrest, rfl⟩ := rfind_some hfind
    have hdrop : (head ++ 49 :: rest).drop (head.length + 1) = rest := by
      rw [← List.drop_drop, List.drop_left]
      rfl
    rw [hdrop, List.take_left] at h
    split at h
    · cases h
    · rename_i hlength
      rw [List.length_append, List.length_cons] at hlength
      split at h
      · cases h
      · rename_i symbols hsymbols
        obtain ⟨hlt, hchars⟩ := charAt_of_mapM hsymbols
        have hcount : symbols.length = rest.length := by rw [← hchars, List.length_map]
        split at h
        · rename_i hverify
          obtain ⟨values, hvalues, heq⟩ := Option.map_eq_some_iff.mp h
          obtain ⟨rfl, rfl⟩ := Prod.mk.inj heq
          have hdata : ∀ d ∈ symbols.take (symbols.length - 6), d < 2 ^ 5 := by
            intro d hd
            exact hlt d (List.mem_of_mem_take hd)
          obtain ⟨hbytes, hpad⟩ := convertbits_forth (by decide) (by decide) hdata hvalues
          have hlast : ∀ d ∈ symbols.drop (symbols.length - 6), d < 2 ^ 5 := by
            intro d hd
            exact hlt d (List.mem_of_mem_drop hd)
          have hsix : (symbols.drop (symbols.length - 6)).length = 6 := by
            rw [List.length_drop]
            omega
          rw [← List.take_append_drop (symbols.length - 6) symbols, verifyChecksum_unique hsix hlast] at hverify
          have hne : head ≠ [] := by
            intro hnil
            rw [hnil] at hlength
            simp at hlength
          refine ⟨?_, hne⟩
          rw [← map_toNat_ofNat hbytes] at hpad
          rw [encode_eq hpad, ← hverify, List.take_append_drop, hchars]
        · cases h

/-! ## Both cases -/

theorem asciiLower_asciiLower (c : CodePoint) : asciiLower (asciiLower c) = asciiLower c := by
  apply asciiLower_of_not_upper
  unfold asciiLower
  split
  · simp only
    omega
  · assumption

theorem decode_eq_some {s hrp : PyStr} {payload : Bytes} (h : decode s = some (hrp, payload)) :
    decodeLower (s.map asciiLower) = some (hrp, payload) ∧ ∀ c ∈ s, 33 ≤ c.val ∧ c.val ≤ 126 := by
  unfold decode at h
  split at h
  · cases h
  · rename_i hprintable
    split at h
    · cases h
    · refine ⟨h, ?_⟩
      intro c hc
      simp only [List.any_eq_true, not_exists, not_and, Bool.or_eq_true, decide_eq_true_eq] at hprintable
      have := hprintable c hc
      omega

theorem decode_of_plain {s : PyStr} (h : ∀ c ∈ s, Plain c) : decode s = decodeLower s := by
  have hlower : s.map asciiLower = s := (List.map_congr_left fun c hc => (h c hc).2.2).trans (List.map_id' s)
  unfold decode
  rw [hlower, if_neg, if_neg]
  · simp
  · simp only [List.any_eq_true, not_exists, not_and, Bool.or_eq_true, decide_eq_true_eq]
    intro c hc
    have hplain := h c hc
    have hlow := hplain.1
    have hhigh := hplain.2.1
    omega

theorem encode_plain {hrp : PyStr} (hrp_plain : ∀ c ∈ hrp, Plain c) (payload : Bytes) :
    ∀ c ∈ encode hrp payload, Plain c := by
  obtain ⟨data, hdata, hlt, -⟩ := groups payload
  intro c hc
  rw [encode_eq hdata] at hc
  rcases List.mem_append.mp hc with hc | hc
  · exact hrp_plain c hc
  · rcases List.mem_cons.mp hc with heq | hc
    · rw [heq]
      exact ⟨by decide, by decide, rfl⟩
    · exact (map_charAt_plain (symbols_lt hlt) hc).1

/-- A text made for a plain human-readable part is taken for what it was made of. -/
theorem decode_encode {hrp : PyStr} (hne : hrp ≠ []) (hrp_plain : ∀ c ∈ hrp, Plain c) (payload : Bytes) :
    decode (encode hrp payload) = some (hrp, payload) := by
  rw [decode_of_plain (encode_plain hrp_plain payload), decodeLower_encode hne]

theorem encode_decode {s hrp : PyStr} {payload : Bytes} (h : decode s = some (hrp, payload)) :
    encode hrp payload = s.map asciiLower := (encode_decodeLower (decode_eq_some h).1).1

/-- Folding the case of a text that is taken changes nothing of what it is taken for. -/
theorem decode_lower {s hrp : PyStr} {payload : Bytes} (h : decode s = some (hrp, payload)) :
    decode (s.map asciiLower) = some (hrp, payload) := by
  obtain ⟨hlower, hprintable⟩ := decode_eq_some h
  rw [decode_of_plain, hlower]
  intro c hc
  obtain ⟨d, hd, rfl⟩ := List.mem_map.mp hc
  have hrange := hprintable d hd
  refine ⟨?_, ?_, asciiLower_asciiLower d⟩
  · unfold asciiLower
    split
    · simp only
      omega
    · exact hrange.1
  · unfold asciiLower
    split
    · simp only
      omega
    · exact hrange.2

/-- One lower-case text for each pair that any text is taken for. -/
theorem decode_spelling {s hrp : PyStr} {payload : Bytes} (h : decode s = some (hrp, payload)) :
    ∃! t : PyStr, t.map asciiLower = t ∧ decode t = some (hrp, payload) := by
  refine ⟨s.map asciiLower, ⟨?_, decode_lower h⟩, ?_⟩
  · rw [List.map_map]
    exact List.map_congr_left fun c _ => asciiLower_asciiLower c
  · rintro t ⟨hlower, ht⟩
    rw [← encode_decode h, encode_decode ht, hlower]

end Rdap.Protocol.Bech32m
