import Rdap.Protocol.Address
import Rdap.Protocol.Bech32mRoundTrip
import Rdap.Python.Strip

/-!
# Typing slips

One symbol replaced, or two neighbours exchanged, leaves a remainder that is not zero, and a step makes
no remainder zero that was not. No such slip therefore keeps the checksum.
-/

set_option autoImplicit false

namespace Rdap.Protocol.Bech32m
open Lib Python

/-! ## Different remainders stay different -/

theorem eq_of_xor {a b : Nat} (h : a ^^^ b = 0) : a = b := by
  calc a = a ^^^ b ^^^ b := by rw [Nat.xor_assoc, Nat.xor_self, Nat.xor_zero]
    _ = b := by rw [h, Nat.zero_xor]

/-- What the top bits of a remainder give. -/
def genFold (b : Nat) : Nat := (List.range 5).foldl (fun c i => c ^^^ genAt b i) 0

theorem foldl_xor_start (f : Nat → Nat) (is : List Nat) (x : Nat) :
    is.foldl (fun c i => c ^^^ f i) x = x ^^^ is.foldl (fun c i => c ^^^ f i) 0 := by
  induction is generalizing x with
  | nil => exact (Nat.xor_zero x).symm
  | cons i is ih => rw [List.foldl_cons, List.foldl_cons, ih, ih (0 ^^^ f i), Nat.zero_xor, Nat.xor_assoc]

/-- The low bits of the generators are independent. -/
theorem genFold_low {b : Nat} (hb : b < 2 ^ 5) (h : genFold b % 2 ^ 5 = 0) : b = 0 := by
  have hall : ∀ b < 2 ^ 5, genFold b % 2 ^ 5 = 0 → b = 0 := by decide +kernel
  exact hall b hb h

theorem polymodStep_zero {e : Nat} (he : e < 2 ^ 30) (h : polymodStep e 0 = 0) : e = 0 := by
  have hstep : (e &&& 0x1ffffff) <<< 5 ^^^ genFold (e >>> 25) = 0 := by
    rw [polymodStep_eq, foldl_xor_start, Nat.xor_zero] at h
    exact h
  have heq : (e &&& 0x1ffffff) <<< 5 = genFold (e >>> 25) := eq_of_xor hstep
  have htop : e >>> 25 = e / 2 ^ 25 := Nat.shiftRight_eq_div_pow e 25
  have hzero : e >>> 25 = 0 := by
    apply genFold_low
    · omega
    · rw [← heq, Nat.shiftLeft_eq]
      exact Nat.mul_mod_left _ _
  have hsmall : e < 2 ^ 25 := by omega
  have hdirect := polymodStep_small hsmall (show 0 < 2 ^ 5 by decide)
  omega

theorem polymodStep_injective {a b v : Nat} (ha : a < 2 ^ 30) (hb : b < 2 ^ 30)
    (h : polymodStep a v = polymodStep b v) : a = b := by
  apply eq_of_xor
  apply polymodStep_zero (Nat.xor_lt_two_pow ha hb)
  have hlinear := polymodStep_xor a b v v
  rw [Nat.xor_self, h, Nat.xor_self] at hlinear
  exact hlinear

theorem foldl_polymodStep_injective {a b : Nat} {symbols : List Nat} (ha : a < 2 ^ 30) (hb : b < 2 ^ 30)
    (hsymbols : ∀ v ∈ symbols, v < 2 ^ 5)
    (h : symbols.foldl polymodStep a = symbols.foldl polymodStep b) : a = b := by
  induction symbols generalizing a b with
  | nil => exact h
  | cons v vs ih =>
    have hv : v < 2 ^ 30 := Nat.lt_trans (hsymbols v List.mem_cons_self) (by decide)
    apply polymodStep_injective ha hb
    exact ih (polymodStep_lt a hv) (polymodStep_lt b hv) (fun w hw => hsymbols w (List.mem_cons_of_mem v hw)) h

/-! ## The two slips -/

theorem polymodStep_replaced {chk x y : Nat} (hx : x < 2 ^ 5) (hy : y < 2 ^ 5)
    (h : polymodStep chk x = polymodStep chk y) : x = y := by
  apply eq_of_xor
  have hlinear := polymodStep_xor chk chk x y
  rw [h, Nat.xor_self, Nat.xor_self, polymodStep_small (by decide) (Nat.xor_lt_two_pow hx hy)] at hlinear
  omega

theorem polymodStep_swapped {chk x y : Nat} (hx : x < 2 ^ 5) (hy : y < 2 ^ 5)
    (h : polymodStep (polymodStep chk x) y = polymodStep (polymodStep chk y) x) : x = y := by
  apply eq_of_xor
  have hxor := Nat.xor_lt_two_pow hx hy
  have hinner := polymodStep_xor chk chk x y
  have houter := polymodStep_xor (polymodStep chk x) (polymodStep chk y) y x
  rw [Nat.xor_self, polymodStep_small (by decide) hxor] at hinner
  rw [h, Nat.xor_self, ← hinner, Nat.xor_comm y x, polymodStep_small (by omega) hxor] at houter
  omega

theorem verify_replaced {hrp : PyStr} {front back : List Nat} {x y : Nat}
    (hx : x < 2 ^ 5) (hy : y < 2 ^ 5) (hback : ∀ v ∈ back, v < 2 ^ 5)
    (h : verifyChecksum hrp (front ++ x :: back) = true) (h' : verifyChecksum hrp (front ++ y :: back) = true) :
    x = y := by
  unfold verifyChecksum polymod at h h'
  rw [beq_iff_eq, ← List.append_assoc, List.foldl_append, List.foldl_cons] at h h'
  apply polymodStep_replaced hx hy
  exact foldl_polymodStep_injective (polymodStep_lt _ (by omega)) (polymodStep_lt _ (by omega)) hback
    (h.trans h'.symm)

theorem verify_swapped {hrp : PyStr} {front back : List Nat} {x y : Nat}
    (hx : x < 2 ^ 5) (hy : y < 2 ^ 5) (hback : ∀ v ∈ back, v < 2 ^ 5)
    (h : verifyChecksum hrp (front ++ x :: y :: back) = true)
    (h' : verifyChecksum hrp (front ++ y :: x :: back) = true) : x = y := by
  unfold verifyChecksum polymod at h h'
  rw [beq_iff_eq, ← List.append_assoc, List.foldl_append, List.foldl_cons, List.foldl_cons] at h h'
  apply polymodStep_swapped hx hy
  exact foldl_polymodStep_injective (polymodStep_lt _ (by omega)) (polymodStep_lt _ (by omega)) hback
    (h.trans h'.symm)

/-! ## Texts -/

/-- One character of the part after the last separator is replaced by one for another symbol, or two
different neighbours there are exchanged. -/
inductive Slip : PyStr → PyStr → Prop
  | replaced {front back : PyStr} {c d : CodePoint} (after : 49 ∉ c :: back)
      (alphabet : asciiLower d ∈ charset) (other : asciiLower d ≠ asciiLower c) :
      Slip (front ++ c :: back) (front ++ d :: back)
  | swapped {front back : PyStr} {c d : CodePoint} (after : 49 ∉ c :: d :: back) (other : c ≠ d) :
      Slip (front ++ c :: d :: back) (front ++ d :: c :: back)

/-- What the decoder has seen of a text that it takes. -/
theorem decodeLower_accepted {s hrp : PyStr} {payload : Bytes} (h : decodeLower s = some (hrp, payload)) :
    ∃ symbols : List Nat, s = hrp ++ 49 :: symbols.map charAt ∧ (∀ v ∈ symbols, v < 2 ^ 5) ∧
      verifyChecksum hrp symbols = true := by
  obtain ⟨data, hdata, hlt, -⟩ := groups payload
  refine ⟨data ++ createChecksum hrp data, ?_, symbols_lt hlt, ?_⟩
  · rw [← (encode_decodeLower h).1, encode_eq hdata]
  · exact (verifyChecksum_unique (createChecksum_length hrp data) createChecksum_lt).mpr rfl

theorem asciiLower_one {c : CodePoint} (h : asciiLower c = 49) : c = 49 := by
  unfold asciiLower at h
  split at h
  · have hval : c.val + 32 = 49 := congrArg Fin.val h
    omega
  · exact h

theorem asciiUpper_asciiLower (c : CodePoint) : asciiUpper (asciiLower c) = asciiUpper c := by
  unfold asciiLower
  split
  · rename_i hupper
    unfold asciiUpper
    rw [if_pos (by simp only; omega), if_neg (by omega)]
    exact Fin.ext (Nat.add_sub_cancel _ _)
  · rfl

/-- In a text of one case, different characters stay different when the case is folded. -/
theorem asciiLower_inj_of_case {s : PyStr} (hcase : s.map asciiLower = s ∨ s.map asciiUpper = s) {c d : CodePoint}
    (hc : c ∈ s) (hd : d ∈ s) (h : asciiLower c = asciiLower d) : c = d := by
  rcases hcase with hlower | hupper
  · have hfixed := List.map_inj_left.mp (hlower.trans (List.map_id s).symm)
    have hcfixed : asciiLower c = c := hfixed c hc
    have hdfixed : asciiLower d = d := hfixed d hd
    rw [← hcfixed, h, hdfixed]
  · have hfixed := List.map_inj_left.mp (hupper.trans (List.map_id s).symm)
    have hcfixed : asciiUpper c = c := hfixed c hc
    have hdfixed : asciiUpper d = d := hfixed d hd
    rw [← hcfixed, ← asciiUpper_asciiLower, h, asciiUpper_asciiLower, hdfixed]

theorem decode_case {s hrp : PyStr} {payload : Bytes} (h : decode s = some (hrp, payload)) :
    s.map asciiLower = s ∨ s.map asciiUpper = s := by
  unfold decode at h
  split at h
  · cases h
  · split at h
    · cases h
    · rename_i hcase
      by_contra hnone
      exact hcase ⟨fun hl => hnone (Or.inl hl), fun hu => hnone (Or.inr hu)⟩

theorem charAt_injective {d e : Nat} (hd : d < 2 ^ 5) (he : e < 2 ^ 5) (h : charAt d = charAt e) : d = e := by
  have hindex := idxOf?_charAt hd
  rw [h, idxOf?_charAt he] at hindex
  exact (Option.some.inj hindex).symm

theorem map_charAt_injective {a b : List Nat} (ha : ∀ v ∈ a, v < 2 ^ 5) (hb : ∀ v ∈ b, v < 2 ^ 5)
    (h : a.map charAt = b.map charAt) : a = b := by
  have hmap := mapM_idxOf? ha
  rw [h, mapM_idxOf? hb] at hmap
  exact (Option.some.inj hmap).symm

/-- An end without a separator lies in the part after the last one. -/
theorem tail_split {hrp front tail : PyStr} {symbols : List Nat} (h : hrp ++ 49 :: symbols.map charAt = front ++ tail)
    (htail : 49 ∉ tail) :
    ∃ mid rest, symbols = mid ++ rest ∧ front = hrp ++ 49 :: mid.map charAt ∧ tail = rest.map charAt := by
  rcases List.append_eq_append_iff.mp h with ⟨part, hfront, hrest⟩ | ⟨part, hhrp, hrest⟩
  · cases part with
    | nil => exact absurd ((show 49 :: symbols.map charAt = tail from hrest) ▸ List.mem_cons_self) htail
    | cons sep part =>
      obtain ⟨rfl, hmap⟩ := List.cons.inj hrest
      obtain ⟨mid, rest, rfl, rfl, rfl⟩ := List.map_eq_append_iff.mp hmap
      exact ⟨mid, rest, rfl, hfront, rfl⟩
  · exact absurd (hrest ▸ List.mem_append_right part List.mem_cons_self) htail

/-- The last separator splits a text in one way. -/
theorem separator_unique {hrp hrp' rest rest' : PyStr} (h : hrp ++ 49 :: rest = hrp' ++ 49 :: rest')
    (hrest : 49 ∉ rest) (hrest' : 49 ∉ rest') : hrp = hrp' ∧ rest = rest' := by
  have hlength : hrp.length = hrp'.length := by
    have hfind := @rfind_append hrp rest 49 hrest
    rw [h, rfind_append hrest'] at hfind
    exact (Option.some.inj hfind).symm
  obtain ⟨hhrp, hcons⟩ := List.append_inj h hlength
  exact ⟨hhrp, (List.cons.inj hcons).2⟩

/-- Two taken texts with one beginning have one human-readable part, and the symbols of the beginning are the
same; the symbols of their ends verify alike. -/
theorem accepted_tails {front tail tail' : PyStr} {out out' : PyStr × Bytes}
    (h : decodeLower (front ++ tail) = some out) (h' : decodeLower (front ++ tail') = some out')
    (htail : 49 ∉ tail) (htail' : 49 ∉ tail') :
    ∃ hrp mid rest rest', tail = rest.map charAt ∧ tail' = rest'.map charAt ∧
      (∀ v ∈ rest, v < 2 ^ 5) ∧ (∀ v ∈ rest', v < 2 ^ 5) ∧
      verifyChecksum hrp (mid ++ rest) = true ∧ verifyChecksum hrp (mid ++ rest') = true := by
  obtain ⟨hrp, payload⟩ := out
  obtain ⟨hrp', payload'⟩ := out'
  obtain ⟨symbols, hs, hlt, hverify⟩ := decodeLower_accepted h
  obtain ⟨symbols', hs', hlt', hverify'⟩ := decodeLower_accepted h'
  obtain ⟨mid, rest, rfl, hfront, rfl⟩ := tail_split hs.symm htail
  obtain ⟨mid', rest', rfl, hfront', rfl⟩ := tail_split hs'.symm htail'
  have hmid : ∀ v ∈ mid, v < 2 ^ 5 := fun v hv => hlt v (List.mem_append_left _ hv)
  have hmid' : ∀ v ∈ mid', v < 2 ^ 5 := fun v hv => hlt' v (List.mem_append_left _ hv)
  obtain ⟨rfl, hmap⟩ := separator_unique (hfront.symm.trans hfront')
    (fun hin => (map_charAt_plain hmid hin).2 rfl) fun hin => (map_charAt_plain hmid' hin).2 rfl
  obtain rfl := map_charAt_injective hmid hmid' hmap
  exact ⟨hrp, mid, rest, rest', rfl, rfl, fun v hv => hlt v (List.mem_append_right _ hv),
    fun v hv => hlt' v (List.mem_append_right _ hv), hverify, hverify'⟩

theorem not_mem_map_lower {s : PyStr} (h : 49 ∉ s) : 49 ∉ s.map asciiLower := by
  intro hin
  obtain ⟨c, hc, hone⟩ := List.mem_map.mp hin
  exact h (asciiLower_one hone ▸ hc)

theorem decode_replaced {front back : PyStr} {c d : CodePoint} {out : PyStr × Bytes} (after : 49 ∉ c :: back)
    (alphabet : asciiLower d ∈ charset) (other : asciiLower d ≠ asciiLower c)
    (h : decode (front ++ c :: back) = some out) : decode (front ++ d :: back) = none := by
  rw [Option.eq_none_iff_forall_not_mem]
  rintro out' h'
  have htail := not_mem_map_lower after
  have hback : 49 ∉ back.map asciiLower := fun hin => htail (List.mem_cons_of_mem _ hin)
  have htail' : 49 ∉ asciiLower d :: back.map asciiLower := by
    intro hin
    rcases List.mem_cons.mp hin with heq | hin
    · exact (charset_plain alphabet).2 heq.symm
    · exact hback hin
  have hlower := (decode_eq_some h).1
  have hlower' := (decode_eq_some h').1
  rw [List.map_append, List.map_cons] at hlower hlower'
  obtain ⟨hrp, mid, rest, rest', hrest, hrest', hlt, hlt', hverify, hverify'⟩ :=
    accepted_tails hlower hlower' htail htail'
  obtain ⟨x, bk, rfl, hx, hbk⟩ := List.map_eq_cons_iff.mp hrest.symm
  obtain ⟨y, bk', rfl, hy, hbk'⟩ := List.map_eq_cons_iff.mp hrest'.symm
  have hall : ∀ v ∈ bk, v < 2 ^ 5 := fun v hv => hlt v (List.mem_cons_of_mem x hv)
  obtain rfl := map_charAt_injective hall (fun v hv => hlt' v (List.mem_cons_of_mem y hv)) (hbk.trans hbk'.symm)
  have heq := verify_replaced (hlt x List.mem_cons_self) (hlt' y List.mem_cons_self) hall hverify hverify'
  exact other (hy.symm.trans (heq ▸ hx))

theorem decode_swapped {front back : PyStr} {c d : CodePoint} {out : PyStr × Bytes} (after : 49 ∉ c :: d :: back)
    (other : c ≠ d) (h : decode (front ++ c :: d :: back) = some out) : decode (front ++ d :: c :: back) = none := by
  rw [Option.eq_none_iff_forall_not_mem]
  rintro out' h'
  have hdifferent : asciiLower c ≠ asciiLower d :=
    fun heq => other (asciiLower_inj_of_case (decode_case h) (by simp) (by simp) heq)
  have htail := not_mem_map_lower after
  have htail' : 49 ∉ (d :: c :: back).map asciiLower := by
    apply not_mem_map_lower
    intro hin
    apply after
    simp only [List.mem_cons] at hin ⊢
    rcases hin with hd | hc | hback
    · exact Or.inr (Or.inl hd)
    · exact Or.inl hc
    · exact Or.inr (Or.inr hback)
  have hlower := (decode_eq_some h).1
  have hlower' := (decode_eq_some h').1
  rw [List.map_append] at hlower hlower'
  obtain ⟨hrp, mid, rest, rest', hrest, hrest', hlt, hlt', hverify, hverify'⟩ :=
    accepted_tails hlower hlower' htail htail'
  obtain ⟨x, tail, rfl, hx, htailMap⟩ := List.map_eq_cons_iff.mp hrest.symm
  obtain ⟨y, bk, rfl, hy, hbk⟩ := List.map_eq_cons_iff.mp htailMap
  obtain ⟨y', tail', rfl, hy', htailMap'⟩ := List.map_eq_cons_iff.mp hrest'.symm
  obtain ⟨x', bk', rfl, hx', hbk'⟩ := List.map_eq_cons_iff.mp htailMap'
  have hall : ∀ v ∈ bk, v < 2 ^ 5 := fun v hv => hlt v (by simp [hv])
  obtain rfl := map_charAt_injective hall (fun v hv => hlt' v (by simp [hv])) (hbk.trans hbk'.symm)
  have hxlt := hlt x (by simp)
  have hylt := hlt y (by simp)
  obtain rfl := charAt_injective hxlt (hlt' x' (by simp)) (hx.trans hx'.symm)
  obtain rfl := charAt_injective hylt (hlt' y' (by simp)) (hy.trans hy'.symm)
  have heq := verify_swapped hxlt hylt hall hverify hverify'
  exact hdifferent (hx.symm.trans (heq ▸ hy))

end Rdap.Protocol.Bech32m

namespace Rdap.Protocol
open Python

theorem Bech32m.Slip.rejected {s t : PyStr} (hslip : Bech32m.Slip s t) {out : PyStr × Bytes}
    (h : Bech32m.decode s = some out) : Bech32m.decode t = none := by
  cases hslip with
  | replaced after alphabet other => exact Bech32m.decode_replaced after alphabet other h
  | swapped after other => exact Bech32m.decode_swapped after other h

theorem asciiLower_visible {c : CodePoint} (h : asciiLower c ∈ Bech32m.charset) : 33 ≤ c.val ∧ c.val ≤ 126 := by
  have hplain := (Bech32m.charset_plain h).1
  have hlow := hplain.1
  have hhigh := hplain.2.1
  unfold asciiLower at hlow hhigh
  split at hlow
  · simp only at hlow hhigh
    omega
  · rename_i hnot
    rw [dif_neg hnot] at hhigh
    exact ⟨hlow, hhigh⟩

/-- A slip brings no blanks into a text. -/
theorem Bech32m.Slip.visible {s t : PyStr} (hslip : Bech32m.Slip s t) (h : ∀ c ∈ s, 33 ≤ c.val ∧ c.val ≤ 126) :
    ∀ c ∈ t, 33 ≤ c.val ∧ c.val ≤ 126 := by
  intro c hc
  cases hslip with
  | replaced after alphabet other =>
    simp only [List.mem_append, List.mem_cons] at h hc
    rcases hc with hfront | rfl | hback
    · exact h c (Or.inl hfront)
    · exact asciiLower_visible alphabet
    · exact h c (Or.inr (Or.inr hback))
  | swapped after other =>
    simp only [List.mem_append, List.mem_cons] at h hc
    exact h c (by tauto)

/-- No typing slip leads from a text that is taken to another one, nor from an address to another one. -/
theorem typing_slip_rejected {s t : PyStr} (hslip : Bech32m.Slip s t) {out : PyStr × Bytes}
    (h : Bech32m.decode s = some out) : Bech32m.decode t = none ∧ Address.decode t = none := by
  have hrejected := hslip.rejected h
  refine ⟨hrejected, ?_⟩
  have hvisible := hslip.visible (Bech32m.decode_eq_some h).2
  unfold Address.decode
  rw [strip_of_spaceless fun c hc => visible_not_space (hvisible c hc), hrejected]

theorem two_slips_rejected :
    Bech32m.decode (lit "rvn1qryslkvc0w") = none ∧ Bech32m.decode (lit "RVN1QYRSLKVC0P") = none := by
  have hlower : Bech32m.decode (lit "rvn1qyrslkvc0w") = some (lit "rvn", [1, 7]) := by decide +kernel
  have hupper : Bech32m.decode (lit "RVN1QYRSLKVC0W") = some (lit "rvn", [1, 7]) := by decide +kernel
  constructor
  · exact (typing_slip_rejected (@Bech32m.Slip.swapped (lit "rvn1q") (lit "slkvc0w") 121 114 (by decide)
      (by decide)) hlower).1
  · exact (typing_slip_rejected (@Bech32m.Slip.replaced (lit "RVN1QYRSLKVC0") [] 87 80 (by decide)
      (by decide) (by decide)) hupper).1

end Rdap.Protocol
