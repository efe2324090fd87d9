import Rdap.Lib.Radix
import Rdap.Protocol.Bech32m

/-!
# Regrouping bits is a change of radix

The accumulator of the loop is the number that the groups so far stand for, and what was put out
are its digits but for the bits still in the buffer. Padding multiplies by a power of two that is
less than a group, and without padding just that much may be left over.
-/

set_option autoImplicit false

namespace Rdap.Protocol.Bech32m
open Lib

theorem groupMask (t n : Nat) : n &&& ((1 <<< t) - 1) = n % 2 ^ t := by
  rw [Nat.one_shiftLeft, Nat.and_two_pow_sub_one_eq_mod]

/-- The output so far are the digits of the accumulator above the bits that wait. -/
structure Grouped (tobits : Nat) (buffer : BitBuffer) : Prop where
  value : number (2 ^ tobits) buffer.ret = buffer.acc / 2 ^ buffer.bits
  digits : ∀ d ∈ buffer.ret, d < 2 ^ tobits

theorem drainBits_grouped {acc tobits turns bits : Nat} {ret : List Nat}
    (h : Grouped tobits ⟨acc, bits, ret⟩) :
    Grouped tobits ⟨acc, (drainBits acc tobits turns bits ret).1, (drainBits acc tobits turns bits ret).2⟩ := by
  induction turns generalizing bits ret with
  | zero => exact h
  | succ turns ih =>
    unfold drainBits
    split
    · rename_i hge
      apply ih
      have hsplit : acc / 2 ^ bits = acc / 2 ^ (bits - tobits) / 2 ^ tobits := by
        rw [Nat.div_div_eq_div_mul, ← Nat.pow_add, Nat.sub_add_cancel hge]
      have hvalue : number (2 ^ tobits) ret = acc / 2 ^ bits := h.value
      constructor
      · simp only
        rw [number_concat, hvalue, groupMask, Nat.shiftRight_eq_div_pow, hsplit]
        exact Nat.div_add_mod' _ _
      · intro d hd
        rcases List.mem_append.mp hd with hd | hd
        · exact h.digits d hd
        · rw [List.mem_singleton.mp hd, groupMask]
          exact Nat.mod_lt _ (Nat.two_pow_pos tobits)
    · exact h

theorem pushBits_grouped {frombits tobits value : Nat} {buffer : BitBuffer} (hvalue : value < 2 ^ frombits)
    (h : Grouped tobits buffer) :
    ∃ next, pushBits frombits tobits buffer value = some next ∧ Grouped tobits next ∧
      next.acc = buffer.acc * 2 ^ frombits + value := by
  have hacc : (buffer.acc <<< frombits) ||| value = buffer.acc * 2 ^ frombits + value := by
    rw [← Nat.shiftLeft_add_eq_or_of_lt hvalue, Nat.shiftLeft_eq]
  have hfits : ¬value >>> frombits ≠ 0 := by
    rw [Nat.shiftRight_eq_div_pow, Nat.div_eq_of_lt hvalue]
    simp
  unfold pushBits
  rw [if_neg hfits]
  refine ⟨_, rfl, drainBits_grouped ⟨?_, h.digits⟩, hacc⟩
  have hdiv : (buffer.acc * 2 ^ frombits + value) / 2 ^ frombits = buffer.acc := by
    rw [Nat.mul_comm, Nat.mul_add_div (Nat.two_pow_pos frombits), Nat.div_eq_of_lt hvalue, Nat.add_zero]
  simp only
  rw [h.value, hacc, Nat.add_comm buffer.bits, Nat.pow_add, ← Nat.div_div_eq_div_mul, hdiv]

theorem foldlM_pushBits_grouped {frombits tobits : Nat} {data : List Nat} (hdata : ∀ v ∈ data, v < 2 ^ frombits)
    {buffer : BitBuffer} (h : Grouped tobits buffer) :
    ∃ last, data.foldlM (pushBits frombits tobits) buffer = some last ∧ Grouped tobits last ∧
      last.acc = data.foldl (fun n d => n * 2 ^ frombits + d) buffer.acc := by
  induction data generalizing buffer with
  | nil => exact ⟨buffer, rfl, h, rfl⟩
  | cons v vs ih =>
    obtain ⟨next, hnext, hgrouped, hacc⟩ := pushBits_grouped (hdata v List.mem_cons_self) h
    obtain ⟨last, hlast, hfinal, hvalue⟩ := ih (fun w hw => hdata w (List.mem_cons_of_mem v hw)) hgrouped
    refine ⟨last, ?_, hfinal, ?_⟩
    · rw [List.foldlM_cons, hnext]
      exact hlast
    · rw [hvalue, hacc, List.foldl_cons]

/-- What the loop leaves for groups of the declared width. -/
theorem regroup {frombits tobits : Nat} (hpos : 0 < tobits) {data : List Nat}
    (hdata : ∀ v ∈ data, v < 2 ^ frombits) :
    ∃ last, data.foldlM (pushBits frombits tobits) ⟨0, 0, []⟩ = some last ∧ Grouped tobits last ∧
      last.acc = number (2 ^ frombits) data ∧ last.bits < tobits ∧
      data.length * frombits = last.ret.length * tobits + last.bits := by
  have hstart : Grouped tobits ⟨0, 0, []⟩ := ⟨by simp, by simp⟩
  obtain ⟨last, hlast, hgrouped, hacc⟩ := foldlM_pushBits_grouped hdata hstart
  have hempty : (⟨0, 0, []⟩ : BitBuffer).bits < tobits := hpos
  obtain ⟨hcount, hbits⟩ := foldlM_pushBits_count hpos hempty hlast
  simp only [List.length_nil, Nat.zero_mul, Nat.zero_add] at hcount
  exact ⟨last, hlast, hgrouped, hacc, hbits, hcount.symm⟩

/-- The waiting bits, moved to the top of a group. -/
theorem leftover {acc bits tobits : Nat} (hbits : bits ≤ tobits) :
    (acc <<< (tobits - bits)) &&& ((1 <<< tobits) - 1) = acc % 2 ^ bits * 2 ^ (tobits - bits) := by
  have hsplit : 2 ^ tobits = 2 ^ bits * 2 ^ (tobits - bits) := by
    rw [← Nat.pow_add, Nat.add_sub_cancel' hbits]
  rw [groupMask, Nat.shiftLeft_eq, hsplit, Nat.mul_mod_mul_right]

/-- With padding the groups stand for the number times what the last group lacks. -/
theorem convertbits_pad {frombits tobits : Nat} (hpos : 0 < tobits) {data : List Nat}
    (hdata : ∀ v ∈ data, v < 2 ^ frombits) :
    ∃ out pad, convertbits data frombits tobits true = some out ∧ pad < tobits ∧
      out.length * tobits = data.length * frombits + pad ∧ (∀ d ∈ out, d < 2 ^ tobits) ∧
      number (2 ^ tobits) out = number (2 ^ frombits) data * 2 ^ pad := by
  obtain ⟨last, hlast, hgrouped, hacc, hbits, hcount⟩ := regroup hpos hdata
  unfold convertbits
  rw [hlast, ← hacc]
  simp only [if_true]
  split
  · rename_i hne
    rw [leftover (Nat.le_of_lt hbits)]
    have hsplit : 2 ^ tobits = 2 ^ last.bits * 2 ^ (tobits - last.bits) := by
      rw [← Nat.pow_add, Nat.add_sub_cancel' (Nat.le_of_lt hbits)]
    refine ⟨_, tobits - last.bits, rfl, by omega, ?_, ?_, ?_⟩
    · rw [List.length_append, List.length_singleton, Nat.add_mul]
      omega
    · intro d hd
      rcases List.mem_append.mp hd with hd | hd
      · exact hgrouped.digits d hd
      · rw [List.mem_singleton.mp hd, hsplit]
        exact Nat.mul_lt_mul_of_pos_right (Nat.mod_lt _ (Nat.two_pow_pos _)) (Nat.two_pow_pos _)
    · rw [number_concat, hgrouped.value, hsplit, ← Nat.mul_assoc, ← Nat.add_mul, Nat.div_add_mod']
  · rename_i hzero
    have hempty : last.bits = 0 := by omega
    refine ⟨_, 0, rfl, hpos, by omega, hgrouped.digits, ?_⟩
    rw [hgrouped.value, hempty, Nat.pow_zero, Nat.div_one, Nat.mul_one]

/-- Without padding, what is left over is less than a group and zero. -/
theorem convertbits_exact {frombits tobits : Nat} (hpos : 0 < tobits) {data out : List Nat}
    (hdata : ∀ v ∈ data, v < 2 ^ frombits) :
    convertbits data frombits tobits false = some out ↔
      (∀ d ∈ out, d < 2 ^ tobits) ∧ ∃ rest, rest < frombits ∧ rest < tobits ∧
        data.length * frombits = out.length * tobits + rest ∧
        number (2 ^ frombits) data = number (2 ^ tobits) out * 2 ^ rest := by
  obtain ⟨last, hlast, hgrouped, hacc, hbits, hcount⟩ := regroup hpos hdata
  have hone : 1 < 2 ^ tobits := Nat.one_lt_two_pow (Nat.ne_of_gt hpos)
  unfold convertbits
  rw [hlast, ← hacc]
  simp only [Bool.false_eq_true, if_false]
  rw [leftover (Nat.le_of_lt hbits)]
  constructor
  · intro h
    split at h
    · cases h
    · rename_i hrest
      obtain rfl := Option.some.inj h
      rw [not_or, not_not, Nat.mul_eq_zero, or_iff_left (Nat.ne_of_gt (Nat.two_pow_pos _))] at hrest
      refine ⟨hgrouped.digits, last.bits, Nat.lt_of_not_le hrest.1, hbits, hcount, ?_⟩
      rw [hgrouped.value]
      exact (Nat.div_mul_cancel (Nat.dvd_of_mod_eq_zero hrest.2)).symm
  · rintro ⟨hdigits, rest, hfrom, hto, hlength, hvalue⟩
    have hsame : last.ret.length = out.length ∧ last.bits = rest := by
      have hdiv : (last.ret.length * tobits + last.bits) / tobits = (out.length * tobits + rest) / tobits := by
        rw [← hcount, hlength]
      rw [Nat.mul_comm, Nat.mul_add_div hpos, Nat.div_eq_of_lt hbits, Nat.mul_comm out.length,
        Nat.mul_add_div hpos, Nat.div_eq_of_lt hto] at hdiv
      have heq : last.ret.length = out.length := by omega
      rw [heq] at hcount
      omega
    obtain ⟨hlen, rfl⟩ := hsame
    have hzero : last.acc % 2 ^ last.bits = 0 := by
      rw [hvalue]
      exact Nat.mul_mod_left _ _
    rw [if_neg]
    · apply congrArg some
      apply number_injective hone hlen hgrouped.digits hdigits
      rw [hgrouped.value, hvalue, Nat.mul_div_cancel _ (Nat.two_pow_pos _)]
    · rw [hzero]
      omega

/-- Padded groups regroup to what they were made from. -/
theorem convertbits_back {wide narrow : Nat} (hpos : 0 < narrow) (hle : narrow ≤ wide) {data : List Nat}
    (hdata : ∀ v ∈ data, v < 2 ^ wide) :
    ∃ out, convertbits data wide narrow true = some out ∧ (∀ d ∈ out, d < 2 ^ narrow) ∧
      convertbits out narrow wide false = some data := by
  obtain ⟨out, pad, hout, hpad, hlength, hdigits, hvalue⟩ := convertbits_pad hpos hdata
  refine ⟨out, hout, hdigits, ?_⟩
  rw [convertbits_exact (Nat.lt_of_lt_of_le hpos hle) hdigits]
  exact ⟨hdata, pad, hpad, Nat.lt_of_lt_of_le hpad hle, hlength, hvalue⟩

/-- Groups that are taken without padding are the padded groups of what they regroup to. -/
theorem convertbits_forth {wide narrow : Nat} (hpos : 0 < narrow) (hwide : 0 < wide) {data out : List Nat}
    (hout : ∀ d ∈ out, d < 2 ^ narrow) (h : convertbits out narrow wide false = some data) :
    (∀ v ∈ data, v < 2 ^ wide) ∧ convertbits data wide narrow true = some out := by
  obtain ⟨hdata, rest, hrest, -, hlength, hvalue⟩ := (convertbits_exact hwide hout).mp h
  refine ⟨hdata, ?_⟩
  obtain ⟨out', pad, hpadded, hpad, hlength', hdigits, hvalue'⟩ := convertbits_pad hpos hdata
  have hone : 1 < 2 ^ narrow := Nat.one_lt_two_pow (Nat.ne_of_gt hpos)
  have hsame : out'.length = out.length ∧ pad = rest := by
    have hlt : out'.length * narrow < (out.length + 1) * narrow := by
      rw [Nat.add_mul]
      omega
    have hgt : out.length * narrow < (out'.length + 1) * narrow := by
      rw [Nat.add_mul]
      omega
    have heq : out'.length = out.length := by
      have hle := Nat.lt_of_mul_lt_mul_right hlt
      have hge := Nat.lt_of_mul_lt_mul_right hgt
      omega
    rw [heq] at hlength'
    omega
  obtain ⟨hlen, rfl⟩ := hsame
  rw [hpadded]
  apply congrArg some
  apply number_injective hone hlen hdigits hout
  rw [hvalue', hvalue]

end Rdap.Protocol.Bech32m
