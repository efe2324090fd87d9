import Rdap.Protocol.Regrouping

/-!
# The Bech32m checksum

A step of the remainder is linear in exclusive or, and six symbols that start from remainder zero
are just packed. Six symbols after some data therefore shift the remainder of the data with six
zeros by their own value, and one choice of them makes it the constant.
-/

set_option autoImplicit false

namespace Rdap.Protocol.Bech32m
open Lib Python

/-! ## Linearity -/

def genAt (b i : Nat) : Nat := if (b >>> i) &&& 1 = 1 then gen.getD i 0 else 0

theorem and_one_eq_one_iff (b : Nat) : b &&& 1 = 1 ↔ b.testBit 0 = true := by
  rw [Nat.testBit_zero, Nat.and_one_is_mod, decide_eq_true_eq]

theorem genAt_xor (a b i : Nat) : genAt (a ^^^ b) i = genAt a i ^^^ genAt b i := by
  have hbit : ∀ n, genAt n i = if n.testBit i = true then gen.getD i 0 else 0 := by
    intro n
    unfold genAt
    simp only [and_one_eq_one_iff, Nat.testBit_shiftRight, Nat.add_zero]
  rw [hbit, hbit, hbit, Nat.testBit_xor]
  cases a.testBit i <;> cases b.testBit i <;> simp

theorem xor_swap (a b c d : Nat) : (a ^^^ b) ^^^ (c ^^^ d) = (a ^^^ c) ^^^ (b ^^^ d) := by
  rw [Nat.xor_assoc, Nat.xor_assoc, ← Nat.xor_assoc b c, Nat.xor_comm b c, Nat.xor_assoc c b]

theorem foldl_xor (f g : Nat → Nat) (is : List Nat) (x y : Nat) :
    is.foldl (fun c i => c ^^^ (f i ^^^ g i)) (x ^^^ y) =
      is.foldl (fun c i => c ^^^ f i) x ^^^ is.foldl (fun c i => c ^^^ g i) y := by
  induction is generalizing x y with
  | nil => rfl
  | cons i is ih =>
    rw [List.foldl_cons, List.foldl_cons, List.foldl_cons, xor_swap]
    exact ih (x ^^^ f i) (y ^^^ g i)

theorem polymodStep_eq (chk v : Nat) : polymodStep chk v =
    (List.range 5).foldl (fun c i => c ^^^ genAt (chk >>> 25) i) (((chk &&& 0x1ffffff) <<< 5) ^^^ v) := rfl

/-- A step is linear in the remainder and the symbol together. -/
theorem polymodStep_xor (a b v w : Nat) :
    polymodStep (a ^^^ b) (v ^^^ w) = polymodStep a v ^^^ polymodStep b w := by
  rw [polymodStep_eq, polymodStep_eq, polymodStep_eq, ← foldl_xor]
  have hgen : (fun c i => c ^^^ genAt ((a ^^^ b) >>> 25) i) =
      fun c i => c ^^^ (genAt (a >>> 25) i ^^^ genAt (b >>> 25) i) := by
    funext c i
    rw [Nat.shiftRight_xor_distrib, genAt_xor]
  rw [hgen, Nat.and_xor_distrib_right, Nat.shiftLeft_xor_distrib, xor_swap]

/-- Symbols act on the remainder as on zero, beside what zeros make of it. -/
theorem foldl_polymodStep (chk : Nat) (symbols : List Nat) :
    symbols.foldl polymodStep chk =
      (List.replicate symbols.length 0).foldl polymodStep chk ^^^ symbols.foldl polymodStep 0 := by
  have hlinear : ∀ (x y : Nat), symbols.foldl polymodStep (x ^^^ y) =
      (List.replicate symbols.length 0).foldl polymodStep x ^^^ symbols.foldl polymodStep y := by
    induction symbols with
    | nil => exact fun _ _ => rfl
    | cons v vs ih =>
      intro x y
      have hstep := polymodStep_xor x y 0 v
      rw [Nat.zero_xor] at hstep
      rw [List.length_cons, List.replicate_succ, List.foldl_cons, List.foldl_cons, List.foldl_cons, hstep, ih]
  have h := hlinear chk 0
  rw [Nat.xor_zero] at h
  exact h

/-! ## Few symbols are packed -/

theorem shiftLeft_xor_of_lt {i v : Nat} (n : Nat) (hv : v < 2 ^ i) : (n <<< i) ^^^ v = n * 2 ^ i + v := by
  apply Nat.eq_of_testBit_eq
  intro j
  rw [Nat.mul_comm, Nat.testBit_two_pow_mul_add n hv, Nat.testBit_xor, Nat.testBit_shiftLeft]
  by_cases hj : j < i
  · have hnot : ¬j ≥ i := Nat.not_le_of_lt hj
    simp [hj, hnot]
  · have hge : i ≤ j := Nat.le_of_not_lt hj
    have hzero : v.testBit j = false :=
      Nat.testBit_lt_two_pow (Nat.lt_of_lt_of_le hv (Nat.pow_le_pow_right (by decide) hge))
    simp [hj, hge, hzero]

theorem polymodStep_small {chk v : Nat} (hchk : chk < 2 ^ 25) (hv : v < 2 ^ 5) :
    polymodStep chk v = chk * 2 ^ 5 + v := by
  have htop : chk >>> 25 = 0 := by
    rw [Nat.shiftRight_eq_div_pow]
    exact Nat.div_eq_of_lt hchk
  have hlow : chk &&& 0x1ffffff = chk := by
    have hmask : 0x1ffffff = 2 ^ 25 - 1 := by decide
    rw [hmask, Nat.and_two_pow_sub_one_eq_mod]
    exact Nat.mod_eq_of_lt hchk
  have hgen : ∀ i, genAt 0 i = 0 := by
    intro i
    simp [genAt]
  rw [polymodStep_eq, htop, hlow]
  simp only [hgen, Nat.xor_zero]
  rw [List.foldl_fixed]
  exact shiftLeft_xor_of_lt chk hv

theorem foldl_polymodStep_number {symbols : List Nat} (hcount : symbols.length ≤ 6)
    (h : ∀ v ∈ symbols, v < 2 ^ 5) :
    symbols.foldl polymodStep 0 = number (2 ^ 5) symbols := by
  induction symbols using List.reverseRecOn with
  | nil => rfl
  | append_singleton vs v ih =>
    rw [List.length_append, List.length_singleton] at hcount
    have hvs : ∀ w ∈ vs, w < 2 ^ 5 := fun w hw => h w (List.mem_append_left _ hw)
    have hlt := number_lt (by decide) hvs
    have hsmall : number (2 ^ 5) vs < 2 ^ 25 := by
      refine Nat.lt_of_lt_of_le hlt ?_
      rw [← Nat.pow_mul]
      exact Nat.pow_le_pow_right (by decide) (by omega)
    rw [List.foldl_append, ih (by omega) hvs, List.foldl_cons, List.foldl_nil, number_concat]
    exact polymodStep_small hsmall (h v (List.mem_append_right _ (List.mem_singleton_self v)))

/-! ## The one checksum -/

theorem genAt_lt (b i : Nat) : genAt b i < 2 ^ 30 := by
  unfold genAt
  split
  · have hall : ∀ g ∈ gen, g < 2 ^ 30 := by decide
    rw [List.getD_eq_getElem?_getD]
    cases hg : gen[i]? with
    | none => exact Nat.two_pow_pos 30
    | some g => exact hall g (List.mem_of_getElem? hg)
  · exact Nat.two_pow_pos 30

theorem polymodStep_lt (chk : Nat) {v : Nat} (hv : v < 2 ^ 30) : polymodStep chk v < 2 ^ 30 := by
  have hfold : ∀ (is : List Nat) (c : Nat), c < 2 ^ 30 →
      is.foldl (fun c i => c ^^^ genAt (chk >>> 25) i) c < 2 ^ 30 := by
    intro is
    induction is with
    | nil => exact fun c hc => hc
    | cons i is ih => exact fun c hc => ih _ (Nat.xor_lt_two_pow hc (genAt_lt _ i))
  rw [polymodStep_eq]
  apply hfold
  apply Nat.xor_lt_two_pow _ hv
  have hlow : chk &&& 0x1ffffff < 2 ^ 25 := Nat.and_lt_two_pow chk (by decide)
  rw [Nat.shiftLeft_eq]
  omega

theorem foldl_polymodStep_lt {symbols : List Nat} (chk : Nat) (hne : symbols ≠ [])
    (h : ∀ v ∈ symbols, v < 2 ^ 30) : symbols.foldl polymodStep chk < 2 ^ 30 := by
  induction symbols using List.reverseRecOn with
  | nil => exact absurd rfl hne
  | append_singleton vs v _ =>
    rw [List.foldl_append, List.foldl_cons, List.foldl_nil]
    exact polymodStep_lt _ (h v (List.mem_append_right vs (List.mem_singleton_self v)))

/-- The value that the last six symbols have to have. -/
def wanted (hrp : PyStr) (data : List Nat) : Nat :=
  polymod (hrpExpand hrp ++ data ++ [0, 0, 0, 0, 0, 0]) ^^^ bech32mConst

theorem wanted_lt (hrp : PyStr) (data : List Nat) : wanted hrp data < 2 ^ 30 := by
  apply Nat.xor_lt_two_pow ?_ (by decide)
  unfold polymod
  rw [List.foldl_append]
  exact foldl_polymodStep_lt _ (by decide) (by decide)

theorem verifyChecksum_iff {hrp : PyStr} {data symbols : List Nat} (hcount : symbols.length = 6)
    (h : ∀ v ∈ symbols, v < 2 ^ 5) :
    verifyChecksum hrp (data ++ symbols) = true ↔ number (2 ^ 5) symbols = wanted hrp data := by
  have hzeros : List.replicate symbols.length 0 = [0, 0, 0, 0, 0, 0] := by
    rw [hcount]
    rfl
  unfold verifyChecksum wanted polymod
  rw [← List.append_assoc, List.foldl_append, foldl_polymodStep, hzeros,
    foldl_polymodStep_number (Nat.le_of_eq hcount) h, ← List.foldl_append, beq_iff_eq]
  constructor
  · intro heq
    rw [← heq, ← Nat.xor_assoc, Nat.xor_self, Nat.zero_xor]
  · intro heq
    rw [heq, ← Nat.xor_assoc, Nat.xor_self, Nat.zero_xor]

theorem createChecksum_length (hrp : PyStr) (data : List Nat) : (createChecksum hrp data).length = 6 := by
  simp [createChecksum]

theorem createChecksum_lt {hrp : PyStr} {data : List Nat} : ∀ v ∈ createChecksum hrp data, v < 2 ^ 5 := by
  intro v hv
  obtain ⟨i, -, rfl⟩ := List.mem_map.mp hv
  exact Nat.and_lt_two_pow _ (by decide)

/-- The created symbols are the digits of the wanted value. -/
theorem number_createChecksum (hrp : PyStr) (data : List Nat) :
    number (2 ^ 5) (createChecksum hrp data) = wanted hrp data := by
  have hlt := wanted_lt hrp data
  have hdigit : ∀ k, (wanted hrp data >>> k) &&& 31 = wanted hrp data / 2 ^ k % 32 := by
    intro k
    have hmask : 31 = 2 ^ 5 - 1 := by decide
    rw [hmask, Nat.and_two_pow_sub_one_eq_mod, Nat.shiftRight_eq_div_pow]
  have hdigits : createChecksum hrp data =
      (List.range 6).map fun i => wanted hrp data / 2 ^ (5 * (5 - i)) % 32 := by
    apply List.map_congr_left
    intro i _
    exact hdigit _
  rw [hdigits]
  generalize wanted hrp data = n at hlt
  simp only [number, List.range, List.range.loop, List.map_cons, List.map_nil, List.foldl_cons, List.foldl_nil]
  omega

/-- The symbols that verify are the created ones. -/
theorem verifyChecksum_unique {hrp : PyStr} {data symbols : List Nat} (hcount : symbols.length = 6)
    (h : ∀ v ∈ symbols, v < 2 ^ 5) :
    verifyChecksum hrp (data ++ symbols) = true ↔ symbols = createChecksum hrp data := by
  rw [verifyChecksum_iff hcount h, ← number_createChecksum]
  constructor
  · intro heq
    have hlength := hcount.trans (createChecksum_length hrp data).symm
    exact number_injective (by decide) hlength h createChecksum_lt heq
  · intro heq
    rw [heq]

end Rdap.Protocol.Bech32m
