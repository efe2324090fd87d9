import Rdap.Python.Value

/-!
# Hexadecimal text

`bytes.fromhex` reads digits in either case and skips blanks between bytes. Text without blanks
that it reads is, in lower case, what `bytes.hex` writes.
-/

set_option autoImplicit false

namespace Rdap.Python

theorem asciiLower_hexDigit (c : CodePoint) : hexDigit (asciiLower c) = hexDigit c := by
  by_cases hupper : 65 ≤ c.val ∧ c.val ≤ 90
  · have hlower : asciiLower c = ⟨c.val + 32, by omega⟩ := dif_pos hupper
    have hdigit : ¬(48 ≤ c.val ∧ c.val ≤ 57) := by omega
    have hsmall : ¬(97 ≤ c.val ∧ c.val ≤ 102) := by omega
    have hdigit' : ¬(48 ≤ c.val + 32 ∧ c.val + 32 ≤ 57) := by omega
    have hlarge' : ¬(65 ≤ c.val + 32 ∧ c.val + 32 ≤ 70) := by omega
    simp only [hlower, hexDigit, hdigit, hsmall, hdigit', hlarge', if_false]
    by_cases hhex : c.val ≤ 70
    · rw [if_pos (by omega), if_pos (by omega)]
      exact congrArg some (by omega)
    · rw [if_neg (by omega), if_neg (by omega)]
  · have hsame : asciiLower c = c := dif_neg hupper
    rw [hsame]

theorem asciiLower_space (c : CodePoint) : isAsciiSpace (asciiLower c) = isAsciiSpace c := by
  by_cases hupper : 65 ≤ c.val ∧ c.val ≤ 90
  · have hlower : asciiLower c = ⟨c.val + 32, by omega⟩ := dif_pos hupper
    have hspace : ∀ d : CodePoint, 65 ≤ d.val → isAsciiSpace d = false := by
      intro d hd
      simp only [isAsciiSpace, Bool.or_eq_false_iff, Bool.and_eq_false_iff, decide_eq_false_iff_not,
        beq_eq_false_iff_ne]
      refine ⟨Or.inr (by omega), ?_⟩
      have h32 : (32 : CodePoint).val = 32 := rfl
      exact fun h => by rw [h] at hd; omega
    rw [hspace c hupper.1, hlower]
    exact hspace _ (Nat.le_add_right_of_le hupper.1)
  · have hsame : asciiLower c = c := dif_neg hupper
    rw [hsame]

/-- The digits of a key may be in either case. -/
theorem fromhex_map_lower (s : PyStr) : fromhex (s.map asciiLower) = fromhex s := by
  induction s using fromhex.induct with
  | case1 => rfl
  | case2 c rest hspace ih =>
    rw [List.map_cons, fromhex.eq_def, fromhex.eq_def (c :: rest)]
    simp only [asciiLower_space, hspace, if_true, ih]
  | case3 c hspace hi d rest hhi lo hlo ih =>
    rw [List.map_cons, List.map_cons, fromhex.eq_def, fromhex.eq_def (c :: d :: rest)]
    simp only [asciiLower_space, hspace, Bool.false_eq_true, if_false, asciiLower_hexDigit, hhi, hlo, ih]
  | case4 c hspace hi d rest hhi hlo =>
    rw [List.map_cons, List.map_cons, fromhex.eq_def, fromhex.eq_def (c :: d :: rest)]
    simp only [asciiLower_space, hspace, Bool.false_eq_true, if_false, asciiLower_hexDigit, hhi, hlo]
  | case5 c rest hspace hnone =>
    rw [List.map_cons, fromhex.eq_def, fromhex.eq_def (c :: rest)]
    simp only [asciiLower_space, hspace, asciiLower_hexDigit]
    cases hdigit : hexDigit c with
    | none => rfl
    | some hi =>
      cases rest with
      | nil => rfl
      | cons d rest => exact absurd rfl (hnone hi d rest hdigit)

theorem hexDigit_ascii {c : CodePoint} {d : Nat} (h : hexDigit c = some d) : isAscii c = true := by
  apply decide_eq_true
  by_contra hlarge
  unfold hexDigit at h
  rw [if_neg (by omega), if_neg (by omega), if_neg (by omega)] at h
  cases h

/-- What is read is nothing, or begins with a blank, or with the two digits of a byte. -/
theorem fromhex_induction {M : PyStr → Bytes → Prop} (nil : M [] [])
    (blank : ∀ c rest b, isAsciiSpace c = true → M rest b → M (c :: rest) b)
    (byte : ∀ c d rest b hi lo, hexDigit c = some hi → hexDigit d = some lo → M rest b →
      M (c :: d :: rest) (UInt8.ofNat (hi * 16 + lo) :: b))
    {s : PyStr} {b : Bytes} (h : fromhex s = .ok b) : M s b := by
  induction s using fromhex.induct generalizing b with
  | case1 =>
    obtain rfl := Except.ok.inj h
    exact nil
  | case2 c rest hspace ih =>
    rw [fromhex.eq_def] at h
    simp only [hspace, if_true] at h
    exact blank c rest b hspace (ih h)
  | case3 c hspace hi d rest hhi lo hlo ih =>
    rw [fromhex.eq_def] at h
    simp only [hspace, Bool.false_eq_true, if_false, hhi, hlo] at h
    cases hrest : fromhex rest with
    | error e => rw [hrest] at h; cases h
    | ok bytes =>
      rw [hrest] at h
      obtain rfl := Except.ok.inj h
      exact byte c d rest bytes hi lo hhi hlo (ih hrest)
  | case4 c hspace hi d rest hhi hlo =>
    rw [fromhex.eq_def] at h
    simp only [hspace, Bool.false_eq_true, if_false, hhi, hlo] at h
    cases h
  | case5 c rest hspace hnone =>
    rw [fromhex.eq_def] at h
    simp only [hspace] at h
    cases hdigit : hexDigit c with
    | none => simp at h
    | some hi =>
      cases rest with
      | nil => simp at h
      | cons d rest => exact absurd rfl (hnone hi d rest hdigit)

theorem asciiSpace_ascii {c : CodePoint} (h : isAsciiSpace c = true) : isAscii c = true := by
  simp only [isAsciiSpace, Bool.or_eq_true, Bool.and_eq_true, decide_eq_true_eq, beq_iff_eq] at h
  exact decide_eq_true (by omega)

theorem fromhex_ascii {s : PyStr} {b : Bytes} (h : fromhex s = .ok b) : s.all isAscii = true := by
  refine fromhex_induction (M := fun s _ => s.all isAscii = true) rfl ?_ ?_ h
  · intro c rest b hspace ih
    rw [List.all_cons, asciiSpace_ascii hspace, ih]
    rfl
  · intro c d rest b hi lo hhi hlo ih
    rw [List.all_cons, List.all_cons, hexDigit_ascii hhi, hexDigit_ascii hlo, ih]
    rfl

/-- Reading does not depend on the case of the digits. -/
theorem fromhex_lower (P : Platform) {s : PyStr} {b : Bytes} (h : fromhex s = .ok b) :
    fromhex (P.lower s) = .ok b := by
  rw [P.lower_ascii (fromhex_ascii h), fromhex_map_lower, h]

theorem hexChar_of_hexDigit {c : CodePoint} {d : Nat} (h : hexDigit c = some d) :
    d < 16 ∧ hexChar d = asciiLower c := by
  unfold hexDigit at h
  split at h
  · rename_i hc
    obtain rfl := Option.some.inj h
    have hlower : asciiLower c = c := dif_neg (by omega)
    refine ⟨by omega, ?_⟩
    rw [hlower, hexChar, if_pos (by omega), digitChar]
    apply Fin.ext
    simp only
    omega
  · split at h
    · rename_i hc
      obtain rfl := Option.some.inj h
      have hlower : asciiLower c = c := dif_neg (by omega)
      refine ⟨by omega, ?_⟩
      rw [hlower, hexChar, if_neg (by omega)]
      apply Fin.ext
      simp only
      omega
    · split at h
      · rename_i hc
        obtain rfl := Option.some.inj h
        have hlower : asciiLower c = ⟨c.val + 32, by omega⟩ := dif_pos (by omega)
        refine ⟨by omega, ?_⟩
        rw [hlower, hexChar, if_neg (by omega)]
        apply Fin.ext
        simp only
        omega
      · cases h

theorem hexDigit_not_space {c : CodePoint} {d : Nat} (h : hexDigit c = some d) : isAsciiSpace c = false := by
  obtain ⟨hd, hchar⟩ := hexChar_of_hexDigit h
  rw [← asciiLower_space, ← hchar]
  exact (hexDigit_hexChar hd).2

theorem hex_cons_digits {c d : CodePoint} {hi lo : Nat} (hhi : hexDigit c = some hi)
    (hlo : hexDigit d = some lo) (b : Bytes) :
    hex (UInt8.ofNat (hi * 16 + lo) :: b) = asciiLower c :: asciiLower d :: hex b := by
  obtain ⟨hhi', hhichar⟩ := hexChar_of_hexDigit hhi
  obtain ⟨hlo', hlochar⟩ := hexChar_of_hexDigit hlo
  have hbyte : (UInt8.ofNat (hi * 16 + lo)).toNat = hi * 16 + lo := by
    rw [UInt8.toNat_ofNat']
    omega
  have hdiv : (hi * 16 + lo) / 16 = hi := by omega
  have hmod : (hi * 16 + lo) % 16 = lo := by omega
  simp only [hex, List.flatMap_cons, hbyte, hdiv, hmod, hhichar, hlochar, List.cons_append,
    List.nil_append]

/-- Between the blanks there is nothing but what is written for the bytes. -/
theorem fromhex_compact {s : PyStr} {b : Bytes} (h : fromhex s = .ok b) :
    (s.filter fun c => !isAsciiSpace c).map asciiLower = hex b := by
  refine fromhex_induction
    (M := fun s b => (s.filter fun c => !isAsciiSpace c).map asciiLower = hex b) rfl ?_ ?_ h
  · intro c rest b hspace ih
    rw [List.filter_cons_of_neg (by simp [hspace])]
    exact ih
  · intro c d rest b hi lo hhi hlo ih
    rw [List.filter_cons_of_pos (by simp [hexDigit_not_space hhi]),
      List.filter_cons_of_pos (by simp [hexDigit_not_space hlo]), List.map_cons, List.map_cons, ih,
      hex_cons_digits hhi hlo]

/-- Text without blanks is as long as the bytes say, and it is their spelling. -/
theorem fromhex_spaceless {s : PyStr} {b : Bytes} (h : fromhex s = .ok b)
    (hspaceless : ∀ c ∈ s, isAsciiSpace c = false) : s.map asciiLower = hex b := by
  rw [← fromhex_compact h, List.filter_eq_self.mpr (by simpa using hspaceless)]

end Rdap.Python
