import Rdap.Python.JsonRoundTrip

/-!
# JSON in ASCII

`json.dumps` with its default `ensure_ascii=True` and without blanks, and how the scanner
reads the strings and the numerals that it writes.
-/

set_option autoImplicit false

namespace Rdap.Python.Json

/-! ## Writing -/

def unicodeEscape (n : Nat) : PyStr :=
  [backslash, 117, hexChar (n / 4096 % 16), hexChar (n / 256 % 16), hexChar (n / 16 % 16),
    hexChar (n % 16)]

def escapeCharAscii (c : CodePoint) : PyStr :=
  if c.val = 34 then [backslash, 34]
  else if c.val = 92 then [backslash, 92]
  else if c.val = 8 then [backslash, 98]
  else if c.val = 9 then [backslash, 116]
  else if c.val = 10 then [backslash, 110]
  else if c.val = 12 then [backslash, 102]
  else if c.val = 13 then [backslash, 114]
  else if 32 ≤ c.val ∧ c.val ≤ 126 then [c]
  else if c.val < 0x10000 then unicodeEscape c.val
  else unicodeEscape (0xD800 + (c.val - 0x10000) / 1024) ++ unicodeEscape (0xDC00 + (c.val - 0x10000) % 1024)

def encodeStringAscii (s : PyStr) : PyStr := quote :: s.flatMap escapeCharAscii ++ [quote]

variable (P : Platform)

mutual

/-- `separators=(',', ':')` -/
def encodeAscii : Value → Except PyExc PyStr
  | .none => .ok (lit "null")
  | .bool true => .ok (lit "true")
  | .bool false => .ok (lit "false")
  | .int n => strInt n
  | .float bits => .ok (encodeFloat P bits)
  | .str s => .ok (encodeStringAscii s)
  | .list [] => .ok [openList, closeList]
  | .list (v :: vs) => do
    let first ← encodeAscii v
    let others ← encodeItemsAscii vs
    return openList :: first ++ others ++ [closeList]
  | .dict [] => .ok [openDict, closeDict]
  | .dict ((key, v) :: items) => do
    let first ← encodeAscii v
    let others ← encodeMembersAscii items
    return openDict :: encodeStringAscii key ++ colon :: first ++ others ++ [closeDict]

/-- The items after the first. -/
def encodeItemsAscii : List Value → Except PyExc PyStr
  | [] => .ok []
  | v :: vs => do
    let item ← encodeAscii v
    let others ← encodeItemsAscii vs
    return comma :: item ++ others

/-- The members after the first. -/
def encodeMembersAscii : List (PyStr × Value) → Except PyExc PyStr
  | [] => .ok []
  | (key, v) :: items => do
    let item ← encodeAscii v
    let others ← encodeMembersAscii items
    return comma :: encodeStringAscii key ++ colon :: item ++ others

end

def dumpsAscii (v : Value) : Except PyExc PyStr :=
  if P.recursionLimit < depth v then recursionError else encodeAscii P v

variable {P}

/-! ## Strings -/

/-- What is read for a string that was written, behind a high surrogate that waits. -/
def joined : Option Nat → PyStr → PyStr
  | pending, [] => flush pending
  | pending, c :: s =>
    let r := if isSurrogate c then escapeUnit pending c.val else (flush pending ++ [c], none)
    r.1 ++ joined r.2 s

theorem hexQuad_unicode {n : Nat} (hn : n < 0x10000) :
    hexQuad (hexChar (n / 4096 % 16)) (hexChar (n / 256 % 16)) (hexChar (n / 16 % 16))
      (hexChar (n % 16)) = some n := by
  simp only [hexQuad, (hexDigit_hexChar (Nat.mod_lt _ (by omega : 0 < 16))).1, Option.some.injEq]
  omega

theorem scanString_unicode (pending : Option Nat) {n : Nat} (hn : n < 0x10000) (rest : PyStr) :
    scanString pending (unicodeEscape n ++ rest) =
      emit (escapeUnit pending n).1 (scanString (escapeUnit pending n).2 rest) := by
  have hslash : backslash ≠ quote := by decide
  have hu : (117 : CodePoint).val = 117 := rfl
  rw [unicodeEscape, scanString.eq_def]
  simp only [List.cons_append, List.nil_append, hslash, if_false, ne_eq, not_true_eq_false, hu,
    hexQuad_unicode hn]

theorem emit_emit (s t : PyStr) (r : Scan PyStr) : emit s (emit t r) = emit (s ++ t) r := by
  cases r with
  | error e => rfl
  | ok p => simp [emit, Except.map]

/-- The character itself or a short escape. -/
theorem escapeCharAscii_cases (c : CodePoint) :
    (∃ e, escapeCharAscii c = [backslash, e] ∧ e.val ≠ 117 ∧ unescape e = some c ∧ c.val < 127) ∨
    (escapeCharAscii c = [c] ∧ c.val ≠ 34 ∧ c.val ≠ 92 ∧ 32 ≤ c.val ∧ c.val < 127) ∨
    (escapeCharAscii c = unicodeEscape c.val ∧ c.val < 0x10000) ∨
    (0x10000 ≤ c.val ∧ escapeCharAscii c = unicodeEscape (0xD800 + (c.val - 0x10000) / 1024) ++
      unicodeEscape (0xDC00 + (c.val - 0x10000) % 1024)) := by
  have hshort : ∀ {n : Nat} (hn : n < 127) (e : CodePoint), c.val = n →
      escapeCharAscii c = [backslash, e] → e.val ≠ 117 → unescape e = some ⟨n, by omega⟩ →
      ∃ e, escapeCharAscii c = [backslash, e] ∧ e.val ≠ 117 ∧ unescape e = some c ∧ c.val < 127 := by
    intro n hn e hc htext hu he
    refine ⟨e, htext, hu, he.trans ?_, hc ▸ hn⟩
    rw [Option.some.injEq]
    exact (Fin.ext hc).symm
  by_cases h₁ : c.val = 34
  · exact Or.inl (hshort (by omega) 34 h₁ (by simp [escapeCharAscii, h₁]) (by decide) rfl)
  by_cases h₂ : c.val = 92
  · exact Or.inl (hshort (by omega) 92 h₂ (by simp [escapeCharAscii, h₂]) (by decide) rfl)
  by_cases h₃ : c.val = 8
  · exact Or.inl (hshort (by omega) 98 h₃ (by simp [escapeCharAscii, h₃]) (by decide) rfl)
  by_cases h₄ : c.val = 9
  · exact Or.inl (hshort (by omega) 116 h₄ (by simp [escapeCharAscii, h₄]) (by decide) rfl)
  by_cases h₅ : c.val = 10
  · exact Or.inl (hshort (by omega) 110 h₅ (by simp [escapeCharAscii, h₅]) (by decide) rfl)
  by_cases h₆ : c.val = 12
  · exact Or.inl (hshort (by omega) 102 h₆ (by simp [escapeCharAscii, h₆]) (by decide) rfl)
  by_cases h₇ : c.val = 13
  · exact Or.inl (hshort (by omega) 114 h₇ (by simp [escapeCharAscii, h₇]) (by decide) rfl)
  refine Or.inr ?_
  unfold escapeCharAscii
  rw [if_neg h₁, if_neg h₂, if_neg h₃, if_neg h₄, if_neg h₅, if_neg h₆, if_neg h₇]
  split
  · exact Or.inl ⟨rfl, h₁, h₂, by omega, by omega⟩
  · split
    · rename_i hsmall
      exact Or.inr (Or.inl ⟨rfl, hsmall⟩)
    · rename_i hlarge
      exact Or.inr (Or.inr ⟨by omega, rfl⟩)

theorem not_surrogate_of_range {c : CodePoint} (h : c.val < 0xD800 ∨ 0xE000 ≤ c.val) :
    isSurrogate c = false := by
  simp only [isSurrogate, Bool.and_eq_false_iff, decide_eq_false_iff_not]
  omega

theorem scanString_escapeCharAscii (pending : Option Nat) (c : CodePoint) (rest : PyStr) :
    scanString pending (escapeCharAscii c ++ rest) =
      let r := if isSurrogate c then escapeUnit pending c.val else (flush pending ++ [c], none)
      emit r.1 (scanString r.2 rest) := by
  have hslash : backslash ≠ quote := by decide
  rcases escapeCharAscii_cases c with ⟨e, htext, hu, he, hc⟩ | ⟨htext, hq, hb, hlow, hc⟩ |
    ⟨htext, hc⟩ | ⟨hc, htext⟩
  · rw [htext, scanString.eq_def, not_surrogate_of_range (by omega)]
    simp only [List.cons_append, List.nil_append, hslash, if_false, ne_eq, not_true_eq_false, hu,
      not_false_eq_true, if_true, he, Bool.false_eq_true]
  · have hquote : c ≠ quote := fun he => hq (by rw [he]; rfl)
    have hback : c ≠ backslash := fun he => hb (by rw [he]; rfl)
    rw [htext, scanString.eq_def, not_surrogate_of_range (by omega)]
    simp only [List.cons_append, List.nil_append, hquote, hback, if_false, ne_eq,
      not_false_eq_true, if_true, Nat.not_lt.mpr hlow, Bool.false_eq_true]
  · rw [htext, scanString_unicode pending hc]
    by_cases hs : isSurrogate c = true
    · simp only [hs, if_true]
    · have hplain : isHigh c.val = false ∧ isLow c.val = false := by
        simp only [isSurrogate, Bool.and_eq_true, decide_eq_true_eq] at hs
        simp only [isHigh, isLow, Bool.and_eq_false_iff, decide_eq_false_iff_not]
        omega
      have hunit : escapeUnit pending c.val = (flush pending ++ [c], none) := by
        cases pending with
        | none => simp [escapeUnit, hplain.1, codeUnit_val, flush]
        | some hi => simp [escapeUnit, hplain.1, hplain.2, codeUnit_val]
      rw [hunit, if_neg hs]
  · have hlt := c.isLt
    have hhigh : isHigh (0xD800 + (c.val - 0x10000) / 1024) = true := by
      simp only [isHigh, Bool.and_eq_true, decide_eq_true_eq]
      omega
    have hlow : isLow (0xDC00 + (c.val - 0x10000) % 1024) = true := by
      simp only [isLow, Bool.and_eq_true, decide_eq_true_eq]
      omega
    have hnotlow : isLow (0xD800 + (c.val - 0x10000) / 1024) = false := by
      simp only [isLow, Bool.and_eq_false_iff, decide_eq_false_iff_not]
      omega
    have hfirst : escapeUnit pending (0xD800 + (c.val - 0x10000) / 1024) =
        (flush pending, some (0xD800 + (c.val - 0x10000) / 1024)) := by
      cases pending with
      | none => simp [escapeUnit, hhigh, flush]
      | some hi => simp [escapeUnit, hhigh, hnotlow]
    have hjoin : joinSurrogates (0xD800 + (c.val - 0x10000) / 1024)
        (0xDC00 + (c.val - 0x10000) % 1024) = c := by
      apply Fin.ext
      simp only [joinSurrogates, codeUnit]
      omega
    rw [htext, List.append_assoc, scanString_unicode pending (by omega), hfirst,
      scanString_unicode _ (by omega), not_surrogate_of_range (by omega)]
    simp only [escapeUnit, hlow, if_true, hjoin, emit_emit, Bool.false_eq_true, if_false]

theorem scanString_ascii (pending : Option Nat) (s rest : PyStr) :
    scanString pending (s.flatMap escapeCharAscii ++ quote :: rest) = .ok (joined pending s, rest) := by
  induction s generalizing pending with
  | nil => simp [scanString.eq_def, joined]
  | cons c s ih =>
    rw [List.flatMap_cons, List.append_assoc, scanString_escapeCharAscii]
    simp only [ih, joined, emit, Except.map]

/-- A high surrogate directly before a low one. -/
def HasPair (s : PyStr) : Prop :=
  ∃ before hi lo after, s = before ++ hi :: lo :: after ∧ isHigh hi.val = true ∧ isLow lo.val = true

theorem hasPair_cons {c : CodePoint} {s : PyStr} : HasPair (c :: s) ↔
    (isHigh c.val = true ∧ ∃ lo rest, s = lo :: rest ∧ isLow lo.val = true) ∨ HasPair s := by
  constructor
  · rintro ⟨before, hi, lo, after, heq, hhi, hlo⟩
    cases before with
    | nil =>
      obtain ⟨rfl, rfl⟩ := List.cons.inj heq
      exact Or.inl ⟨hhi, lo, after, rfl, hlo⟩
    | cons d before =>
      obtain ⟨rfl, rfl⟩ := List.cons.inj heq
      exact Or.inr ⟨before, hi, lo, after, rfl, hhi, hlo⟩
  · rintro (⟨hhi, lo, rest, rfl, hlo⟩ | ⟨before, hi, lo, after, rfl, hhi, hlo⟩)
    · exact ⟨[], c, lo, rest, rfl, hhi, hlo⟩
    · exact ⟨c :: before, hi, lo, after, rfl, hhi, hlo⟩

theorem not_hasPair_nil : ¬ HasPair [] := by
  rintro ⟨before, hi, lo, after, heq, _⟩
  cases before <;> cases heq

theorem joined_length (pending : Option Nat) (s : PyStr) :
    (joined pending s).length ≤ (flush pending).length + s.length := by
  induction s generalizing pending with
  | nil => simp [joined]
  | cons c s ih =>
    have hstep : ∀ r : PyStr × Option Nat, r.1.length + (flush r.2).length ≤ (flush pending).length + 1 →
        (r.1 ++ joined r.2 s).length ≤ (flush pending).length + (c :: s).length := by
      intro r hr
      have := ih r.2
      simp only [List.length_append, List.length_cons]
      omega
    unfold joined
    dsimp only
    apply hstep
    split
    · unfold escapeUnit
      cases pending with
      | none =>
        dsimp only
        split <;> simp [flush]
      | some hi =>
        dsimp only
        split
        · simp [flush]
        · split <;> simp [flush]
    · simp [flush]

/-- A character that is not joined to what stands before it. -/
theorem hasPair_cons_cons {c d : CodePoint} {s : PyStr} (h : isHigh c.val = false ∨ isLow d.val = false) :
    HasPair (c :: d :: s) ↔ HasPair (d :: s) := by
  rw [hasPair_cons]
  refine or_iff_right ?_
  rintro ⟨hhigh, lo, rest, heq, hlow⟩
  obtain ⟨rfl, rfl⟩ := List.cons.inj heq
  rcases h with h | h
  · rw [hhigh] at h
    cases h
  · rw [hlow] at h
    cases h

theorem hasPair_of_not_high {c : CodePoint} {s : PyStr} (h : isHigh c.val = false) :
    HasPair (c :: s) ↔ HasPair s := by
  rw [hasPair_cons]
  refine or_iff_right ?_
  rintro ⟨hhigh, _⟩
  rw [hhigh] at h
  cases h

theorem codeUnit_high {n : Nat} (h : isHigh n = true) : (codeUnit n).val = n := by
  simp only [isHigh, Bool.and_eq_true, decide_eq_true_eq] at h
  simp only [codeUnit]
  omega

theorem surrogate_cases (c : CodePoint) : (isSurrogate c = true ∧ isHigh c.val = true ∧ isLow c.val = false) ∨
    (isSurrogate c = true ∧ isHigh c.val = false ∧ isLow c.val = true) ∨
    (isSurrogate c = false ∧ isHigh c.val = false ∧ isLow c.val = false) := by
  simp only [isSurrogate, isHigh, isLow, Bool.and_eq_true, Bool.and_eq_false_iff, decide_eq_true_eq,
    decide_eq_false_iff_not]
  omega

/-- A string is read back unless two escapes of it were joined, which makes it shorter. -/
theorem joined_eq_iff (pending : Option Nat) (hpending : ∀ hi ∈ pending, isHigh hi = true) (s : PyStr) :
    joined pending s = flush pending ++ s ↔ ¬ HasPair (flush pending ++ s) := by
  induction s generalizing pending with
  | nil =>
    refine iff_of_true (by simp [joined]) ?_
    rw [List.append_nil]
    cases pending with
    | none => exact not_hasPair_nil
    | some hi =>
      rw [flush, hasPair_cons]
      rintro (⟨_, lo, rest, h, _⟩ | h)
      · cases h
      · exact not_hasPair_nil h
  | cons c s ih =>
    have hnone : joined none s = s ↔ ¬ HasPair s := ih none fun _ h => by cases h
    have hwaits : isHigh c.val = true → (joined (some c.val) s = c :: s ↔ ¬ HasPair (c :: s)) := by
      intro hhigh
      have hsome := ih (some c.val) fun hi h => Option.some.inj h ▸ hhigh
      rwa [flush, codeUnit_val, List.singleton_append] at hsome
    cases pending with
    | none =>
      rcases surrogate_cases c with ⟨hs, hhigh, _⟩ | ⟨hs, hhigh, _⟩ | ⟨hs, hhigh, _⟩
      · simp only [joined, hs, if_true, escapeUnit, hhigh, flush, List.nil_append]
        exact hwaits hhigh
      · simp only [joined, hs, if_true, escapeUnit, hhigh, Bool.false_eq_true, if_false, codeUnit_val,
          flush, List.nil_append, List.singleton_append, List.cons.injEq, true_and,
          hasPair_of_not_high hhigh]
        exact hnone
      · simp only [joined, hs, Bool.false_eq_true, if_false, flush, List.nil_append,
          List.singleton_append, List.cons.injEq, true_and, hasPair_of_not_high hhigh]
        exact hnone
    | some hi =>
      have hhi := hpending hi rfl
      have hval := codeUnit_high hhi
      rcases surrogate_cases c with ⟨hs, hhigh, hlow⟩ | ⟨hs, hhigh, hlow⟩ | ⟨hs, hhigh, hlow⟩
      · have hpair : HasPair (codeUnit hi :: c :: s) ↔ HasPair (c :: s) :=
          hasPair_cons_cons (Or.inr hlow)
        simp only [joined, hs, if_true, escapeUnit, hlow, hhigh, Bool.false_eq_true, if_false, flush,
          List.singleton_append, List.cons.injEq, true_and, hpair]
        exact hwaits hhigh
      · refine iff_of_false (fun h => ?_) (not_not.mpr ?_)
        · have hlength := congrArg List.length h
          have hle := joined_length none s
          simp only [joined, hs, if_true, escapeUnit, hlow, flush, List.length_append, List.length_cons,
            List.length_nil] at hlength hle
          omega
        · exact ⟨[], codeUnit hi, c, s, rfl, hval.symm ▸ hhi, hlow⟩
      · have hpair : HasPair (codeUnit hi :: c :: s) ↔ HasPair s :=
          (hasPair_cons_cons (Or.inr hlow)).trans (hasPair_of_not_high hhigh)
        simp only [joined, hs, Bool.false_eq_true, if_false, flush, List.nil_append, List.cons_append,
          List.cons.injEq, true_and, hpair]
        exact hnone

theorem joined_none_iff (s : PyStr) : joined none s = s ↔ ¬ HasPair s :=
  joined_eq_iff none (fun _ h => by cases h) s

/-! ## Floating point numbers -/

/-- A numeral with a fraction or an exponent, as `repr` writes floating point numbers. -/
structure FloatLiteral where
  negative : Bool
  whole : Nat
  /-- The digits behind the point. -/
  fraction : List (Fin 10)
  /-- The sign and the digits of the exponent. -/
  exponent : Option (Bool × List (Fin 10))
  notWhole : fraction ≠ [] ∨ exponent.isSome = true
  exponent_digits : ∀ e ∈ exponent, e.2 ≠ []

def digits (ds : List (Fin 10)) : PyStr := ds.map fun d => digitChar d.val

namespace FloatLiteral
variable (f : FloatLiteral)

def sign : PyStr := if f.negative then [minus] else []

def point : PyStr := if f.fraction = [] then [] else 46 :: digits f.fraction

def power : PyStr :=
  match f.exponent with
  | none => []
  | some (negative, ds) => 101 :: (if negative then 45 else 43) :: digits ds

def text : PyStr := f.sign ++ natDecimal f.whole ++ f.point ++ f.power

end FloatLiteral

/-- An exponent of ones: infinite or no number. -/
def isFinite (bits : UInt64) : Bool := bits.toNat / 2 ^ 52 % 2 ^ 11 ≠ 2047

/-- `float(repr(x)) == x`, and `repr` of a finite number is a numeral with a point or an exponent. -/
structure ReprFloats (P : Platform) : Prop where
  literal : ∀ bits, isFinite bits = true → ∃ f : FloatLiteral, P.reprValue (.float bits) = f.text
  parse : ∀ bits, isFinite bits = true → P.parseFloat (P.reprValue (.float bits)) = bits

theorem digits_span {ds : PyStr} (hds : ∀ c ∈ ds, isDigit c = true) {rest : PyStr}
    (h : ∀ c ∈ rest.head?, isDigit c = false) :
    (ds ++ rest).takeWhile isDigit = ds ∧ (ds ++ rest).dropWhile isDigit = rest := by
  rw [List.takeWhile_append_of_pos hds, List.dropWhile_append_of_pos hds]
  cases rest with
  | nil => simp
  | cons c rest => simp [h c rfl]

theorem isDigit_digits {ds : List (Fin 10)} : ∀ c ∈ digits ds, isDigit c = true := by
  intro c hc
  obtain ⟨d, _, rfl⟩ := List.mem_map.mp hc
  exact isDigit_digitChar d.isLt

theorem isDigit_natDecimal {n : Nat} : ∀ c ∈ natDecimal n, isDigit c = true := by
  rw [natDecimal_eq]
  intro c hc
  obtain ⟨d, hd, rfl⟩ := List.mem_map.mp hc
  exact isDigit_digitChar (decimalDigits_lt hd)

/-- The whole part, when what follows is no digit. -/
theorem scanWhole_ends (n : Nat) {rest : PyStr} (h : ∀ c ∈ rest.head?, isDigit c = false) :
    scanWhole (natDecimal n ++ rest) = some (natDecimal n, rest) := by
  rw [natDecimal_eq]
  cases hds : decimalDigits n with
  | nil => exact absurd hds (decimalDigits_ne_nil n)
  | cons d ds =>
    have hlt : ∀ e ∈ d :: ds, e < 10 := fun e he => decimalDigits_lt (hds ▸ he)
    have hd := hlt d List.mem_cons_self
    have hdigits : ∀ c ∈ ds.map digitChar, isDigit c = true := by
      intro c hc
      obtain ⟨e, he, rfl⟩ := List.mem_map.mp hc
      exact isDigit_digitChar (hlt e (List.mem_cons_of_mem _ he))
    obtain ⟨htake, hdrop⟩ := digits_span hdigits h
    have hval : (digitChar d).val = 48 + d := by
      simp only [digitChar]
      omega
    simp only [List.map_cons, List.cons_append, scanWhole, hval, isDigit_digitChar hd, if_true,
      htake, hdrop]
    split
    · rename_i hzero
      simp [decimalDigits_zero (show d = 0 by omega) hds]
    · rfl

theorem scanExponent_power (f : FloatLiteral) {rest : PyStr} (h : EndsNumeral rest) :
    scanExponent (f.power ++ rest) = (f.power, rest) := by
  unfold FloatLiteral.power
  split
  · exact scanExponent_ends h
  · rename_i negative ds hexp
    have hne := f.exponent_digits _ hexp
    have hspan := digits_span (@isDigit_digits ds) fun c hc => (h c hc).1
    have hnonempty : digits ds ≠ [] := by simpa [digits] using hne
    have hsign : splitExponentSign ((if negative then 45 else 43) :: (digits ds ++ rest)) =
        ([if negative then 45 else 43], digits ds ++ rest) := by
      cases negative <;> rfl
    simp only [List.cons_append, scanExponent, hsign, hspan.1, hspan.2]
    rw [if_pos ⟨Or.inl rfl, hnonempty⟩]
    rfl

theorem scanFraction_point (f : FloatLiteral) {rest : PyStr}
    (h : ∀ c ∈ rest.head?, isDigit c = false ∧ c.val ≠ 46) :
    scanFraction (f.point ++ rest) = (f.point, rest) := by
  unfold FloatLiteral.point
  split
  · cases rest with
    | nil => rfl
    | cons c rest =>
      have hc := (h c rfl).2
      cases rest with
      | nil => rfl
      | cons d rest => simp [scanFraction, hc]
  · rename_i hne
    obtain ⟨d, ds, hform⟩ := List.exists_cons_of_ne_nil hne
    have hspan := digits_span (@isDigit_digits ds) fun c hc => (h c hc).1
    have hcons : digits f.fraction = digitChar d.val :: digits ds := by rw [hform]; rfl
    have hpoint : (46 : CodePoint).val = 46 := rfl
    rw [hcons]
    simp only [List.cons_append, scanFraction, isDigit_digitChar d.isLt, and_true,
      List.takeWhile_cons, if_true]
    rw [if_pos hpoint, hspan.1, hspan.2]

theorem power_head (f : FloatLiteral) {rest : PyStr} (h : EndsNumeral rest) :
    ∀ c ∈ (f.power ++ rest).head?, isDigit c = false ∧ c.val ≠ 46 := by
  intro c hc
  unfold FloatLiteral.power at hc
  split at hc
  · exact ⟨(h c hc).1, (h c hc).2.1⟩
  · obtain rfl := Option.some.inj hc
    decide

theorem scanNumeral_literal {P : Platform} (f : FloatLiteral) {rest : PyStr} (h : EndsNumeral rest) :
    scanNumeral P (f.text ++ rest) = .ok (.float (P.parseFloat f.text), rest) := by
  have hpower := power_head f h
  have hpoint : ∀ c ∈ (f.point ++ (f.power ++ rest)).head?, isDigit c = false := by
    intro c hc
    unfold FloatLiteral.point at hc
    split at hc
    · exact (hpower c hc).1
    · obtain rfl := Option.some.inj hc
      decide
  have hsplit : splitMinus (f.sign ++ (natDecimal f.whole ++ (f.point ++ (f.power ++ rest)))) =
      (f.sign, natDecimal f.whole ++ (f.point ++ (f.power ++ rest))) := by
    unfold FloatLiteral.sign
    split
    · rfl
    · obtain ⟨d, ds, hform, hd⟩ := natDecimal_head f.whole
      have hne : digitChar d ≠ minus := fun he => (digitChar_not_space hd).2.1 (by rw [he]; rfl)
      simp [hform, splitMinus, hne]
  have hfloat : ¬ (f.point = [] ∧ f.power = []) := by
    rintro ⟨hpoint, hpower⟩
    rcases f.notWhole with hne | hsome
    · unfold FloatLiteral.point at hpoint
      rw [if_neg hne] at hpoint
      cases hpoint
    · unfold FloatLiteral.power at hpower
      split at hpower
      · rename_i hnone
        rw [hnone] at hsome
        cases hsome
      · cases hpower
  have htext : f.text ++ rest = f.sign ++ (natDecimal f.whole ++ (f.point ++ (f.power ++ rest))) := by
    simp only [FloatLiteral.text, List.append_assoc]
  rw [htext]
  simp only [scanNumeral, hsplit, scanWhole_ends _ hpoint, scanFraction_point f hpower,
    scanExponent_power f h, hfloat, if_false, FloatLiteral.text, List.append_assoc]

end Rdap.Python.Json
