import Rdap.Python.Codec

/-!
# Python values and the platform

`Value` is what `json.loads` and a protobuf `Struct` produce. `Platform` collects what the
node takes from outside the repository: the two cryptographic primitives and the tables of
the Unicode database and of `repr`. Results hold for every platform unless they name a law.
-/

set_option autoImplicit false

namespace Rdap.Python

inductive Value where
  | none
  | bool (b : Bool)
  | int (n : Int)
  | float (bits : UInt64)
  | str (s : PyStr)
  | list (items : List Value)
  | dict (items : List (PyStr × Value))

abbrev Dict := List (PyStr × Value)

structure Platform where
  sha256 : Bytes → Bytes
  sha256_length : ∀ b, (sha256 b).length = 32
  /-- Public key, signature, message. -/
  ed25519Verify : Bytes → Bytes → Bytes → Bool
  ed25519_signature_length : ∀ {pk sig msg}, ed25519Verify pk sig msg = true → sig.length = 64
  /-- `str` of a value that is neither a string, an integer, a truth value nor `None`. -/
  reprValue : Value → PyStr
  /-- Decimal digits outside ASCII. -/
  unicodeDigit : CodePoint → Option (Fin 10)
  /-- `str.isprintable` for one character. -/
  isPrintable : CodePoint → Bool
  /-- `float` of a numeral. -/
  parseFloat : PyStr → UInt64
  /-- How deep the JSON codec nests before it raises `RecursionError`. -/
  recursionLimit : Nat
  upper : PyStr → PyStr
  lower : PyStr → PyStr
  upper_ascii : ∀ {s}, s.all isAscii = true → upper s = s.map asciiUpper
  lower_ascii : ∀ {s}, s.all isAscii = true → lower s = s.map asciiLower

/-- A platform to evaluate the model on: digests keep the last 32 bytes, case is that of
ASCII, and the signatures that verify are the listed ones (public key, signature, message). -/
def Platform.ofTable (signed : List (Bytes × Bytes × Bytes)) : Platform where
  sha256 b := (b.reverse ++ List.replicate 32 0).take 32
  sha256_length b := by simp
  ed25519Verify pk sig msg := signed.contains (pk, sig, msg) && sig.length == 64
  ed25519_signature_length h := by
    simp only [Bool.and_eq_true, beq_iff_eq] at h
    exact h.2
  reprValue _ := lit "?"
  unicodeDigit _ := Option.none
  isPrintable c := 32 ≤ c.val && c.val < 127
  parseFloat _ := 0
  recursionLimit := 1000
  upper s := s.map asciiUpper
  lower s := s.map asciiLower
  upper_ascii _ := rfl
  lower_ascii _ := rfl

section
variable (P : Platform)

def pyStr : Value → Except PyExc PyStr
  | .str s => .ok s
  | .int n => strInt n
  | .bool true => .ok (lit "True")
  | .bool false => .ok (lit "False")
  | .none => .ok (lit "None")
  | v => .ok (P.reprValue v)

/-! ## `int()` -/

def decimalValue (c : CodePoint) : Option Nat :=
  if 48 ≤ c.val ∧ c.val ≤ 57 then some (c.val - 48)
  else if c.val < 127 then Option.none
  else (P.unicodeDigit c).map Fin.val

/-- White space that `int` skips: all of it outside ASCII, the C locale's inside. -/
def isIntSpace (c : CodePoint) : Bool := isAsciiSpace c || (127 ≤ c.val && isSpace c)

def underscore : CodePoint := 95

/-- Value and number of the digits read, and the rest. Underscores may only stand singly
between digits; `pending` says that the last character was one. -/
def scanDigits (value count : Nat) (pending : Bool) : PyStr → Option (Nat × Nat × PyStr)
  | [] => if pending then Option.none else some (value, count, [])
  | c :: rest =>
    if c = underscore then
      if pending then Option.none else scanDigits value count true rest
    else match decimalValue P c with
      | some d => scanDigits (value * 10 + d) (count + 1) false rest
      | Option.none => if pending then Option.none else some (value, count, c :: rest)

def scanNumber : PyStr → Option (Nat × Nat × PyStr)
  | [] => Option.none
  | c :: rest =>
    match decimalValue P c with
    | some d => scanDigits P d 1 false rest
    | Option.none => Option.none

def splitSign : PyStr → Bool × PyStr
  | [] => (false, [])
  | c :: rest =>
    if c.val = 45 then (true, rest) else if c.val = 43 then (false, rest) else (false, c :: rest)

def intLiteralError : PyExc := ⟨.valueError, lit "invalid literal for int() with base 10"⟩

def intOfStr (s : PyStr) : Except PyExc Int :=
  let signed := splitSign (s.dropWhile isIntSpace)
  match scanNumber P signed.2 with
  | some (value, count, rest) =>
    if (rest.dropWhile isIntSpace).isEmpty ∧ count ≤ maxStrDigits then
      .ok (if signed.1 then -(value : Int) else value)
    else .error intLiteralError
  | Option.none => .error intLiteralError

/-- The integer part of an IEEE 754 double, towards zero. -/
def intOfFloat (bits : UInt64) : Except PyExc Int :=
  let negative := bits.toNat / 2 ^ 63 = 1
  let exponent := bits.toNat / 2 ^ 52 % 2 ^ 11
  let fraction := bits.toNat % 2 ^ 52
  if exponent = 2047 then
    if fraction = 0 then .error ⟨.overflowError, lit "cannot convert float infinity to integer"⟩
    else valueError (lit "cannot convert float NaN to integer")
  else
    -- below exponent 1023 the magnitude is under one, subnormal numbers included
    let magnitude : Nat := if exponent < 1023 then 0
      else if exponent < 1075 then (2 ^ 52 + fraction) / 2 ^ (1075 - exponent)
      else (2 ^ 52 + fraction) * 2 ^ (exponent - 1075)
    .ok (if negative then -(magnitude : Int) else magnitude)

def pyInt : Value → Except PyExc Int
  | .str s => intOfStr P s
  | .int n => .ok n
  | .bool b => .ok (if b then 1 else 0)
  | .float bits => intOfFloat bits
  | .none | .list _ | .dict _ => .error ⟨.typeError, lit "int() argument must be a string or a number"⟩

variable {P}

theorem decimalValue_digitChar {d : Nat} (hd : d < 10) : decimalValue P (digitChar d) = some d := by
  have hval : (digitChar d).val = 48 + d := by
    simp only [digitChar]
    omega
  have hrange : 48 ≤ (digitChar d).val ∧ (digitChar d).val ≤ 57 := by omega
  rw [decimalValue, if_pos hrange, hval]
  simp

theorem digitChar_ne_underscore {d : Nat} (hd : d < 10) : digitChar d ≠ underscore := by
  intro h
  have hval := congrArg Fin.val h
  have hunderscore : underscore.val = 95 := rfl
  simp only [digitChar] at hval
  omega

theorem scanDigits_digits {ds : List Nat} (hds : ∀ d ∈ ds, d < 10) (value count : Nat) :
    scanDigits P value count false (ds.map digitChar) =
      some (ds.foldl (fun v d => v * 10 + d) value, count + ds.length, []) := by
  induction ds generalizing value count with
  | nil => rfl
  | cons d ds ih =>
    have hd := hds d List.mem_cons_self
    simp only [List.map_cons, scanDigits, digitChar_ne_underscore hd, if_false,
      decimalValue_digitChar hd, ih (fun x hx => hds x (List.mem_cons_of_mem d hx)),
      List.foldl_cons, List.length_cons]
    rw [Nat.add_right_comm, Nat.add_assoc]

theorem scanNumber_natDecimal (n : Nat) :
    scanNumber P (natDecimal n) = some (n, (decimalDigits n).length, []) := by
  have hvalue := decimalDigits_value n
  have hlt : ∀ d ∈ decimalDigits n, d < 10 := fun d => decimalDigits_lt
  rw [natDecimal_eq]
  cases hds : decimalDigits n with
  | nil => exact absurd hds (decimalDigits_ne_nil n)
  | cons d ds =>
    rw [hds] at hvalue hlt
    have hd := hlt d List.mem_cons_self
    simp only [List.map_cons, scanNumber, decimalValue_digitChar hd,
      scanDigits_digits (fun x hx => hlt x (List.mem_cons_of_mem d hx)), List.length_cons]
    have hfold : ds.foldl (fun v d => v * 10 + d) d = n := by simpa using hvalue
    rw [hfold, Nat.add_comm]

theorem digitChar_not_space {d : Nat} (hd : d < 10) :
    isIntSpace (digitChar d) = false ∧ (digitChar d).val ≠ 45 ∧ (digitChar d).val ≠ 43 := by
  have hdecide : ∀ d : Fin 10, isIntSpace (digitChar d) = false ∧ (digitChar d).val ≠ 45 ∧
      (digitChar d).val ≠ 43 := by decide
  exact hdecide ⟨d, hd⟩

/-- `int(str(n))` is `n`, for an `n` that `str` converts. -/
theorem intOfStr_strInt {n : Int} {s : PyStr} (h : strInt n = .ok s) : intOfStr P s = .ok n := by
  have hcount : (decimalDigits n.natAbs).length ≤ maxStrDigits := by
    unfold strInt at h
    split at h
    · rename_i hdigits
      unfold decimalDigits
      split
      · simp [maxStrDigits]
      · simpa using hdigits
    · cases h
  rw [strInt_ok h]
  unfold intDecimal
  split
  · rename_i hneg
    have hspace : isIntSpace 45 = false := by decide
    have hsplit : splitSign ((45 :: natDecimal n.natAbs).dropWhile isIntSpace) =
        (true, natDecimal n.natAbs) := by
      rw [List.dropWhile_cons, hspace]
      rfl
    simp only [intOfStr, hsplit, scanNumber_natDecimal, List.dropWhile_nil, List.isEmpty_nil,
      hcount, and_self, if_true]
    congr 1
    omega
  · rename_i hnonneg
    obtain ⟨d, ds, hform, hd⟩ := natDecimal_head n.natAbs
    obtain ⟨hspace, hminus, hplus⟩ := digitChar_not_space hd
    have hsplit : splitSign ((natDecimal n.natAbs).dropWhile isIntSpace) =
        (false, natDecimal n.natAbs) := by
      simp only [hform, List.dropWhile_cons, hspace, Bool.false_eq_true, if_false, splitSign,
        hminus, hplus]
    simp only [intOfStr, hsplit, scanNumber_natDecimal, List.dropWhile_nil, List.isEmpty_nil,
      hcount, and_self, if_true, Bool.false_eq_true, if_false]
    congr 1
    omega

end

/-! ## The clock -/

/-- `int(time.time())`; the clock is a double. -/
def ClockReading (now : Int) : Prop := ∃ bits, intOfFloat bits = .ok now

/-- The integer part of a double has at most 1024 bits. -/
theorem clock_bound {now : Int} (h : ClockReading now) {k : Nat} (hk : 971 ≤ k) :
    now.natAbs ≤ 2 ^ 53 * 2 ^ k := by
  obtain ⟨bits, hbits⟩ := h
  unfold intOfFloat at hbits
  have hfraction : bits.toNat % 2 ^ 52 < 2 ^ 52 := Nat.mod_lt _ (by decide)
  have hexponent : bits.toNat / 2 ^ 52 % 2 ^ 11 < 2 ^ 11 := Nat.mod_lt _ (by decide)
  simp only at hbits
  generalize bits.toNat % 2 ^ 52 = fraction at hbits hfraction
  generalize bits.toNat / 2 ^ 52 % 2 ^ 11 = exponent at hbits hexponent
  split at hbits
  · split at hbits <;> cases hbits
  · rename_i hfinite
    have hmagnitude : (if exponent < 1023 then 0
        else if exponent < 1075 then (2 ^ 52 + fraction) / 2 ^ (1075 - exponent)
        else (2 ^ 52 + fraction) * 2 ^ (exponent - 1075)) ≤ 2 ^ 53 * 2 ^ k := by
      split
      · exact Nat.zero_le _
      · split
        · calc (2 ^ 52 + fraction) / 2 ^ (1075 - exponent) ≤ 2 ^ 52 + fraction := Nat.div_le_self _ _
            _ ≤ 2 ^ 53 := by omega
            _ ≤ 2 ^ 53 * 2 ^ k := Nat.le_mul_of_pos_right _ (Nat.two_pow_pos k)
        · exact Nat.mul_le_mul (by omega) (Nat.pow_le_pow_right (by decide) (by omega))
    generalize (if exponent < 1023 then 0
        else if exponent < 1075 then (2 ^ 52 + fraction) / 2 ^ (1075 - exponent)
        else (2 ^ 52 + fraction) * 2 ^ (exponent - 1075)) = magnitude at hbits hmagnitude
    obtain rfl := Except.ok.inj hbits
    split
    · simpa using hmagnitude
    · simpa using hmagnitude

/-- More digits than a clock reading has. -/
def clockDigits : Nat := 400

/-- A day more or less leaves a reading far below the size that `str` refuses. -/
theorem clock_small {now : Int} (h : ClockReading now) : now.natAbs + 90000 < 10 ^ clockDigits := by
  have hbound := clock_bound h (le_refl 971)
  have hroomy : 2 ^ 53 * 2 ^ 971 + 90000 < 10 ^ clockDigits := by decide +kernel
  generalize 2 ^ 53 * 2 ^ 971 = limit at hbound hroomy
  omega

/-- `mapping.get(key, default)`. -/
def Dict.getD (d : Dict) (key : PyStr) (default : Value) : Value :=
  ((d.find? fun item => item.1 = key).map Prod.snd).getD default

end Rdap.Python
