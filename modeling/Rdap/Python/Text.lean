import Mathlib.Data.Nat.Digits.Lemmas
import Rdap.Lib.Framing

/-!
# Python text and byte strings

A `str` is a list of code points and may hold lone surrogates, which is why encoding it
can fail. Each function bears the name of the built-in it reproduces and follows CPython's
documented behaviour, error cases included. Only operations the node calls are here.
-/

set_option autoImplicit false

namespace Rdap.Python

abbrev CodePoint := Fin 0x110000
abbrev PyStr := List CodePoint

instance neZero_codePoints : NeZero 0x110000 := ⟨by decide⟩

instance : LawfulBEq PyStr := inferInstance
abbrev Bytes := List UInt8

def CodePoint.ofChar (c : Char) : CodePoint := ⟨c.toNat % 0x110000, by omega⟩

/-- A string literal of the source. -/
def lit (s : String) : PyStr := s.toList.map CodePoint.ofChar

/-! ## Exceptions -/

inductive ExcKind where
  | valueError
  | unicodeEncodeError
  | unicodeDecodeError
  | binasciiError
  | typeError
  | overflowError
  | keyError
  | runtimeError
  | recursionError
  | permissionError
  | osError
  | indexError
  | attributeError
  | invalidTag
  | structError
  | assertionError
  deriving DecidableEq, Repr

/-- `except ValueError` also catches its subclasses. -/
def ExcKind.isValueError : ExcKind → Bool
  | .valueError | .unicodeEncodeError | .unicodeDecodeError | .binasciiError => true
  | _ => false

structure PyExc where
  kind : ExcKind
  message : PyStr
  deriving DecidableEq

def valueError {α : Type} (message : PyStr) : Except PyExc α := .error ⟨.valueError, message⟩

/-! ## Encodings -/

def isSurrogate (c : CodePoint) : Bool := 0xD800 ≤ c.val && c.val ≤ 0xDFFF

def isAscii (c : CodePoint) : Bool := c.val < 128

def encodeAscii (s : PyStr) : Except PyExc Bytes :=
  if s.all isAscii then .ok (s.map fun c => UInt8.ofNat c.val)
  else .error ⟨.unicodeEncodeError, lit "ordinal not in range(128)"⟩

def encodeUtf8 (s : PyStr) : Except PyExc Bytes :=
  if s.any isSurrogate then .error ⟨.unicodeEncodeError, lit "surrogates not allowed"⟩
  else .ok ((s.map fun c => Char.ofNat c.val).flatMap String.utf8EncodeChar)

/-- `errors='replace'` -/
def encodeUtf8Replace (s : PyStr) : Bytes :=
  (s.map fun c => if isSurrogate c then '?' else Char.ofNat c.val).flatMap String.utf8EncodeChar

/-- What a decoder does with bytes that are not UTF-8. -/
inductive DecodeErrors where
  | strict | ignore
  deriving DecidableEq

/-- A character is at least one byte, so the length of the input bounds the recursion. Bytes
that continue nothing are dropped one at a time. -/
def decodeUtf8Loop (errors : DecodeErrors) : Nat → Bytes → Except PyExc PyStr
  | _, [] => .ok []
  | 0, _ :: _ => .ok []
  | n + 1, b :: rest =>
    match (b :: rest).toByteArray.utf8DecodeChar? 0 with
    | some c =>
      (decodeUtf8Loop errors n ((b :: rest).drop c.utf8Size)).map (CodePoint.ofChar c :: ·)
    | none =>
      if errors = .ignore then decodeUtf8Loop errors n rest
      else .error ⟨.unicodeDecodeError, lit "invalid utf-8"⟩

def decodeUtf8 (errors : DecodeErrors) (b : Bytes) : Except PyExc PyStr :=
  decodeUtf8Loop errors b.length b

def codePointOfByte (b : UInt8) : CodePoint := ⟨b.toNat, by have := b.toNat_lt; omega⟩

def decodeLatin1 (b : Bytes) : PyStr := b.map codePointOfByte

def decodeAscii (b : Bytes) : Except PyExc PyStr :=
  if b.all (· < 128) then .ok (decodeLatin1 b)
  else .error ⟨.unicodeDecodeError, lit "ordinal not in range(128)"⟩

/-! ## Case and white space -/

def asciiLower (c : CodePoint) : CodePoint :=
  if h : 65 ≤ c.val ∧ c.val ≤ 90 then ⟨c.val + 32, by omega⟩ else c

def asciiUpper (c : CodePoint) : CodePoint :=
  if 97 ≤ c.val ∧ c.val ≤ 122 then ⟨c.val - 32, by have := c.isLt; omega⟩ else c

/-- `str.lower` on text decoded from Latin-1, where it is letterwise. -/
def latin1Lower (s : PyStr) : PyStr := s.map fun c =>
  if h : (65 ≤ c.val ∧ c.val ≤ 90) ∨ (0xC0 ≤ c.val ∧ c.val ≤ 0xDE ∧ c.val ≠ 0xD7) then
    ⟨c.val + 32, by omega⟩
  else c

/-- The white space of the C locale, skipped by `bytes.fromhex` and around integers. -/
def isAsciiSpace (c : CodePoint) : Bool := (9 ≤ c.val && c.val ≤ 13) || c.val == 32

/-- `str.isspace` for one character. -/
def isSpace (c : CodePoint) : Bool :=
  isAsciiSpace c || (28 ≤ c.val && c.val ≤ 31) || c.val == 0x85 || c.val == 0xA0 ||
    c.val == 0x1680 || (0x2000 ≤ c.val && c.val ≤ 0x200A) || c.val == 0x2028 ||
    c.val == 0x2029 || c.val == 0x202F || c.val == 0x205F || c.val == 0x3000

def strip (s : PyStr) : PyStr := ((s.dropWhile isSpace).reverse.dropWhile isSpace).reverse

def startsWith (s p : PyStr) : Bool := p.isPrefixOf s

/-! ## Decimal numerals -/

def digitChar (d : Nat) : CodePoint := ⟨(48 + d) % 0x110000, by omega⟩

/-- The most digits `str` and `int` convert (`sys.int_info.default_max_str_digits`). -/
def maxStrDigits : Nat := 4300

def natDecimal (n : Nat) : PyStr :=
  if n = 0 then [digitChar 0] else ((Nat.digits 10 n).map digitChar).reverse

def intDecimal (n : Int) : PyStr :=
  if n < 0 then 45 :: natDecimal n.natAbs else natDecimal n.natAbs

def strInt (n : Int) : Except PyExc PyStr :=
  if (Nat.digits 10 n.natAbs).length ≤ maxStrDigits then .ok (intDecimal n)
  else valueError (lit "Exceeds the limit for integer string conversion")

/-! ## Encoders are injective where they are defined -/

theorem isValidChar_of_not_surrogate {c : CodePoint} (h : isSurrogate c = false) :
    c.val.isValidChar := by
  have hlt := c.isLt
  simp only [isSurrogate, Bool.and_eq_false_iff, decide_eq_false_iff_not] at h
  unfold Nat.isValidChar
  omega

theorem charOfNat_injective {c d : CodePoint} (hc : isSurrogate c = false)
    (hd : isSurrogate d = false) (h : Char.ofNat c.val = Char.ofNat d.val) : c = d := by
  have hvc := isValidChar_of_not_surrogate hc
  have hvd := isValidChar_of_not_surrogate hd
  rw [Char.ofNat, Char.ofNat, dif_pos hvc, dif_pos hvd] at h
  have hnat := congrArg (fun x => x.val.toNat) h
  apply Fin.ext
  exact hnat

theorem encodeAscii_ok {s : PyStr} {b : Bytes} (h : encodeAscii s = .ok b) :
    s.all isAscii = true ∧ b = s.map fun c => UInt8.ofNat c.val := by
  unfold encodeAscii at h
  split at h
  · rename_i hs
    exact ⟨hs, (Except.ok.inj h).symm⟩
  · cases h

theorem encodeAscii_injective {s t : PyStr} {b : Bytes} (hs : encodeAscii s = .ok b)
    (ht : encodeAscii t = .ok b) : s = t := by
  obtain ⟨has, hbs⟩ := encodeAscii_ok hs
  obtain ⟨hat, hbt⟩ := encodeAscii_ok ht
  refine Lib.SelfDelimiting.map_injective_on (D := fun c => isAscii c = true) ?_
    (List.all_eq_true.mp has) (List.all_eq_true.mp hat) (hbs.symm.trans hbt)
  intro c d hc hd heq
  have hnat := congrArg UInt8.toNat heq
  simp only [isAscii, decide_eq_true_eq] at hc hd
  simp only [UInt8.toNat_ofNat'] at hnat
  exact Fin.ext (by omega)

theorem encodeUtf8_ok {s : PyStr} {b : Bytes} (h : encodeUtf8 s = .ok b) :
    s.any isSurrogate = false ∧
      b = (s.map fun c => Char.ofNat c.val).flatMap String.utf8EncodeChar := by
  unfold encodeUtf8 at h
  split at h
  · cases h
  · rename_i hs
    exact ⟨by simpa using hs, (Except.ok.inj h).symm⟩

theorem utf8_injective {cs ds : List Char}
    (h : cs.flatMap String.utf8EncodeChar = ds.flatMap String.utf8EncodeChar) : cs = ds := by
  have henc : cs.utf8Encode = ds.utf8Encode := congrArg List.toByteArray h
  have hdec := congrArg ByteArray.utf8Decode? henc
  rw [List.utf8Decode?_utf8Encode, List.utf8Decode?_utf8Encode] at hdec
  simpa using hdec

theorem encodeUtf8_injective {s t : PyStr} {b : Bytes} (hs : encodeUtf8 s = .ok b)
    (ht : encodeUtf8 t = .ok b) : s = t := by
  obtain ⟨hss, hbs⟩ := encodeUtf8_ok hs
  obtain ⟨hst, hbt⟩ := encodeUtf8_ok ht
  refine Lib.SelfDelimiting.map_injective_on (D := fun c => isSurrogate c = false)
    charOfNat_injective ?_ ?_ (utf8_injective (hbs.symm.trans hbt))
  · simpa using hss
  · simpa using hst

/-- ASCII text has both encodings, a byte a character. -/
theorem decodeUtf8Loop_chars (errors : DecodeErrors) (cs : List Char) (n : Nat)
    (hn : (cs.flatMap String.utf8EncodeChar).length ≤ n) :
    decodeUtf8Loop errors n (cs.flatMap String.utf8EncodeChar) = .ok (cs.map CodePoint.ofChar) := by
  induction cs generalizing n with
  | nil => cases n <;> rfl
  | cons c cs ih =>
    rw [List.flatMap_cons, List.length_append, String.length_utf8EncodeChar] at hn
    have hpos := c.utf8Size_pos
    cases hbytes : String.utf8EncodeChar c with
    | nil =>
      have hlen := String.length_utf8EncodeChar c
      simp only [hbytes, List.length_nil] at hlen
      omega
    | cons b bs =>
      have hdecode : ((b :: bs) ++ cs.flatMap String.utf8EncodeChar).toByteArray.utf8DecodeChar? 0 =
          some c := by
        rw [← hbytes]
        have h := ByteArray.utf8DecodeChar?_utf8EncodeChar_append
          (b := (cs.flatMap String.utf8EncodeChar).toByteArray) (c := c)
        simpa using h
      have hdrop : ((b :: bs) ++ cs.flatMap String.utf8EncodeChar).drop c.utf8Size =
          cs.flatMap String.utf8EncodeChar := by
        rw [← hbytes]
        exact List.drop_left' (String.length_utf8EncodeChar c)
      obtain ⟨m, rfl⟩ : ∃ m, n = m + 1 := ⟨n - 1, by omega⟩
      rw [List.flatMap_cons, hbytes, List.cons_append, decodeUtf8Loop]
      rw [List.cons_append] at hdecode hdrop
      simp only [hdecode, hdrop, ih m (by omega), Except.map, List.map_cons]

/-- What was encoded is decoded, whatever the decoder does with other bytes. -/
theorem decodeUtf8_encodeUtf8 {s : PyStr} {b : Bytes} (h : encodeUtf8 s = .ok b)
    (errors : DecodeErrors) : decodeUtf8 errors b = .ok s := by
  obtain ⟨hs, rfl⟩ := encodeUtf8_ok h
  unfold decodeUtf8
  rw [decodeUtf8Loop_chars errors _ _ (Nat.le_refl _), List.map_map]
  have hchar : ∀ c ∈ s, CodePoint.ofChar (Char.ofNat c.val) = c := by
    intro c hc
    have hplain : isSurrogate c = false := by simpa using List.any_eq_false.mp hs c hc
    rw [Char.ofNat, dif_pos (isValidChar_of_not_surrogate hplain)]
    exact Fin.ext (Nat.mod_eq_of_lt c.isLt)
  have hsame : s.map (CodePoint.ofChar ∘ fun c => Char.ofNat c.val) = s :=
    (List.map_congr_left hchar).trans (List.map_id' s)
  rw [hsame]

theorem encodeUtf8_of_ascii {s : PyStr} (h : s.all isAscii = true) :
    ∃ b, encodeUtf8 s = .ok b ∧ b.length = s.length := by
  have hplain : s.any isSurrogate = false := by
    apply List.any_eq_false.mpr
    intro c hc
    have hascii := List.all_eq_true.mp h c hc
    simp only [isAscii, decide_eq_true_eq] at hascii
    simp only [isSurrogate, Bool.and_eq_true, decide_eq_true_eq]
    omega
  refine ⟨_, by simp only [encodeUtf8, hplain, Bool.false_eq_true, if_false]; rfl, ?_⟩
  clear hplain
  induction s with
  | nil => rfl
  | cons c s ih =>
    obtain ⟨hc, hs⟩ := Bool.and_eq_true_iff.mp h
    have hlt : c.val < 128 := by simpa [isAscii] using hc
    have hsize : (Char.ofNat c.val).utf8Size = 1 := by
      rw [Char.utf8Size_eq_one_iff, Char.ofNat, dif_pos (by unfold Nat.isValidChar; omega)]
      apply UInt32.le_iff_toNat_le.mpr
      have hle : c.val ≤ 127 := by omega
      exact hle
    simp [ih hs, hsize, Nat.add_comm]

theorem encodeUtf8_length {s : PyStr} {b : Bytes} (h : encodeUtf8 s = .ok b) :
    b.length ≤ 4 * s.length := by
  rw [(encodeUtf8_ok h).2]
  clear h
  induction s with
  | nil => exact Nat.le_refl 0
  | cons c s ih =>
    have hsize := Char.utf8Size_le_four (Char.ofNat c.val)
    simp only [List.map_cons, List.flatMap_cons, List.length_append, List.length_cons,
      String.length_utf8EncodeChar] at ih ⊢
    omega

theorem encodeAscii_of_ascii {s : PyStr} (h : s.all isAscii = true) :
    ∃ b, encodeAscii s = .ok b ∧ b.length = s.length :=
  ⟨_, by simp only [encodeAscii, h, if_true]; rfl, by simp⟩

theorem digitChar_injective {a b : Nat} (ha : a < 10) (hb : b < 10)
    (h : digitChar a = digitChar b) : a = b := by
  have hval := congrArg Fin.val h
  simp only [digitChar] at hval
  omega

/-- The digits of a number, most significant first. -/
def decimalDigits (n : Nat) : List Nat := if n = 0 then [0] else (Nat.digits 10 n).reverse

theorem natDecimal_eq (n : Nat) : natDecimal n = (decimalDigits n).map digitChar := by
  unfold natDecimal decimalDigits
  split <;> simp

theorem decimalDigits_lt {n d : Nat} (h : d ∈ decimalDigits n) : d < 10 := by
  unfold decimalDigits at h
  split at h
  · simp_all
  · exact Nat.digits_lt_base (by omega) (List.mem_reverse.mp h)

theorem decimalDigits_ne_nil (n : Nat) : decimalDigits n ≠ [] := by
  unfold decimalDigits
  split
  · simp
  · rename_i hn
    simpa [Nat.digits_ne_nil_iff_ne_zero] using hn

theorem decimalDigits_value (n : Nat) :
    (decimalDigits n).foldl (fun v d => v * 10 + d) 0 = n := by
  unfold decimalDigits
  split
  · simp_all
  · rw [List.foldl_reverse]
    calc (Nat.digits 10 n).foldr (fun d v => v * 10 + d) 0
        = Nat.ofDigits 10 (Nat.digits 10 n) := by
          rw [Nat.ofDigits_eq_foldr]
          congr 1
          funext d v
          simp [Nat.mul_comm, Nat.add_comm]
      _ = n := Nat.ofDigits_digits 10 n

theorem natDecimal_head (n : Nat) :
    ∃ d ds, natDecimal n = digitChar d :: ds ∧ d < 10 := by
  rw [natDecimal_eq]
  cases hds : decimalDigits n with
  | nil => exact absurd hds (decimalDigits_ne_nil n)
  | cons d ds =>
    exact ⟨d, ds.map digitChar, rfl, decimalDigits_lt (by rw [hds]; exact List.mem_cons_self)⟩

theorem natDecimal_length {n k : Nat} (hk : 0 < k) (h : n < 10 ^ k) :
    (natDecimal n).length ≤ k := by
  rw [natDecimal_eq, List.length_map]
  unfold decimalDigits
  split
  · exact hk
  · rw [List.length_reverse]
    exact (Nat.digits_length_le_iff (by omega) n).mpr h

theorem natDecimal_ascii (n : Nat) : (natDecimal n).all isAscii = true := by
  rw [natDecimal_eq]
  apply List.all_eq_true.mpr
  intro c hc
  obtain ⟨d, hd, rfl⟩ := List.mem_map.mp hc
  have hlt := decimalDigits_lt hd
  unfold isAscii digitChar
  exact decide_eq_true (by dsimp only; omega)

theorem natDecimal_injective {n m : Nat} (h : natDecimal n = natDecimal m) : n = m := by
  rw [natDecimal_eq, natDecimal_eq] at h
  have hdigits := Lib.SelfDelimiting.map_injective_on (D := fun d => d < 10) digitChar_injective
    (fun _ => decimalDigits_lt) (fun _ => decimalDigits_lt) h
  rw [← decimalDigits_value n, ← decimalDigits_value m, hdigits]

theorem natDecimal_head_ne_minus (n : Nat) (rest : PyStr) : natDecimal n ≠ 45 :: rest := by
  intro h
  have hmem : (45 : CodePoint) ∈ natDecimal n := by simp [h]
  unfold natDecimal at hmem
  split at hmem
  · simp only [List.mem_singleton] at hmem
    exact absurd hmem (by decide)
  · obtain ⟨d, _, hd⟩ := List.mem_map.mp (List.mem_reverse.mp hmem)
    have hval := congrArg Fin.val hd
    have hd10 : d < 10 := Nat.digits_lt_base (by omega) (by assumption)
    have h45 : (45 : CodePoint).val = 45 := rfl
    simp only [digitChar] at hval
    omega

theorem intDecimal_injective {n m : Int} (h : intDecimal n = intDecimal m) : n = m := by
  unfold intDecimal at h
  split at h <;> split at h
  · have := natDecimal_injective (List.cons.inj h).2
    omega
  · exact absurd h.symm (natDecimal_head_ne_minus _ _)
  · exact absurd h (natDecimal_head_ne_minus _ _)
  · have := natDecimal_injective h
    omega

theorem strInt_ok {n : Int} {s : PyStr} (h : strInt n = .ok s) : s = intDecimal n := by
  unfold strInt at h
  split at h
  · exact (Except.ok.inj h).symm
  · cases h

end Rdap.Python
