import Rdap.Python.Text

/-!
# Hexadecimal and base64

`bytes.fromhex` skips white space between bytes and takes either case. The strict base64
decoder (`validate=True`) insists on whole quads over the standard alphabet, but it drops
the unused low bits of the last data character without looking at them.
-/

set_option autoImplicit false

namespace Rdap.Python

def hexDigit (c : CodePoint) : Option Nat :=
  if 48 ≤ c.val ∧ c.val ≤ 57 then some (c.val - 48)
  else if 97 ≤ c.val ∧ c.val ≤ 102 then some (c.val - 87)
  else if 65 ≤ c.val ∧ c.val ≤ 70 then some (c.val - 55)
  else none

def fromhexError : PyExc :=
  ⟨.valueError, lit "non-hexadecimal number found in fromhex() arg"⟩

def fromhex : PyStr → Except PyExc Bytes
  | [] => .ok []
  | c :: rest =>
    if isAsciiSpace c then fromhex rest
    else match hexDigit c, rest with
      | some hi, d :: rest =>
        match hexDigit d with
        | some lo => (fromhex rest).map (UInt8.ofNat (hi * 16 + lo) :: ·)
        | none => .error fromhexError
      | _, _ => .error fromhexError

def hexChar (d : Nat) : CodePoint :=
  if d < 10 then digitChar d else ⟨(87 + d) % 0x110000, by omega⟩

/-- `bytes.hex`, lower case and without separators. -/
def hex (b : Bytes) : PyStr := b.flatMap fun x => [hexChar (x.toNat / 16), hexChar (x.toNat % 16)]

theorem hexDigit_hexChar {d : Nat} (hd : d < 16) :
    hexDigit (hexChar d) = some d ∧ isAsciiSpace (hexChar d) = false := by
  have hdecide : ∀ d : Fin 16,
      hexDigit (hexChar d) = some d.val ∧ isAsciiSpace (hexChar d) = false := by decide
  exact hdecide ⟨d, hd⟩

theorem byte_of_eq {n : Nat} {x : UInt8} (h : n = x.toNat) : UInt8.ofNat n = x := by
  rw [h]
  exact UInt8.ofNat_toNat

theorem fromhex_hex (b : Bytes) : fromhex (hex b) = .ok b := by
  induction b with
  | nil => rfl
  | cons x b ih =>
    have hx := x.toNat_lt
    obtain ⟨hhi, hspace⟩ := hexDigit_hexChar (show x.toNat / 16 < 16 by omega)
    obtain ⟨hlo, _⟩ := hexDigit_hexChar (show x.toNat % 16 < 16 by omega)
    have hbyte : UInt8.ofNat (x.toNat / 16 * 16 + x.toNat % 16) = x := byte_of_eq (by omega)
    have hrest : fromhex (b.flatMap fun x => [hexChar (x.toNat / 16), hexChar (x.toNat % 16)]) =
        .ok b := ih
    simp only [hex, List.flatMap_cons, List.cons_append, List.nil_append]
    rw [fromhex.eq_def]
    simp only [hspace, hhi, hlo, hrest, Bool.false_eq_true, if_false, Except.map, hbyte]

theorem hex_length (b : Bytes) : (hex b).length = 2 * b.length := by
  induction b with
  | nil => rfl
  | cons x b ih =>
    simp only [hex, List.flatMap_cons, List.length_append, List.length_cons, List.length_nil] at ih ⊢
    omega

theorem hex_ascii (b : Bytes) : (hex b).all isAscii = true := by
  have hchar : ∀ d, d < 16 → isAscii (hexChar d) = true := by decide
  apply List.all_eq_true.mpr
  intro c hc
  obtain ⟨x, _, hx⟩ := List.mem_flatMap.mp hc
  have hlt := x.toNat_lt
  rcases List.mem_pair.mp hx with rfl | rfl
  · exact hchar _ (by omega)
  · exact hchar _ (by omega)

/-! ## Base64 -/

def b64Pad : CodePoint := 61

def b64Value (c : CodePoint) : Option Nat :=
  if 65 ≤ c.val ∧ c.val ≤ 90 then some (c.val - 65)
  else if 97 ≤ c.val ∧ c.val ≤ 122 then some (c.val - 71)
  else if 48 ≤ c.val ∧ c.val ≤ 57 then some (c.val + 4)
  else if c.val = 43 then some 62
  else if c.val = 47 then some 63
  else none

def b64Char (v : Nat) : CodePoint :=
  if v < 26 then ⟨(65 + v) % 0x110000, by omega⟩
  else if v < 52 then ⟨(71 + v) % 0x110000, by omega⟩
  else if v < 62 then ⟨(v - 4) % 0x110000, by omega⟩
  else if v = 62 then 43
  else 47

/-- Padding ends the input. The last quad may have it, and behind complete quads any amount is passed over. -/
def decodeQuads : PyStr → Option Bytes
  | [] => some []
  | a :: b :: c :: d :: rest =>
    match b64Value a, b64Value b with
    | some x, some y =>
      if d = b64Pad ∧ rest = [] then
        if c = b64Pad then some [UInt8.ofNat (x * 4 + y / 16)]
        else match b64Value c with
          | some z => some [UInt8.ofNat (x * 4 + y / 16), UInt8.ofNat (y % 16 * 16 + z / 4)]
          | none => none
      else match b64Value c, b64Value d with
        | some z, some w =>
          (if rest.all (· = b64Pad) then some [] else decodeQuads rest).map fun tail =>
            UInt8.ofNat (x * 4 + y / 16) :: UInt8.ofNat (y % 16 * 16 + z / 4) ::
              UInt8.ofNat (z % 4 * 64 + w) :: tail
        | _, _ => none
    | _, _ => none
  | _ => none

/-- `base64.b64decode(s, validate=True)` -/
def b64decode (s : PyStr) : Except PyExc Bytes :=
  if s.all isAscii then
    match decodeQuads s with
    | some b => .ok b
    | none => .error ⟨.binasciiError, lit "Invalid base64-encoded string"⟩
  else valueError (lit "string argument should contain only ASCII characters")

def b64encode : Bytes → PyStr
  | [] => []
  | [x] => [b64Char (x.toNat / 4), b64Char (x.toNat % 4 * 16), b64Pad, b64Pad]
  | [x, y] => [b64Char (x.toNat / 4), b64Char (x.toNat % 4 * 16 + y.toNat / 16),
      b64Char (y.toNat % 16 * 4), b64Pad]
  | x :: y :: z :: rest =>
    b64Char (x.toNat / 4) :: b64Char (x.toNat % 4 * 16 + y.toNat / 16) ::
      b64Char (y.toNat % 16 * 4 + z.toNat / 64) :: b64Char (z.toNat % 64) :: b64encode rest

theorem b64encode_length (b : Bytes) : (b64encode b).length = 4 * ((b.length + 2) / 3) := by
  induction b using b64encode.induct with
  | case1 => rfl
  | case2 x => simp [b64encode]
  | case3 x y => simp [b64encode]
  | case4 x y z rest ih =>
    simp only [b64encode, List.length_cons, ih]
    omega

theorem b64Value_b64Char {v : Nat} (hv : v < 64) :
    b64Value (b64Char v) = some v ∧ b64Char v ≠ b64Pad ∧ isAscii (b64Char v) = true := by
  have hdecide : ∀ v : Fin 64, b64Value (b64Char v) = some v.val ∧ b64Char v ≠ b64Pad ∧
      isAscii (b64Char v) = true := by decide
  exact hdecide ⟨v, hv⟩

/-- The encoder writes padding only into a quad. -/
theorem b64encode_all_pad (b : Bytes) (h : (b64encode b).all (· = b64Pad) = true) : b = [] := by
  have hhead : ∀ v c, v < 64 → ¬ (b64Char v :: c).all (· = b64Pad) = true := by
    intro v c hv hall
    obtain ⟨_, hne, _⟩ := b64Value_b64Char hv
    rw [List.all_cons, Bool.and_eq_true, decide_eq_true_eq] at hall
    exact hne hall.1
  cases b using b64encode.fun_cases with
  | case1 => rfl
  | case2 x => exact absurd h (hhead _ _ (by have := x.toNat_lt; omega))
  | case3 x y => exact absurd h (hhead _ _ (by have := x.toNat_lt; omega))
  | case4 x y z rest => exact absurd h (hhead _ _ (by have := x.toNat_lt; omega))

/-- The encoder's own spelling decodes to what was encoded. -/
theorem decodeQuads_b64encode (b : Bytes) :
    decodeQuads (b64encode b) = some b ∧ (b64encode b).all isAscii = true := by
  have hpad : isAscii b64Pad = true := by decide
  induction b using b64encode.induct with
  | case1 => exact ⟨rfl, rfl⟩
  | case2 x =>
    have hx := x.toNat_lt
    obtain ⟨h₁, _, ha₁⟩ := b64Value_b64Char (show x.toNat / 4 < 64 by omega)
    obtain ⟨h₂, _, ha₂⟩ := b64Value_b64Char (show x.toNat % 4 * 16 < 64 by omega)
    have hx' : UInt8.ofNat (x.toNat / 4 * 4 + x.toNat % 4 * 16 / 16) = x := byte_of_eq (by omega)
    refine ⟨?_, by simp [b64encode, ha₁, ha₂, hpad]⟩
    simp only [b64encode, decodeQuads, h₁, h₂, hx', and_self, if_true]
  | case3 x y =>
    have hx := x.toNat_lt
    have hy := y.toNat_lt
    obtain ⟨h₁, _, ha₁⟩ := b64Value_b64Char (show x.toNat / 4 < 64 by omega)
    obtain ⟨h₂, _, ha₂⟩ := b64Value_b64Char (show x.toNat % 4 * 16 + y.toNat / 16 < 64 by omega)
    obtain ⟨h₃, hne, ha₃⟩ := b64Value_b64Char (show y.toNat % 16 * 4 < 64 by omega)
    have hx' : UInt8.ofNat (x.toNat / 4 * 4 + (x.toNat % 4 * 16 + y.toNat / 16) / 16) = x :=
      byte_of_eq (by omega)
    have hy' : UInt8.ofNat ((x.toNat % 4 * 16 + y.toNat / 16) % 16 * 16 + y.toNat % 16 * 4 / 4) =
        y := byte_of_eq (by omega)
    refine ⟨?_, by simp [b64encode, ha₁, ha₂, ha₃, hpad]⟩
    simp only [b64encode, decodeQuads, h₁, h₂, h₃, hne, hx', hy', and_self, if_true, if_false]
  | case4 x y z rest ih =>
    have hx := x.toNat_lt
    have hy := y.toNat_lt
    have hz := z.toNat_lt
    obtain ⟨h₁, _, ha₁⟩ := b64Value_b64Char (show x.toNat / 4 < 64 by omega)
    obtain ⟨h₂, _, ha₂⟩ := b64Value_b64Char (show x.toNat % 4 * 16 + y.toNat / 16 < 64 by omega)
    obtain ⟨h₃, _, ha₃⟩ := b64Value_b64Char (show y.toNat % 16 * 4 + z.toNat / 64 < 64 by omega)
    obtain ⟨h₄, hne, ha₄⟩ := b64Value_b64Char (show z.toNat % 64 < 64 by omega)
    have hx' : UInt8.ofNat (x.toNat / 4 * 4 + (x.toNat % 4 * 16 + y.toNat / 16) / 16) = x :=
      byte_of_eq (by omega)
    have hy' : UInt8.ofNat ((x.toNat % 4 * 16 + y.toNat / 16) % 16 * 16 +
        (y.toNat % 16 * 4 + z.toNat / 64) / 4) = y := byte_of_eq (by omega)
    have hz' : UInt8.ofNat ((y.toNat % 16 * 4 + z.toNat / 64) % 4 * 64 + z.toNat % 64) = z :=
      byte_of_eq (by omega)
    refine ⟨?_, by simp [b64encode, ha₁, ha₂, ha₃, ha₄, ih.2]⟩
    have htail : (if (b64encode rest).all (· = b64Pad) then some [] else decodeQuads (b64encode rest)) =
        some rest := by
      split
      · rename_i hpads
        rw [b64encode_all_pad rest hpads]
      · exact ih.1
    simp only [b64encode, decodeQuads, h₁, h₂, h₃, h₄, hne, false_and, if_false, htail,
      Option.map_some, hx', hy', hz']

theorem b64decode_b64encode (b : Bytes) : b64decode (b64encode b) = .ok b := by
  obtain ⟨hquads, hascii⟩ := decodeQuads_b64encode b
  simp only [b64decode, hascii, if_true, hquads]

theorem b64decode_ascii {s : PyStr} {b : Bytes} (h : b64decode s = .ok b) :
    s.all isAscii = true := by
  unfold b64decode at h
  split at h
  · assumption
  · cases h

/-- The spelling of a byte string is not unique: `YQ==` and `YR==` are the same byte. -/
example : b64decode (lit "YQ==") = b64decode (lit "YR==") := by decide
example : b64decode (lit "AAAA==") = b64decode (lit "AAAA") := by decide

end Rdap.Python
