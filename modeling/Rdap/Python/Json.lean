import Rdap.Python.Control
import Rdap.Python.Value

/-!
# JSON text

`json.dumps` with `ensure_ascii=False`, in the compact and in the indented layout, and
`json.loads`. The scanner is the one of the C accelerator: whitespace is skipped around
every separator, a lone surrogate escape is kept, a later member replaces an earlier one
of the same name, and each nested container costs one level of recursion.
-/

set_option autoImplicit false

namespace Rdap.Python.Json

def quote : CodePoint := 34
def comma : CodePoint := 44
def minus : CodePoint := 45
def colon : CodePoint := 58
def backslash : CodePoint := 92
def openList : CodePoint := 91
def closeList : CodePoint := 93
def openDict : CodePoint := 123
def closeDict : CodePoint := 125

def isJsonSpace (c : CodePoint) : Bool := c.val = 32 || c.val = 9 || c.val = 10 || c.val = 13

def skipSpace (s : PyStr) : PyStr := s.dropWhile isJsonSpace

def isDigit (c : CodePoint) : Bool := 48 ≤ c.val && c.val ≤ 57

variable (P : Platform)

/-! ## Writing -/

/-- What stands between the tokens: the break before an item at a depth, and the gap after a
colon. -/
structure Layout where
  lineBreak : Nat → PyStr
  gap : PyStr
  lineBreak_space : ∀ depth, (lineBreak depth).all isJsonSpace = true
  gap_space : gap.all isJsonSpace = true

/-- `separators=(',', ':')` -/
def compact : Layout := ⟨fun _ => [], [], fun _ => rfl, rfl⟩

/-- `indent=2` -/
def indented : Layout where
  lineBreak depth := 10 :: List.replicate (2 * depth) 32
  gap := [32]
  lineBreak_space depth := by simp [isJsonSpace, List.all_replicate]
  gap_space := rfl

def escapeChar (c : CodePoint) : PyStr :=
  if c.val = 34 then [backslash, 34]
  else if c.val = 92 then [backslash, 92]
  else if c.val = 8 then [backslash, 98]
  else if c.val = 9 then [backslash, 116]
  else if c.val = 10 then [backslash, 110]
  else if c.val = 12 then [backslash, 102]
  else if c.val = 13 then [backslash, 114]
  else if c.val < 32 then [backslash, 117, 48, 48, hexChar (c.val / 16), hexChar (c.val % 16)]
  else [c]

def encodeString (s : PyStr) : PyStr := quote :: s.flatMap escapeChar ++ [quote]

def nan : UInt64 := 0x7FF8000000000000
def infinity : UInt64 := 0x7FF0000000000000
def negInfinity : UInt64 := 0xFFF0000000000000

def encodeFloat (bits : UInt64) : PyStr :=
  if bits = infinity then lit "Infinity"
  else if bits = negInfinity then lit "-Infinity"
  else if bits.toNat / 2 ^ 52 % 2 ^ 11 = 2047 then lit "NaN"
  else P.reprValue (.float bits)

mutual

def encodeValue (layout : Layout) (depth : Nat) : Value → Except PyExc PyStr
  | .none => .ok (lit "null")
  | .bool true => .ok (lit "true")
  | .bool false => .ok (lit "false")
  | .int n => strInt n
  | .float bits => .ok (encodeFloat P bits)
  | .str s => .ok (encodeString s)
  | .list [] => .ok [openList, closeList]
  | .list (v :: vs) => do
    let first ← encodeValue layout (depth + 1) v
    let others ← encodeItems layout (depth + 1) vs
    return openList :: layout.lineBreak (depth + 1) ++ first ++ others ++ layout.lineBreak depth ++
      [closeList]
  | .dict [] => .ok [openDict, closeDict]
  | .dict ((key, v) :: items) => do
    let first ← encodeValue layout (depth + 1) v
    let others ← encodeMembers layout (depth + 1) items
    return openDict :: layout.lineBreak (depth + 1) ++ encodeString key ++ colon :: layout.gap ++
      first ++ others ++ layout.lineBreak depth ++ [closeDict]

/-- The items after the first. -/
def encodeItems (layout : Layout) (depth : Nat) : List Value → Except PyExc PyStr
  | [] => .ok []
  | v :: vs => do
    let item ← encodeValue layout depth v
    let others ← encodeItems layout depth vs
    return comma :: layout.lineBreak depth ++ item ++ others

/-- The members after the first. -/
def encodeMembers (layout : Layout) (depth : Nat) : List (PyStr × Value) → Except PyExc PyStr
  | [] => .ok []
  | (key, v) :: items => do
    let item ← encodeValue layout depth v
    let others ← encodeMembers layout depth items
    return comma :: layout.lineBreak depth ++ encodeString key ++ colon :: layout.gap ++ item ++ others

end

mutual

/-- How deep containers nest. -/
def depth : Value → Nat
  | .none | .bool _ | .int _ | .float _ | .str _ => 0
  | .list items => depthItems items + 1
  | .dict items => depthMembers items + 1

def depthItems : List Value → Nat
  | [] => 0
  | v :: vs => max (depth v) (depthItems vs)

def depthMembers : List (PyStr × Value) → Nat
  | [] => 0
  | (_, v) :: items => max (depth v) (depthMembers items)

end

def recursionError {α : Type} : Except PyExc α :=
  .error ⟨.recursionError, lit "maximum recursion depth exceeded"⟩

def dumps (layout : Layout) (v : Value) : Except PyExc PyStr :=
  if P.recursionLimit < depth v then recursionError else encodeValue P layout 0 v

/-! ## Reading -/

/-- What was read and what is left. -/
abbrev Scan (α : Type) := Except PyExc (α × PyStr)

def expectingValue {α : Type} : Except PyExc α := valueError (lit "Expecting value")

def hexQuad (a b c d : CodePoint) : Option Nat :=
  match hexDigit a, hexDigit b, hexDigit c, hexDigit d with
  | some x, some y, some z, some w => some (x * 4096 + y * 256 + z * 16 + w)
  | _, _, _, _ => none

def codeUnit (n : Nat) : CodePoint := ⟨n % 0x110000, by omega⟩

def isHigh (n : Nat) : Bool := 0xD800 ≤ n && n ≤ 0xDBFF
def isLow (n : Nat) : Bool := 0xDC00 ≤ n && n ≤ 0xDFFF

def joinSurrogates (hi lo : Nat) : CodePoint :=
  codeUnit (0x10000 + (hi - 0xD800) * 1024 + (lo - 0xDC00))

def unescape (c : CodePoint) : Option CodePoint :=
  if c.val = 34 ∨ c.val = 92 ∨ c.val = 47 then some c
  else if c.val = 98 then some 8
  else if c.val = 102 then some 12
  else if c.val = 110 then some 10
  else if c.val = 114 then some 13
  else if c.val = 116 then some 9
  else none

def invalidEscape {α : Type} : Except PyExc α := valueError (lit "Invalid escape")

def emit (text : PyStr) (r : Scan PyStr) : Scan PyStr := r.map fun p => (text ++ p.1, p.2)

/-- A high surrogate that was read as an escape and may still find its partner. -/
def flush : Option Nat → PyStr
  | none => []
  | some hi => [codeUnit hi]

/-- What is settled by a `\u` escape, and whether it leaves a surrogate waiting. -/
def escapeUnit (pending : Option Nat) (unit : Nat) : PyStr × Option Nat :=
  match pending with
  | some hi =>
    if isLow unit then ([joinSurrogates hi unit], none)
    else if isHigh unit then (flush pending, some unit)
    else (flush pending ++ [codeUnit unit], none)
  | none => if isHigh unit then ([], some unit) else ([codeUnit unit], none)

/-- The rest of a string literal behind its opening quote. -/
def scanString : Option Nat → PyStr → Scan PyStr
  | _, [] => valueError (lit "Unterminated string")
  | pending, c :: rest =>
    if c = quote then .ok (flush pending, rest)
    else if c ≠ backslash then
      if c.val < 32 then valueError (lit "Invalid control character")
      else emit (flush pending ++ [c]) (scanString none rest)
    else match rest with
      | [] => valueError (lit "Unterminated string")
      | e :: rest =>
        if e.val ≠ 117 then
          match unescape e with
          | some c => emit (flush pending ++ [c]) (scanString none rest)
          | none => invalidEscape
        else match rest with
          | x :: y :: z :: w :: rest =>
            match hexQuad x y z w with
            | none => invalidEscape
            | some unit =>
              let r := escapeUnit pending unit
              emit r.1 (scanString r.2 rest)
          | _ => invalidEscape

/-- Digits behind a point, with the point, if there are any. -/
def scanFraction : PyStr → PyStr × PyStr
  | c :: d :: rest =>
    if c.val = 46 ∧ isDigit d then (c :: (d :: rest).takeWhile isDigit, rest.dropWhile isDigit)
    else ([], c :: d :: rest)
  | s => ([], s)

def splitExponentSign : PyStr → PyStr × PyStr
  | c :: rest => if c.val = 43 ∨ c.val = 45 then ([c], rest) else ([], c :: rest)
  | [] => ([], [])

def scanExponent : PyStr → PyStr × PyStr
  | c :: rest =>
    let (sign, digits) := splitExponentSign rest
    if (c.val = 101 ∨ c.val = 69) ∧ (digits.takeWhile isDigit) ≠ [] then
      (c :: sign ++ digits.takeWhile isDigit, digits.dropWhile isDigit)
    else ([], c :: rest)
  | [] => ([], [])

/-- The digits of the integer part: a zero stands alone. -/
def scanWhole : PyStr → Option (PyStr × PyStr)
  | [] => none
  | c :: rest =>
    if c.val = 48 then some ([c], rest)
    else if isDigit c then some (c :: rest.takeWhile isDigit, rest.dropWhile isDigit)
    else none

def splitMinus : PyStr → PyStr × PyStr
  | c :: rest => if c = minus then ([c], rest) else ([], c :: rest)
  | [] => ([], [])

def scanNumeral (s : PyStr) : Scan Value :=
  let signed := splitMinus s
  match scanWhole signed.2 with
  | none => expectingValue
  | some (whole, rest) =>
    let fraction := scanFraction rest
    let exponent := scanExponent fraction.2
    if fraction.1 = [] ∧ exponent.1 = [] then
      (intOfStr P (signed.1 ++ whole)).map fun n => (.int n, rest)
    else .ok (.float (P.parseFloat (signed.1 ++ whole ++ fraction.1 ++ exponent.1)), exponent.2)

/-- The words of JSON and the three that Python adds. -/
def words : List (PyStr × Value) :=
  [(lit "null", .none), (lit "true", .bool true), (lit "false", .bool false),
    (lit "NaN", .float nan), (lit "Infinity", .float infinity),
    (lit "-Infinity", .float negInfinity)]

def scanScalar (s : PyStr) : Scan Value :=
  match words.find? fun word => startsWith s word.1 with
  | some (word, v) => .ok (v, s.drop word.length)
  | none => scanNumeral P s

/-- The items after the first, up to the closing bracket; each takes a comma. -/
def scanItems (scan : PyStr → Scan Value) : Nat → PyStr → Except PyExc (List Value × PyStr)
  | 0, _ => valueError (lit "Expecting ',' delimiter")
  | n + 1, s =>
    match skipSpace s with
    | [] => valueError (lit "Expecting ',' delimiter")
    | c :: rest =>
      if c = closeList then .ok ([], rest)
      else if c = comma then do
        let (v, rest) ← scan (skipSpace rest)
        let (vs, rest) ← scanItems scan n rest
        return (v :: vs, rest)
      else valueError (lit "Expecting ',' delimiter")

def scanKey : PyStr → Except PyExc (PyStr × PyStr)
  | [] => valueError (lit "Expecting property name enclosed in double quotes")
  | c :: rest =>
    if c = quote then do
      let (key, rest) ← scanString none rest
      match skipSpace rest with
      | [] => valueError (lit "Expecting ':' delimiter")
      | c :: rest =>
        if c = colon then return (key, skipSpace rest)
        else valueError (lit "Expecting ':' delimiter")
    else valueError (lit "Expecting property name enclosed in double quotes")

def scanMember (scan : PyStr → Scan Value) (s : PyStr) :
    Except PyExc ((PyStr × Value) × PyStr) := do
  let (key, rest) ← scanKey s
  let (v, rest) ← scan rest
  return ((key, v), rest)

/-- The members after the first. -/
def scanMembers (scan : PyStr → Scan Value) :
    Nat → PyStr → Except PyExc (List (PyStr × Value) × PyStr)
  | 0, _ => valueError (lit "Expecting ',' delimiter")
  | n + 1, s =>
    match skipSpace s with
    | [] => valueError (lit "Expecting ',' delimiter")
    | c :: rest =>
      if c = closeDict then .ok ([], rest)
      else if c = comma then do
        let (item, rest) ← scanMember scan (skipSpace rest)
        let (items, rest) ← scanMembers scan n rest
        return (item :: items, rest)
      else valueError (lit "Expecting ',' delimiter")

/-- `d[key] = v` -/
def dictSet (d : Dict) (key : PyStr) (v : Value) : Dict :=
  if d.any fun item => item.1 = key then d.map fun item => if item.1 = key then (key, v) else item
  else d ++ [(key, v)]

def dictOf (items : List (PyStr × Value)) : Dict :=
  items.foldl (fun d item => dictSet d item.1 item.2) []

def scanList (scan : PyStr → Scan Value) (s : PyStr) : Except PyExc (Value × PyStr) :=
  let s := skipSpace s
  if s.head? = some closeList then .ok (.list [], s.tail)
  else do
    let (v, rest) ← scan s
    let (vs, rest) ← scanItems scan (rest.length + 1) rest
    return (.list (v :: vs), rest)

def scanDict (scan : PyStr → Scan Value) (s : PyStr) : Except PyExc (Value × PyStr) :=
  let s := skipSpace s
  if s.head? = some closeDict then .ok (.dict [], s.tail)
  else do
    let (item, rest) ← scanMember scan s
    let (items, rest) ← scanMembers scan (rest.length + 1) rest
    return (.dict (dictOf (item :: items)), rest)

/-- One value; `inner` reads the contents of a container. -/
def scanValue (inner : Option (PyStr → Scan Value)) : PyStr → Scan Value
  | [] => expectingValue
  | c :: rest =>
    if c = quote then (scanString none rest).map fun p => (.str p.1, p.2)
    else if c = openList then
      match inner with
      | none => recursionError
      | some scan => scanList scan rest
    else if c = openDict then
      match inner with
      | none => recursionError
      | some scan => scanDict scan rest
    else scanScalar P (c :: rest)

def scanOnce : Nat → PyStr → Scan Value
  | 0 => scanValue P none
  | n + 1 => scanValue P (some (scanOnce n))

def byteOrderMark : CodePoint := 0xFEFF

def loads (s : PyStr) : Except PyExc Value :=
  if s.head? = some byteOrderMark then
    valueError (lit "Unexpected UTF-8 BOM (decode using utf-8-sig)")
  else do
    let (v, rest) ← scanOnce P P.recursionLimit (skipSpace s)
    if skipSpace rest = [] then return v else valueError (lit "Extra data")

end Rdap.Python.Json
