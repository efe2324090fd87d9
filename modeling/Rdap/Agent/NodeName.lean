import Rdap.Python.Lines
import Rdap.Python.Raise

/-!
# Node names

The name of a node is part of paths and messages, so it is short ASCII without blanks and
begins and ends with a letter or a digit.
-/

set_option autoImplicit false

namespace Rdap.Agent
open Python

/-- `[A-Za-z0-9]` -/
def isAsciiAlnum (c : CodePoint) : Bool :=
  (48 ≤ c.val && c.val ≤ 57) || (65 ≤ c.val && c.val ≤ 90) || (97 ≤ c.val && c.val ≤ 122)

/-- `[A-Za-z0-9._-]` -/
def isNodeNameChar (c : CodePoint) : Bool := isAsciiAlnum c || c == 46 || c == 95 || c == 45

/-- `[A-Za-z0-9](?:[A-Za-z0-9._-]{0,62}[A-Za-z0-9])?` -/
def hasNodeNameShape : PyStr → Bool
  | [] => false
  | [c] => isAsciiAlnum c
  | c :: rest =>
    isAsciiAlnum c && rest.dropLast.all isNodeNameChar && rest.dropLast.length ≤ 62 &&
      rest.getLast?.any isAsciiAlnum

def windowsReservedNames : List PyStr :=
  [lit "con", lit "prn", lit "aux", lit "nul"] ++
    (List.range' 1 9).flatMap fun i => [lit "com" ++ natDecimal i, lit "lpt" ++ natDecimal i]

/-- The name is ASCII where `casefold` is reached, so it is letterwise. -/
def validateNodeName (name : PyStr) : Except PyExc PyStr := do
  let encoded ← encodeUtf8 name
  orRaise (encoded.length ≤ 64 ∧ hasNodeNameShape name = true)
    (lit "node name must be 1..64 bytes, ASCII alphanumeric at both ends, " ++
      lit "with only dot, dash, or underscore inside")
  orRaise ((name.takeWhile (· ≠ 46)).map asciiLower ∉ windowsReservedNames)
    (lit "node name is reserved on Windows")
  pure name

abbrev NodeName := { name : PyStr // validateNodeName name = .ok name }

theorem alnum_isNodeNameChar {c : CodePoint} (h : isAsciiAlnum c = true) : isNodeNameChar c = true := by
  unfold isNodeNameChar
  rw [h]
  rfl

theorem hasNodeNameShape_chars {name : PyStr} (h : hasNodeNameShape name = true) :
    name ≠ [] ∧ ∀ c ∈ name, isNodeNameChar c = true := by
  match name, h with
  | [c], h =>
    refine ⟨List.cons_ne_nil _ _, ?_⟩
    intro d hd
    obtain rfl := List.mem_singleton.mp hd
    exact alnum_isNodeNameChar h
  | c :: e :: rest, h =>
    simp only [hasNodeNameShape, Bool.and_eq_true, List.all_eq_true] at h
    obtain ⟨⟨⟨hfirst, hinner⟩, _⟩, hlast⟩ := h
    refine ⟨List.cons_ne_nil _ _, ?_⟩
    intro d hd
    rcases List.mem_cons.mp hd with rfl | hd
    · exact alnum_isNodeNameChar hfirst
    · have hne : e :: rest ≠ [] := List.cons_ne_nil _ _
      rw [← List.dropLast_append_getLast hne] at hd
      rcases List.mem_append.mp hd with hd | hd
      · exact hinner d hd
      · obtain rfl := List.mem_singleton.mp hd
        rw [List.getLast?_eq_some_getLast hne] at hlast
        exact alnum_isNodeNameChar hlast

theorem validateNodeName_ok {name out : PyStr} (h : validateNodeName name = .ok out) :
    out = name ∧ hasNodeNameShape name = true := by
  simp only [validateNodeName, bind_ok, orRaise_ok, pure_ok] at h
  obtain ⟨_, _, _, ⟨_, hshape⟩, _, _, rfl⟩ := h
  exact ⟨rfl, hshape⟩

namespace NodeName
variable (name : NodeName)

theorem chars {c : CodePoint} (hc : c ∈ name.val) : isNodeNameChar c = true :=
  (hasNodeNameShape_chars (validateNodeName_ok name.property).2).2 c hc

theorem ne_nil : name.val ≠ [] :=
  (hasNodeNameShape_chars (validateNodeName_ok name.property).2).1

theorem printable {c : CodePoint} (hc : c ∈ name.val) : 33 ≤ c.val ∧ c.val < 127 := by
  have h := name.chars hc
  simp only [isNodeNameChar, isAsciiAlnum, Bool.or_eq_true, Bool.and_eq_true, decide_eq_true_eq,
    beq_iff_eq, Fin.ext_iff] at h
  omega

end NodeName

end Rdap.Agent
