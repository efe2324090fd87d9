import Rdap.Python.Value
import Rdap.Lib.KeyedTable

/-!
# Equality of Python values

`==` compares numbers across their types and dictionaries without their order, and a NaN
differs from itself. `PyClass` is a value up to `==`: where a program compares what it read
with `==` and goes on with its own copy, this is what it keeps.
-/

set_option autoImplicit false

namespace Rdap.Python
open Lib

/-- A dictionary: one value for each key. -/
abbrev Object := KeyedTable PyStr Value

/-- In units of this fraction every finite double is an integer. -/
def unitsPerOne : Int := 2 ^ 1074

inductive Number where
  | finite (units : Int)
  | infinite (negative : Bool)
  deriving DecidableEq

def numberOfFloat (bits : UInt64) : Option Number :=
  let negative := bits.toNat / 2 ^ 63 = 1
  let exponent := bits.toNat / 2 ^ 52 % 2 ^ 11
  let fraction := bits.toNat % 2 ^ 52
  if exponent = 2047 then if fraction = 0 then some (.infinite negative) else none
  else
    let magnitude : Nat := if exponent = 0 then fraction else (2 ^ 52 + fraction) * 2 ^ (exponent - 1)
    some (.finite (if negative then -(magnitude : Int) else magnitude))

/-- The number a value is; a NaN is none. -/
def number? : Value → Option Number
  | .int n => some (.finite (n * unitsPerOne))
  | .bool b => some (.finite (if b then unitsPerOne else 0))
  | .float bits => numberOfFloat bits
  | _ => none

def sameNumber : Option Number → Option Number → Bool
  | some a, some b => a = b
  | _, _ => false

mutual
def pyEq : Value → Value → Bool
  | .none, w => match w with
    | .none => true
    | _ => false
  | .str s, w => match w with
    | .str t => s = t
    | _ => false
  | .list vs, w => match w with
    | .list ws => pyEqItems vs ws
    | _ => false
  | .dict items, w => match w with
    | .dict others =>
      (KeyedTable.ofRows items).count = (KeyedTable.ofRows others).count &&
        pyEqMembers items (KeyedTable.ofRows others)
    | _ => false
  | .bool b, w => sameNumber (number? (.bool b)) (number? w)
  | .int n, w => sameNumber (number? (.int n)) (number? w)
  | .float bits, w => sameNumber (number? (.float bits)) (number? w)

def pyEqItems : List Value → List Value → Bool
  | [], ws => ws.isEmpty
  | v :: vs, ws => match ws with
    | [] => false
    | w :: ws => pyEq v w && pyEqItems vs ws

def pyEqMembers : List (PyStr × Value) → Object → Bool
  | [], _ => true
  | (key, v) :: items, d =>
    (match d.get? key with
      | some w => pyEq v w
      | none => false) && pyEqMembers items d
end

/-- `bool(v)` -/
def truthy : Value → Bool
  | .none => false
  | .bool b => b
  | .int n => n ≠ 0
  | .float bits => numberOfFloat bits ≠ some (.finite 0)
  | .str s => !s.isEmpty
  | .list items => !items.isEmpty
  | .dict items => !items.isEmpty

def asDict : Value → Option Object
  | .dict items => some (.ofRows items)
  | _ => none

@[simp] theorem asDict_rows (d : Object) : asDict (.dict d.rows) = some d := by
  simp [asDict]

theorem pyEqMembers_mem {items : List (PyStr × Value)} {d : Object} (h : pyEqMembers items d = true)
    {key : PyStr} {v : Value} (hmem : (key, v) ∈ items) :
    ∃ w, d.get? key = some w ∧ pyEq v w = true := by
  induction items with
  | nil => cases hmem
  | cons item items ih =>
    simp only [pyEqMembers, Bool.and_eq_true] at h
    rcases List.mem_cons.mp hmem with rfl | hrest
    · revert h
      cases d.get? key with
      | none => simp
      | some w => exact fun h => ⟨w, rfl, h.1⟩
    · exact ih h.2 hrest

/-- Equal values are dictionaries together. -/
theorem asDict_pyEq {v w : Value} (h : pyEq v w = true) :
    Option.Rel (fun d e => ∀ key, Option.Rel (fun a b => pyEq a b = true) (d.get? key) (e.get? key))
      (asDict v) (asDict w) := by
  cases v with
  | dict items =>
    cases w with
    | dict others =>
      simp only [pyEq, Bool.and_eq_true, decide_eq_true_eq] at h
      apply Option.Rel.some
      intro key
      cases hkey : (KeyedTable.ofRows items).get? key with
      | some a =>
        obtain ⟨b, hb, hab⟩ := pyEqMembers_mem h.2 (KeyedTable.mem_of_get?_ofRows hkey)
        rw [hb]
        exact .some hab
      | none =>
        rw [KeyedTable.absent_of_count _ h.1 hkey]
        · exact .none
        · intro j a ha
          obtain ⟨b, hb, _⟩ := pyEqMembers_mem h.2 (KeyedTable.mem_of_get?_ofRows ha)
          exact ⟨b, hb⟩
    | _ => cases h
  | _ => cases w <;> first | exact .none | (simp [pyEq, number?, sameNumber] at h)

/-- A value up to `==`. -/
def PyClass : Type := Quot fun v w : Value => pyEq v w = true

def PyClass.mk (v : Value) : PyClass := Quot.mk _ v

theorem PyClass.sound {v w : Value} (h : pyEq v w = true) : PyClass.mk v = PyClass.mk w :=
  Quot.sound h

def strOf : Value → Option PyStr
  | .str s => some s
  | _ => none

theorem PyClass.str_injective {v : Value} {s : PyStr} (h : PyClass.mk v = PyClass.mk (.str s)) :
    v = .str s := by
  have hrespects : ∀ a b : Value, pyEq a b = true → strOf a = strOf b := by
    intro a b hab
    cases a <;> cases b <;> simp_all [pyEq, number?, sameNumber, strOf]
  have hlift := congrArg (Quot.lift strOf hrespects) h
  have hstr : strOf v = some s := hlift
  cases v <;> simp_all [strOf]

theorem PyClass.dict_of_mk {v : Value} {items : List (PyStr × Value)}
    (h : PyClass.mk v = PyClass.mk (.dict items)) : ∃ others, v = .dict others := by
  have hrespects : ∀ a b : Value, pyEq a b = true → (asDict a).isSome = (asDict b).isSome := by
    intro a b hab
    cases a <;> cases b <;> simp_all [pyEq, number?, sameNumber, asDict]
  have hlift := congrArg (Quot.lift (fun v => (asDict v).isSome) hrespects) h
  have hdict : (asDict v).isSome = true := hlift
  cases v with
  | dict others => exact ⟨others, rfl⟩
  | _ => cases hdict

/-- What stands under a path of keys. -/
def valueAt : Value → List PyStr → Option Value
  | v, [] => some v
  | v, key :: path => ((asDict v).bind fun d => d.get? key).bind fun w => valueAt w path

def classAt (v : Value) (path : List PyStr) : Option PyClass := (valueAt v path).map PyClass.mk

theorem valueAt_pyEq (path : List PyStr) {v w : Value} (h : pyEq v w = true) :
    Option.Rel (fun a b => pyEq a b = true) (valueAt v path) (valueAt w path) := by
  induction path generalizing v w with
  | nil => exact .some h
  | cons key path ih =>
    simp only [valueAt]
    have hdict := asDict_pyEq h
    cases hd : asDict v <;> cases he : asDict w <;> rw [hd, he] at hdict
    · exact .none
    · cases hdict
    · cases hdict
    · rename_i d e
      obtain hfields : ∀ key, Option.Rel (fun a b => pyEq a b = true) (d.get? key) (e.get? key) := by
        cases hdict with
        | some hfields => exact hfields
      have hfield := hfields key
      simp only [Option.bind_some]
      cases ha : d.get? key <;> cases hb : e.get? key <;> rw [ha, hb] at hfield
      · exact .none
      · cases hfield
      · cases hfield
      · cases hfield with
        | some hab => exact ih hab

/-- Equal values have the same classes under every path. -/
theorem classAt_pyEq (path : List PyStr) {v w : Value} (h : pyEq v w = true) :
    classAt v path = classAt w path := by
  have hrel := valueAt_pyEq path h
  unfold classAt
  generalize valueAt v path = a, valueAt w path = b at hrel
  cases hrel with
  | none => rfl
  | some hab => simp [PyClass.sound hab]

end Rdap.Python
