import Rdap.Lib.Framing

/-!
# Readers

A reader takes a value off the front of its input. It reads an encoding when it accepts just
the inputs that begin with the encoding of an admitted value, and then returns that value and
what follows. Such readers compose to readers of sequences, and each rule serves both the way
from the bytes to the value and the way back.
-/

set_option autoImplicit false

namespace Rdap.Lib

variable {α β ε : Type}

/-- `read` takes the encoding of an admitted value off the front of its input. -/
def Reads (D : α → Prop) (enc : α → List β) (read : List β → Except ε (α × List β)) : Prop :=
  ∀ r a rest, read r = .ok (a, rest) ↔ D a ∧ r = enc a ++ rest

/-- `read` as often as `n` says. -/
def readMany (read : List β → Except ε (α × List β)) : Nat → List β → Except ε (List α × List β)
  | 0, r => .ok ([], r)
  | n + 1, r => do
    let (a, r) ← read r
    let (rest, r) ← readMany read n r
    return (a :: rest, r)

variable {D : α → Prop} {enc : α → List β} {read : List β → Except ε (α × List β)}

namespace Reads

theorem append (h : Reads D enc read) {a : α} (ha : D a) (rest : List β) :
    read (enc a ++ rest) = .ok (a, rest) := (h _ _ _).mpr ⟨ha, rfl⟩

theorem split (h : Reads D enc read) {r rest : List β} {a : α} (hread : read r = .ok (a, rest)) :
    D a ∧ r = enc a ++ rest := (h r a rest).mp hread

theorem many (h : Reads D enc read) (n : Nat) :
    Reads (fun xs => xs.length = n ∧ ∀ x ∈ xs, D x) (List.flatMap enc) (readMany read n) := by
  intro r xs rest
  induction n generalizing r xs rest with
  | zero =>
    simp only [readMany, List.length_eq_zero_iff]
    constructor
    · intro heq
      cases heq
      exact ⟨⟨rfl, by simp⟩, rfl⟩
    · rintro ⟨⟨rfl, -⟩, rfl⟩
      rfl
  | succ n ih =>
    unfold readMany
    constructor
    · intro hread
      cases hfirst : read r with
      | error e =>
        rw [hfirst] at hread
        cases hread
      | ok first =>
        obtain ⟨a, r'⟩ := first
        obtain ⟨ha, rfl⟩ := h.split hfirst
        rw [hfirst] at hread
        cases hmore : readMany read n r' with
        | error e =>
          simp only [bind, Except.bind, hmore] at hread
          cases hread
        | ok more =>
          obtain ⟨ys, r''⟩ := more
          obtain ⟨⟨hlength, hys⟩, rfl⟩ := (ih r' ys r'').mp hmore
          simp only [bind, Except.bind, hmore] at hread
          cases hread
          refine ⟨⟨by rw [List.length_cons, hlength], ?_⟩, by simp⟩
          intro x hx
          rcases List.mem_cons.mp hx with rfl | hx
          · exact ha
          · exact hys x hx
    · rintro ⟨⟨hlength, hxs⟩, rfl⟩
      cases xs with
      | nil => simp at hlength
      | cons a ys =>
        have hlength' : ys.length = n := by simpa using hlength
        have hys := fun x hx => hxs x (List.mem_cons_of_mem a hx)
        have hmore := (ih _ ys rest).mpr ⟨⟨hlength', hys⟩, rfl⟩
        rw [List.flatMap_cons, List.append_assoc, h.append (hxs a List.mem_cons_self)]
        simp only [bind, Except.bind, hmore]
        rfl

end Reads

end Rdap.Lib
