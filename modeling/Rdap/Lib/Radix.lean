import Mathlib.Data.Nat.Digits.Lemmas

/-!
# Numbers in a radix, most significant digit first

Digits of a given number in a given count are unique, which is all that a change of radix needs.
-/

set_option autoImplicit false

namespace Rdap.Lib

def number (b : Nat) (digits : List Nat) : Nat := digits.foldl (fun n d => n * b + d) 0

@[simp] theorem number_nil (b : Nat) : number b [] = 0 := rfl

theorem number_concat (b : Nat) (digits : List Nat) (d : Nat) :
    number b (digits ++ [d]) = number b digits * b + d := by
  simp [number]

theorem number_eq_ofDigits (b : Nat) (digits : List Nat) :
    number b digits = Nat.ofDigits b digits.reverse := by
  induction digits using List.reverseRecOn with
  | nil => rfl
  | append_singleton digits d ih =>
    rw [number_concat, ih, List.reverse_append, List.reverse_singleton, List.singleton_append,
      Nat.ofDigits_cons, Nat.mul_comm, Nat.add_comm]

theorem number_lt {b : Nat} (hb : 1 < b) {digits : List Nat} (h : ∀ d ∈ digits, d < b) :
    number b digits < b ^ digits.length := by
  have hlt := Nat.ofDigits_lt_base_pow_length hb (fun d hd => h d (List.mem_reverse.mp hd))
  rw [List.length_reverse] at hlt
  rw [number_eq_ofDigits]
  exact hlt

theorem number_injective {b : Nat} (hb : 1 < b) {xs ys : List Nat} (hlength : xs.length = ys.length)
    (hx : ∀ d ∈ xs, d < b) (hy : ∀ d ∈ ys, d < b) (h : number b xs = number b ys) : xs = ys := by
  rw [number_eq_ofDigits, number_eq_ofDigits] at h
  apply List.reverse_injective
  apply Nat.ofDigits_inj_of_len_eq hb
  · rw [List.length_reverse, List.length_reverse]
    exact hlength
  · intro d hd
    exact hx d (List.mem_reverse.mp hd)
  · intro d hd
    exact hy d (List.mem_reverse.mp hd)
  · exact h

end Rdap.Lib
