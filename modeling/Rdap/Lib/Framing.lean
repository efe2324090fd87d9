import Mathlib.Data.Nat.Basic
import Mathlib.Data.List.Induction
import Mathlib.Tactic.Ring

/-!
# Self-delimiting encoders and length-prefixed framing

An encoder is self-delimiting on a domain when a stream that starts with a code word
of the domain determines both the value and what follows. Sequences of such code words
are then uniquely decodable, which is what makes a concatenation of fields injective.
Fixed-width big-endian length prefixes give the standard instance.
-/

set_option autoImplicit false

namespace Rdap.Lib

universe u v
variable {α : Type u} {β : Type v}

def SelfDelimiting (D : α → Prop) (enc : α → List β) : Prop :=
  ∀ {a b : α} {r s : List β}, D a → D b → enc a ++ r = enc b ++ s → a = b ∧ r = s

namespace SelfDelimiting
variable {D : α → Prop} {enc : α → List β}

/-- Sequences of nonempty code words decode uniquely, whatever their lengths. -/
theorem flatMap_injective (h : SelfDelimiting D enc) (hne : ∀ a, D a → enc a ≠ []) :
    ∀ {xs ys : List α}, (∀ x ∈ xs, D x) → (∀ y ∈ ys, D y) →
      xs.flatMap enc = ys.flatMap enc → xs = ys := by
  intro xs
  induction xs with
  | nil =>
    intro ys _ hys heq
    cases ys with
    | nil => rfl
    | cons y ys =>
      have hy := hne y (hys y List.mem_cons_self)
      have hnil : enc y = [] := by
        rw [List.flatMap_nil, List.flatMap_cons] at heq
        exact (List.append_eq_nil_iff.mp heq.symm).1
      exact absurd hnil hy
  | cons x xs ih =>
    intro ys hxs hys heq
    cases ys with
    | nil =>
      have hx := hne x (hxs x List.mem_cons_self)
      have hnil : enc x = [] := by
        rw [List.flatMap_nil, List.flatMap_cons] at heq
        exact (List.append_eq_nil_iff.mp heq).1
      exact absurd hnil hx
    | cons y ys =>
      simp only [List.flatMap_cons] at heq
      obtain ⟨rfl, hrest⟩ := h (hxs x List.mem_cons_self) (hys y List.mem_cons_self) heq
      rw [ih (fun a ha => hxs a (List.mem_cons_of_mem x ha))
        (fun a ha => hys a (List.mem_cons_of_mem x ha)) hrest]

/-- A letterwise translation that is injective on the letters used is injective on words. -/
theorem map_injective_on {f : α → β} (hf : ∀ {a b}, D a → D b → f a = f b → a = b)
    {xs ys : List α} (hxs : ∀ x ∈ xs, D x) (hys : ∀ y ∈ ys, D y) (h : xs.map f = ys.map f) :
    xs = ys := by
  have hletter : SelfDelimiting D fun a => [f a] := by
    intro a b r s ha hb heq
    obtain ⟨hab, hrs⟩ := List.cons.inj heq
    exact ⟨hf ha hb hab, hrs⟩
  apply hletter.flatMap_injective (fun a _ => by simp) hxs hys
  simpa [← List.map_eq_flatMap] using h

end SelfDelimiting

/-- The `w` low-order bytes of a number, most significant first. -/
def bigEndian : Nat → Nat → List UInt8
  | 0, _ => []
  | w + 1, n => bigEndian w (n / 256) ++ [UInt8.ofNat n]

@[simp] theorem bigEndian_length (w n : Nat) : (bigEndian w n).length = w := by
  induction w generalizing n with
  | zero => rfl
  | succ w ih => simp [bigEndian, ih]

theorem bigEndian_injective {w n m : Nat} (hn : n < 256 ^ w) (hm : m < 256 ^ w)
    (h : bigEndian w n = bigEndian w m) : n = m := by
  induction w generalizing n m with
  | zero =>
    rw [Nat.pow_zero] at hn hm
    omega
  | succ w ih =>
    obtain ⟨hhigh, hlow⟩ := List.append_inj h (by simp)
    have hdiv : n / 256 = m / 256 := by
      rw [Nat.pow_succ] at hn hm
      exact ih (Nat.div_lt_of_lt_mul (by rwa [Nat.mul_comm]))
        (Nat.div_lt_of_lt_mul (by rwa [Nat.mul_comm])) hhigh
    have hmod : n % 256 = m % 256 := by
      have hbyte : UInt8.ofNat n = UInt8.ofNat m := by simpa using hlow
      have hnat := congrArg UInt8.toNat hbyte
      simpa [UInt8.toNat_ofNat'] using hnat
    omega

/-- The number whose big-endian bytes are given. -/
def ofBigEndian (b : List UInt8) : Nat := b.foldl (fun n x => n * 256 + x.toNat) 0

@[simp] theorem ofBigEndian_nil : ofBigEndian [] = 0 := rfl

theorem ofBigEndian_concat (b : List UInt8) (x : UInt8) :
    ofBigEndian (b ++ [x]) = ofBigEndian b * 256 + x.toNat := by
  simp [ofBigEndian]

theorem ofBigEndian_lt (b : List UInt8) : ofBigEndian b < 256 ^ b.length := by
  induction b using List.reverseRecOn with
  | nil => simp
  | append_singleton b x ih =>
    have hx := x.toNat_lt
    rw [ofBigEndian_concat, List.length_append, List.length_singleton, Nat.pow_succ]
    omega

theorem ofBigEndian_bigEndian {w n : Nat} (hn : n < 256 ^ w) : ofBigEndian (bigEndian w n) = n := by
  induction w generalizing n with
  | zero =>
    rw [Nat.pow_zero] at hn
    simp only [bigEndian, ofBigEndian_nil]
    omega
  | succ w ih =>
    rw [Nat.pow_succ] at hn
    have hhigh : n / 256 < 256 ^ w := Nat.div_lt_of_lt_mul (by rwa [Nat.mul_comm])
    have hlow : (UInt8.ofNat n).toNat = n % 256 := by simp [UInt8.toNat_ofNat']
    rw [bigEndian, ofBigEndian_concat, ih hhigh, hlow]
    omega

theorem bigEndian_ofBigEndian (b : List UInt8) : bigEndian b.length (ofBigEndian b) = b := by
  induction b using List.reverseRecOn with
  | nil => rfl
  | append_singleton b x ih =>
    have hx := x.toNat_lt
    have hdiv : (ofBigEndian b * 256 + x.toNat) / 256 = ofBigEndian b := by omega
    have hlow : UInt8.ofNat (ofBigEndian b * 256 + x.toNat) = x := by
      apply UInt8.toNat_inj.mp
      rw [UInt8.toNat_ofNat']
      omega
    rw [ofBigEndian_concat, List.length_append, List.length_singleton, bigEndian, hdiv, ih, hlow]

/-- A field preceded by its length in `w` big-endian bytes. -/
def frame (w : Nat) (field : List UInt8) : List UInt8 := bigEndian w field.length ++ field

def Fits (w : Nat) (field : List UInt8) : Prop := field.length < 256 ^ w

theorem frame_selfDelimiting (w : Nat) : SelfDelimiting (Fits w) (frame w) := by
  intro a b r s ha hb heq
  simp only [frame, List.append_assoc] at heq
  obtain ⟨hhead, hrest⟩ := List.append_inj heq (by simp)
  have hlen : a.length = b.length := bigEndian_injective ha hb hhead
  exact List.append_inj hrest hlen

theorem frame_ne_nil {w : Nat} (hw : 0 < w) (field : List UInt8) : frame w field ≠ [] := by
  intro h
  have hlen := congrArg List.length h
  simp [frame] at hlen
  omega

/-- Concatenated frames decode to the list of fields they were made from. -/
theorem frames_injective {w : Nat} (hw : 0 < w) {xs ys : List (List UInt8)}
    (hxs : ∀ x ∈ xs, Fits w x) (hys : ∀ y ∈ ys, Fits w y)
    (h : xs.flatMap (frame w) = ys.flatMap (frame w)) : xs = ys :=
  SelfDelimiting.flatMap_injective (frame_selfDelimiting w) (fun a _ => frame_ne_nil hw a) hxs hys h

end Rdap.Lib
