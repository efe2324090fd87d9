import Mathlib.Algebra.GroupWithZero.Nat
import Rdap.Python.Text

/-!
# UTF-8 that is cut off

A decoder that ignores errors reads, of the first bytes of a text, the characters that fit into them:
what is left of the next one begins no character and is dropped byte by byte.
-/

set_option autoImplicit false

namespace Rdap.Python

/-- The first characters that fit into a number of bytes. -/
def fitting : Nat → List Char → List Char
  | _, [] => []
  | budget, c :: cs => if c.utf8Size ≤ budget then c :: fitting (budget - c.utf8Size) cs else []

/-- A character is read just where its encoding begins. -/
theorem utf8DecodeChar_some {b : Bytes} {c : Char} :
    b.toByteArray.utf8DecodeChar? 0 = some c ↔ ∃ rest, b = String.utf8EncodeChar c ++ rest := by
  constructor
  · intro h
    obtain ⟨rest, hrest⟩ := ByteArray.exists_of_utf8DecodeChar?_eq_some h
    refine ⟨rest.data.toList, ?_⟩
    have hlist := congrArg (fun bytes : ByteArray => bytes.data.toList) hrest
    simpa [List.data_toByteArray] using hlist
  · rintro ⟨rest, rfl⟩
    have h := ByteArray.utf8DecodeChar?_utf8EncodeChar_append (b := rest.toByteArray) (c := c)
    simpa using h

theorem utf8EncodeChar_cons (c : Char) : ∃ b tail, String.utf8EncodeChar c = b :: tail ∧ b.IsUTF8FirstByte ∧
    ∀ x ∈ tail, ¬ x.IsUTF8FirstByte := by
  cases hbytes : String.utf8EncodeChar c with
  | nil => exact absurd hbytes String.utf8EncodeChar_ne_nil
  | cons b tail =>
    have hfirst : ∀ (i : Nat) (hi : i < (b :: tail).length), (b :: tail)[i].IsUTF8FirstByte ↔ i = 0 := by
      rw [← hbytes]
      intro i hi
      exact UInt8.isUTF8FirstByte_getElem_utf8EncodeChar
    refine ⟨b, tail, rfl, (hfirst 0 (by simp)).mpr rfl, ?_⟩
    intro x hx hfirstByte
    obtain ⟨i, hi, rfl⟩ := List.mem_iff_getElem.mp hx
    have hzero := (hfirst (i + 1) (by simpa using hi)).mp (by simpa using hfirstByte)
    omega

/-- Bytes that begin no character are dropped. -/
theorem decodeUtf8Loop_dropped {b : Bytes} (h : ∀ x ∈ b, ¬ x.IsUTF8FirstByte) (n : Nat) :
    decodeUtf8Loop .ignore n b = .ok [] := by
  induction b generalizing n with
  | nil => cases n <;> rfl
  | cons x b ih =>
    cases n with
    | zero => rfl
    | succ n =>
      have hnone : (x :: b).toByteArray.utf8DecodeChar? 0 = none := by
        cases hdecode : (x :: b).toByteArray.utf8DecodeChar? 0 with
        | none => rfl
        | some d =>
          obtain ⟨rest, hrest⟩ := utf8DecodeChar_some.mp hdecode
          obtain ⟨y, tail, hd, hy, -⟩ := utf8EncodeChar_cons d
          rw [hd, List.cons_append] at hrest
          obtain ⟨rfl, -⟩ := List.cons.inj hrest
          exact absurd hy (h x List.mem_cons_self)
      rw [decodeUtf8Loop, hnone]
      exact ih (fun y hy => h y (List.mem_cons_of_mem x hy)) n

/-- No character is read from less than its encoding. -/
theorem utf8DecodeChar_short {c : Char} {k : Nat} (hk : k < c.utf8Size) :
    ((String.utf8EncodeChar c).take k).toByteArray.utf8DecodeChar? 0 = none := by
  cases hdecode : ((String.utf8EncodeChar c).take k).toByteArray.utf8DecodeChar? 0 with
  | none => rfl
  | some d =>
    obtain ⟨rest, hrest⟩ := utf8DecodeChar_some.mp hdecode
    have hwhole : String.utf8EncodeChar c = String.utf8EncodeChar d ++ (rest ++ (String.utf8EncodeChar c).drop k) := by
      rw [← List.append_assoc, ← hrest, List.take_append_drop]
    have hd := utf8DecodeChar_some.mpr ⟨_, hwhole⟩
    have hc := utf8DecodeChar_some.mpr ⟨[], (List.append_nil (String.utf8EncodeChar c)).symm⟩
    obtain rfl : c = d := Option.some.inj (hc.symm.trans hd)
    have hlength := congrArg List.length hrest
    rw [List.length_take, List.length_append, String.length_utf8EncodeChar] at hlength
    omega

/-- What is left of a character that was cut off reads as nothing. -/
theorem decodeUtf8Loop_short {c : Char} {k : Nat} (hk : k < c.utf8Size) (n : Nat) :
    decodeUtf8Loop .ignore n ((String.utf8EncodeChar c).take k) = .ok [] := by
  have hnone := utf8DecodeChar_short hk
  obtain ⟨b, tail, hbytes, -, htail⟩ := utf8EncodeChar_cons c
  rw [hbytes] at hnone ⊢
  cases k with
  | zero => cases n <;> rfl
  | succ k =>
    rw [List.take_succ_cons] at hnone ⊢
    cases n with
    | zero => rfl
    | succ n =>
      rw [decodeUtf8Loop, hnone]
      exact decodeUtf8Loop_dropped (fun x hx => htail x (List.mem_of_mem_take hx)) n

/-- A whole character is read first. -/
theorem decodeUtf8Loop_char (errors : DecodeErrors) (c : Char) (rest : Bytes) (n : Nat) :
    decodeUtf8Loop errors (n + 1) (String.utf8EncodeChar c ++ rest) =
      (decodeUtf8Loop errors n rest).map (CodePoint.ofChar c :: ·) := by
  have hdecode : (String.utf8EncodeChar c ++ rest).toByteArray.utf8DecodeChar? 0 = some c :=
    utf8DecodeChar_some.mpr ⟨rest, rfl⟩
  have hdrop : (String.utf8EncodeChar c ++ rest).drop c.utf8Size = rest :=
    List.drop_left' (String.length_utf8EncodeChar c)
  obtain ⟨b, tail, hbytes, -⟩ := utf8EncodeChar_cons c
  rw [hbytes, List.cons_append] at hdecode hdrop ⊢
  rw [decodeUtf8Loop, hdecode]
  simp only [hdrop]

theorem decodeUtf8Loop_take (cs : List Char) (budget n : Nat)
    (hn : ((cs.flatMap String.utf8EncodeChar).take budget).length ≤ n) :
    decodeUtf8Loop .ignore n ((cs.flatMap String.utf8EncodeChar).take budget) =
      .ok ((fitting budget cs).map CodePoint.ofChar) := by
  induction cs generalizing budget n with
  | nil => cases n <;> simp [decodeUtf8Loop, fitting]
  | cons c cs ih =>
    rw [List.flatMap_cons] at hn ⊢
    unfold fitting
    split
    · rename_i hfits
      have htake : (String.utf8EncodeChar c ++ cs.flatMap String.utf8EncodeChar).take budget =
          String.utf8EncodeChar c ++ (cs.flatMap String.utf8EncodeChar).take (budget - c.utf8Size) := by
        rw [List.take_append, String.length_utf8EncodeChar,
          List.take_of_length_le (by rw [String.length_utf8EncodeChar]; exact hfits)]
      have hpos := c.utf8Size_pos
      rw [htake, List.length_append, String.length_utf8EncodeChar] at hn
      obtain ⟨m, rfl⟩ : ∃ m, n = m + 1 := ⟨n - 1, by omega⟩
      rw [htake, decodeUtf8Loop_char, ih _ m (by omega)]
      rfl
    · rename_i hshort
      have htake : (String.utf8EncodeChar c ++ cs.flatMap String.utf8EncodeChar).take budget =
          (String.utf8EncodeChar c).take budget := by
        rw [List.take_append_of_le_length]
        rw [String.length_utf8EncodeChar]
        omega
      rw [htake, decodeUtf8Loop_short (by omega)]
      rfl

/-! ## Text and its bytes -/

/-- `errors='replace'` writes a question mark for a surrogate. -/
def replaceSurrogates (s : PyStr) : PyStr := s.map fun c => if isSurrogate c then 63 else c

/-- The bytes of a character. -/
def charBytes (c : CodePoint) : Nat := (Char.ofNat c.val).utf8Size

def utf8Len (s : PyStr) : Nat := (s.map charBytes).sum

/-- The first characters of a text that fit into a number of bytes. -/
def fittingText : Nat → PyStr → PyStr
  | _, [] => []
  | budget, c :: s => if charBytes c ≤ budget then c :: fittingText (budget - charBytes c) s else []

theorem utf8Len_append (s t : PyStr) : utf8Len (s ++ t) = utf8Len s + utf8Len t := by
  simp [utf8Len]

theorem utf8Len_cons (c : CodePoint) (s : PyStr) : utf8Len (c :: s) = charBytes c + utf8Len s := by
  simp [utf8Len]

theorem encodeUtf8_defined {s : PyStr} (h : s.any isSurrogate = false) :
    ∃ b, encodeUtf8 s = .ok b ∧ b.length = utf8Len s := by
  refine ⟨_, by rw [encodeUtf8, h]; rfl, ?_⟩
  simp only [List.length_flatMap, List.map_map, Function.comp_def, String.length_utf8EncodeChar]
  rfl

theorem replaceSurrogates_clean (s : PyStr) : (replaceSurrogates s).any isSurrogate = false := by
  have hmark : isSurrogate 63 = false := by decide
  simp only [replaceSurrogates, List.any_map, List.any_eq_false, Function.comp_apply]
  intro c _
  split
  · simp [hmark]
  · assumption

theorem encodeUtf8Replace_eq (s : PyStr) : encodeUtf8 (replaceSurrogates s) = .ok (encodeUtf8Replace s) := by
  rw [encodeUtf8, replaceSurrogates_clean, if_neg (by decide), encodeUtf8Replace, replaceSurrogates, List.map_map]
  congr 3
  funext c
  simp only [Function.comp_apply]
  split <;> rfl

theorem ofChar_ofNat {c : CodePoint} (h : isSurrogate c = false) : CodePoint.ofChar (Char.ofNat c.val) = c := by
  rw [Char.ofNat, dif_pos (isValidChar_of_not_surrogate h)]
  exact Fin.ext (Nat.mod_eq_of_lt c.isLt)

theorem fitting_text {s : PyStr} (h : s.any isSurrogate = false) (budget : Nat) :
    (fitting budget (s.map fun c => Char.ofNat c.val)).map CodePoint.ofChar = fittingText budget s := by
  induction s generalizing budget with
  | nil => rfl
  | cons c s ih =>
    rw [List.any_cons, Bool.or_eq_false_iff] at h
    rw [List.map_cons, fitting, fittingText]
    unfold charBytes
    split
    · rw [List.map_cons, ofChar_ofNat h.1, ih h.2]
    · rfl

/-- A decoder that ignores errors reads the characters that are there as a whole. -/
theorem decodeUtf8_take {s : PyStr} {b : Bytes} (h : encodeUtf8 s = .ok b) (budget : Nat) :
    decodeUtf8 .ignore (b.take budget) = .ok (fittingText budget s) := by
  obtain ⟨hclean, rfl⟩ := encodeUtf8_ok h
  rw [decodeUtf8, decodeUtf8Loop_take _ _ _ (Nat.le_refl _), fitting_text hclean]

theorem fittingText_initial (budget : Nat) (s : PyStr) : fittingText budget s <+: s := by
  induction s generalizing budget with
  | nil => exact List.prefix_rfl
  | cons c s ih =>
    unfold fittingText
    split
    · exact List.cons_prefix_cons.mpr ⟨rfl, ih _⟩
    · exact List.nil_prefix

theorem utf8Len_fittingText (budget : Nat) (s : PyStr) : utf8Len (fittingText budget s) ≤ budget := by
  induction s generalizing budget with
  | nil => exact Nat.zero_le budget
  | cons c s ih =>
    unfold fittingText
    split
    · have hrest := ih (budget - charBytes c)
      rw [utf8Len_cons]
      omega
    · exact Nat.zero_le budget

end Rdap.Python
