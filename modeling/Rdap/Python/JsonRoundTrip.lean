import Rdap.Python.Json

/-!
# The JSON codec reads what it writes

For values without floating point numbers and with distinct names in every object, in any
layout that only adds white space.
-/

set_option autoImplicit false

namespace Rdap.Python.Json

variable {P : Platform}


theorem skipSpace_append {ws : PyStr} (hws : ws.all isJsonSpace = true) (s : PyStr) :
    skipSpace (ws ++ s) = skipSpace s := by
  induction ws with
  | nil => rfl
  | cons c ws ih =>
    obtain ⟨hc, hrest⟩ := Bool.and_eq_true_iff.mp hws
    rw [List.cons_append, skipSpace, List.dropWhile_cons, hc, if_pos rfl]
    exact ih hrest

theorem skipSpace_cons {c : CodePoint} (h : isJsonSpace c = false) (s : PyStr) :
    skipSpace (c :: s) = c :: s := by
  simp [skipSpace, h]

theorem hexQuad_control {n : Nat} (hn : n < 32) :
    hexQuad 48 48 (hexChar (n / 16)) (hexChar (n % 16)) = some n := by
  have hzero : hexDigit 48 = some 0 := by decide
  simp only [hexQuad, hzero, (hexDigit_hexChar (show n / 16 < 16 by omega)).1,
    (hexDigit_hexChar (show n % 16 < 16 by omega)).1]
  congr 1
  omega

theorem codeUnit_val (c : CodePoint) : codeUnit c.val = c := by
  apply Fin.ext
  simp only [codeUnit]
  have := c.isLt
  omega

/-- The three ways in which a character is written: a short escape, its number, or itself. -/
theorem escapeChar_cases (c : CodePoint) :
    (∃ e, escapeChar c = [backslash, e] ∧ e.val ≠ 117 ∧ unescape e = some c) ∨
    (c.val < 32 ∧
      escapeChar c = [backslash, 117, 48, 48, hexChar (c.val / 16), hexChar (c.val % 16)]) ∨
    (escapeChar c = [c] ∧ c.val ≠ 34 ∧ c.val ≠ 92 ∧ ¬ c.val < 32) := by
  have hshort : ∀ {n : Nat} (hn : n < 0x110000) (e : CodePoint), c.val = n →
      escapeChar c = [backslash, e] → e.val ≠ 117 → unescape e = some ⟨n, hn⟩ →
      ∃ e, escapeChar c = [backslash, e] ∧ e.val ≠ 117 ∧ unescape e = some c := by
    intro n hn e hc htext hu he
    refine ⟨e, htext, hu, he.trans ?_⟩
    rw [Option.some.injEq]
    exact (Fin.ext hc).symm
  by_cases h₁ : c.val = 34
  · exact Or.inl (hshort (by omega) 34 h₁ (by simp [escapeChar, h₁]) (by decide) rfl)
  by_cases h₂ : c.val = 92
  · exact Or.inl (hshort (by omega) 92 h₂ (by simp [escapeChar, h₂]) (by decide) rfl)
  by_cases h₃ : c.val = 8
  · exact Or.inl (hshort (by omega) 98 h₃ (by simp [escapeChar, h₃]) (by decide) rfl)
  by_cases h₄ : c.val = 9
  · exact Or.inl (hshort (by omega) 116 h₄ (by simp [escapeChar, h₄]) (by decide) rfl)
  by_cases h₅ : c.val = 10
  · exact Or.inl (hshort (by omega) 110 h₅ (by simp [escapeChar, h₅]) (by decide) rfl)
  by_cases h₆ : c.val = 12
  · exact Or.inl (hshort (by omega) 102 h₆ (by simp [escapeChar, h₆]) (by decide) rfl)
  by_cases h₇ : c.val = 13
  · exact Or.inl (hshort (by omega) 114 h₇ (by simp [escapeChar, h₇]) (by decide) rfl)
  by_cases h₈ : c.val < 32
  · exact Or.inr (Or.inl ⟨h₈,
      by simp only [escapeChar, h₁, h₂, h₃, h₄, h₅, h₆, h₇, h₈, if_true, if_false]⟩)
  · exact Or.inr (Or.inr
      ⟨by simp only [escapeChar, h₁, h₂, h₃, h₄, h₅, h₆, h₇, h₈, if_false], h₁, h₂, h₈⟩)

theorem scanString_escapeChar (c : CodePoint) (rest : PyStr) :
    scanString none (escapeChar c ++ rest) = emit [c] (scanString none rest) := by
  have hslash : backslash ≠ quote := by decide
  rcases escapeChar_cases c with ⟨e, htext, hu, he⟩ | ⟨hcontrol, htext⟩ | ⟨htext, hq, hb, hcontrol⟩
  · rw [htext, scanString.eq_def]
    simp only [List.cons_append, List.nil_append, hslash, if_false, ne_eq, not_true_eq_false, hu,
      not_false_eq_true, if_true, he, flush]
  · have hhigh : isHigh c.val = false := by
      simp only [isHigh, Bool.and_eq_false_iff, decide_eq_false_iff_not]
      omega
    have hu : (117 : CodePoint).val = 117 := rfl
    rw [htext, scanString.eq_def]
    simp only [List.cons_append, List.nil_append, hslash, if_false, ne_eq, not_true_eq_false, hu,
      hexQuad_control hcontrol, escapeUnit, hhigh, Bool.false_eq_true, codeUnit_val]
  · have hquote : c ≠ quote := fun he => hq (by rw [he]; rfl)
    have hback : c ≠ backslash := fun he => hb (by rw [he]; rfl)
    rw [htext, scanString.eq_def]
    simp only [List.cons_append, List.nil_append, hquote, hback, if_false, ne_eq,
      not_false_eq_true, if_true, hcontrol, flush]

theorem scanString_encode (s rest : PyStr) :
    scanString none (s.flatMap escapeChar ++ quote :: rest) = .ok (s, rest) := by
  induction s with
  | nil => simp [scanString.eq_def, flush]
  | cons c s ih =>
    rw [List.flatMap_cons, List.append_assoc, scanString_escapeChar, ih]
    rfl

/-- What may follow a numeral without being read as part of it. -/
def EndsNumeral (rest : PyStr) : Prop :=
  ∀ c, rest.head? = some c → isDigit c = false ∧ c.val ≠ 46 ∧ c.val ≠ 101 ∧ c.val ≠ 69

theorem scanFraction_ends {rest : PyStr} (h : EndsNumeral rest) : scanFraction rest = ([], rest) := by
  unfold scanFraction
  split
  · rename_i c d rest
    have hpoint := (h c rfl).2.1
    simp [hpoint]
  · rfl

theorem scanExponent_ends {rest : PyStr} (h : EndsNumeral rest) : scanExponent rest = ([], rest) := by
  unfold scanExponent
  split
  · rename_i c rest
    obtain ⟨_, _, he, hE⟩ := h c rfl
    simp [he, hE]
  · rfl

theorem isDigit_digitChar {d : Nat} (hd : d < 10) : isDigit (digitChar d) = true := by
  have hdecide : ∀ d : Fin 10, isDigit (digitChar d) = true := by decide
  exact hdecide ⟨d, hd⟩

theorem span_digits {ds : List Nat} (hds : ∀ d ∈ ds, d < 10) {rest : PyStr} (h : EndsNumeral rest) :
    (ds.map digitChar ++ rest).takeWhile isDigit = ds.map digitChar ∧
      (ds.map digitChar ++ rest).dropWhile isDigit = rest := by
  induction ds with
  | nil =>
    cases rest with
    | nil => exact ⟨rfl, rfl⟩
    | cons c rest =>
      have hc := (h c rfl).1
      simp [hc]
  | cons d ds ih =>
    obtain ⟨htake, hdrop⟩ := ih fun x hx => hds x (List.mem_cons_of_mem d hx)
    simp only [List.map_cons, List.cons_append, List.takeWhile_cons, List.dropWhile_cons,
      isDigit_digitChar (hds d List.mem_cons_self), if_true, htake, hdrop, and_self]

/-- Only zero has a leading zero. -/
theorem decimalDigits_zero {n d : Nat} {ds : List Nat} (hd : d = 0) (h : decimalDigits n = d :: ds) :
    ds = [] := by
  unfold decimalDigits at h
  split at h
  · exact (List.cons.inj h).2.symm
  · rename_i hn
    have hdigits : Nat.digits 10 n = ds.reverse ++ [d] := by
      rw [← List.reverse_reverse (Nat.digits 10 n), h, List.reverse_cons]
    have hlast := Nat.getLast_digit_ne_zero 10 hn
    simp [hdigits, hd] at hlast

theorem scanWhole_natDecimal (n : Nat) {rest : PyStr} (h : EndsNumeral rest) :
    scanWhole (natDecimal n ++ rest) = some (natDecimal n, rest) := by
  have hlt : ∀ d ∈ decimalDigits n, d < 10 := fun d => decimalDigits_lt
  rw [natDecimal_eq]
  cases hds : decimalDigits n with
  | nil => exact absurd hds (decimalDigits_ne_nil n)
  | cons d ds =>
    rw [hds] at hlt
    have hd := hlt d List.mem_cons_self
    obtain ⟨htake, hdrop⟩ := span_digits (fun x hx => hlt x (List.mem_cons_of_mem d hx)) h
    have hval : (digitChar d).val = 48 + d := by
      simp only [digitChar]
      omega
    simp only [List.map_cons, List.cons_append, scanWhole, hval, isDigit_digitChar hd, if_true,
      htake, hdrop]
    split
    · rename_i hzero
      simp [decimalDigits_zero (show d = 0 by omega) hds]
    · rfl

theorem scanNumeral_intDecimal {n : Int} {text : PyStr} (htext : strInt n = .ok text)
    {rest : PyStr} (h : EndsNumeral rest) : scanNumeral P (text ++ rest) = .ok (.int n, rest) := by
  have hint : intOfStr P (intDecimal n) = .ok n := by
    rw [← strInt_ok htext]
    exact intOfStr_strInt htext
  rw [strInt_ok htext]
  unfold intDecimal at hint ⊢
  split
  · rename_i hneg
    rw [if_pos hneg] at hint
    have hminus : splitMinus (45 :: natDecimal n.natAbs ++ rest) =
        ([45], natDecimal n.natAbs ++ rest) := rfl
    simp only [scanNumeral, hminus, scanWhole_natDecimal _ h, scanFraction_ends h,
      scanExponent_ends h, and_self, if_true, List.singleton_append, hint, Except.map]
  · rename_i hpos
    rw [if_neg hpos] at hint
    obtain ⟨d, ds, hform, hd⟩ := natDecimal_head n.natAbs
    have hminus : splitMinus (natDecimal n.natAbs ++ rest) = ([], natDecimal n.natAbs ++ rest) := by
      have hne : digitChar d ≠ minus := fun he =>
        (digitChar_not_space hd).2.1 (by rw [he]; rfl)
      simp [hform, splitMinus, hne]
    simp only [scanNumeral, hminus, scanWhole_natDecimal _ h, scanFraction_ends h,
      scanExponent_ends h, and_self, if_true, List.nil_append, hint, Except.map]

theorem scanKey_encode {layout : Layout} (key : PyStr) (rest : PyStr) :
    scanKey (encodeString key ++ colon :: layout.gap ++ rest) = .ok (key, skipSpace rest) := by
  have hspace : isJsonSpace colon = false := by decide
  simp only [encodeString, List.cons_append, List.append_assoc, List.nil_append, scanKey, if_true,
    scanString_encode, bind, Except.bind, skipSpace_cons hspace, pure, Except.pure,
    skipSpace_append layout.gap_space]

/-! A value is plain if it has no floating point numbers and no two members of one name. -/

mutual

def Plain : Value → Prop
  | .none | .bool _ | .int _ | .str _ => True
  | .float _ => False
  | .list items => PlainItems items
  | .dict items => (items.map Prod.fst).Nodup ∧ PlainMembers items

def PlainItems : List Value → Prop
  | [] => True
  | v :: vs => Plain v ∧ PlainItems vs

def PlainMembers : List (PyStr × Value) → Prop
  | [] => True
  | (_, v) :: items => Plain v ∧ PlainMembers items

end

theorem foldl_dictSet (items d : Dict) (h : ((d ++ items).map Prod.fst).Nodup) :
    items.foldl (fun d item => dictSet d item.1 item.2) d = d ++ items := by
  induction items generalizing d with
  | nil => simp
  | cons item items ih =>
    have hnew : (d.any fun other => other.1 = item.1) = false := by
      apply List.any_eq_false.mpr
      intro other hother
      have hdisjoint := (List.nodup_append.mp (by simpa using h)).2.2
      have hne := hdisjoint other.1 (List.mem_map_of_mem hother) item.1 List.mem_cons_self
      simpa using hne
    have hset : dictSet d item.1 item.2 = d ++ [item] := by simp [dictSet, hnew]
    rw [List.foldl_cons, hset, ih (d ++ [item]) (by simpa using h)]
    simp

theorem dictOf_nodup {items : Dict} (h : (items.map Prod.fst).Nodup) : dictOf items = items :=
  foldl_dictSet items [] h

theorem digitChar_head {d : Nat} (hd : d < 10) :
    isJsonSpace (digitChar d) = false ∧ digitChar d ≠ closeList ∧ digitChar d ≠ quote ∧
      digitChar d ≠ openList ∧ digitChar d ≠ openDict ∧ isAscii (digitChar d) = true := by
  have hdecide : ∀ d : Fin 10, isJsonSpace (digitChar d) = false ∧ digitChar d ≠ closeList ∧
      digitChar d ≠ quote ∧ digitChar d ≠ openList ∧ digitChar d ≠ openDict ∧
      isAscii (digitChar d) = true := by decide
  exact hdecide ⟨d, hd⟩

/-- A written integer starts with a digit, or with a minus and a digit. -/
theorem intDecimal_head (n : Int) : ∃ d ds, d < 10 ∧
    (intDecimal n = digitChar d :: ds ∨ intDecimal n = minus :: digitChar d :: ds) := by
  obtain ⟨d, ds, hform, hd⟩ := natDecimal_head n.natAbs
  refine ⟨d, ds, hd, ?_⟩
  unfold intDecimal
  split
  · rw [hform]
    exact Or.inr rfl
  · exact Or.inl hform

/-- The first character of a written value is in ASCII, and neither space nor a bracket that
closes. -/
theorem encodeValue_head {layout : Layout} {depth : Nat} {v : Value} {text : PyStr}
    (hplain : Plain v) (h : encodeValue P layout depth v = .ok text) :
    ∃ c rest, text = c :: rest ∧ isJsonSpace c = false ∧ c ≠ closeList ∧ isAscii c = true := by
  cases v with
  | none =>
    simp only [encodeValue, Except.ok.injEq] at h
    subst h
    exact ⟨110, _, rfl, by decide, by decide, by decide⟩
  | bool b =>
    cases b with
    | false =>
      simp only [encodeValue, Except.ok.injEq] at h
      subst h
      exact ⟨102, _, rfl, by decide, by decide, by decide⟩
    | true =>
      simp only [encodeValue, Except.ok.injEq] at h
      subst h
      exact ⟨116, _, rfl, by decide, by decide, by decide⟩
  | int n =>
    simp only [encodeValue] at h
    obtain ⟨d, ds, hd, hform | hform⟩ := intDecimal_head n
    · obtain ⟨hspace, hclose, _, _, _, hascii⟩ := digitChar_head hd
      exact ⟨digitChar d, ds, (strInt_ok h).trans hform, hspace, hclose, hascii⟩
    · exact ⟨minus, _, (strInt_ok h).trans hform, by decide, by decide, by decide⟩
  | float bits => exact hplain.elim
  | str s =>
    simp only [encodeValue, Except.ok.injEq] at h
    subst h
    exact ⟨quote, _, rfl, by decide, by decide, by decide⟩
  | list items =>
    cases items with
    | nil =>
      simp only [encodeValue, Except.ok.injEq] at h
      subst h
      exact ⟨openList, _, rfl, by decide, by decide, by decide⟩
    | cons v vs =>
      simp only [encodeValue, bind_ok, pure_ok] at h
      obtain ⟨_, _, _, _, rfl⟩ := h
      exact ⟨openList, _, rfl, by decide, by decide, by decide⟩
  | dict items =>
    cases items with
    | nil =>
      simp only [encodeValue, Except.ok.injEq] at h
      subst h
      exact ⟨openDict, _, rfl, by decide, by decide, by decide⟩
    | cons item items =>
      simp only [encodeValue, bind_ok, pure_ok] at h
      obtain ⟨_, _, _, _, rfl⟩ := h
      exact ⟨openDict, _, rfl, by decide, by decide, by decide⟩

theorem startsWith_take {s p : PyStr} {k : Nat} (h : startsWith s p = true) (hk : k ≤ p.length) :
    p.take k = s.take k := by
  obtain ⟨t, rfl⟩ := List.isPrefixOf_iff_prefix.mp h
  rw [List.take_append_of_le_length hk]

theorem scanScalar_of_take {s : PyStr} (k : Nat) (hk : k ≤ 2)
    (h : ∀ word ∈ words, word.1.take k ≠ s.take k) : scanScalar P s = scanNumeral P s := by
  have hlong : ∀ word ∈ words, 2 ≤ word.1.length := by decide
  have hnone : words.find? (fun word => startsWith s word.1) = none := by
    apply List.find?_eq_none.mpr
    intro word hword hstarts
    exact h word hword (startsWith_take hstarts (hk.trans (hlong word hword)))
  simp only [scanScalar, hnone]

theorem scanScalar_intDecimal {n : Int} {text : PyStr} (htext : strInt n = .ok text) {rest : PyStr}
    (hrest : EndsNumeral rest) : scanScalar P (text ++ rest) = .ok (.int n, rest) := by
  rw [← scanNumeral_intDecimal (P := P) htext hrest]
  have hdigit : ∀ d : Fin 10, ∀ word ∈ words, word.1.take 1 ≠ [digitChar d] := by decide
  have hsigned : ∀ d : Fin 10, ∀ word ∈ words, word.1.take 2 ≠ [minus, digitChar d] := by decide
  obtain ⟨d, ds, hd, hform | hform⟩ := intDecimal_head n
  · rw [strInt_ok htext, hform]
    exact scanScalar_of_take 1 (by omega) (hdigit ⟨d, hd⟩)
  · rw [strInt_ok htext, hform]
    exact scanScalar_of_take 2 (by omega) (hsigned ⟨d, hd⟩)

theorem scanValue_word (inner : Option (PyStr → Scan Value)) (word : PyStr × Value)
    (hword : word ∈ [(lit "null", Value.none), (lit "true", .bool true), (lit "false", .bool false)])
    (rest : PyStr) : scanValue P inner (word.1 ++ rest) = .ok (word.2, rest) := by
  simp only [List.mem_cons, List.not_mem_nil, or_false] at hword
  rcases hword with rfl | rfl | rfl
  · rfl
  · rfl
  · rfl

theorem scanValue_int (inner : Option (PyStr → Scan Value)) {n : Int} {text : PyStr}
    (htext : strInt n = .ok text) {rest : PyStr} (hrest : EndsNumeral rest) :
    scanValue P inner (text ++ rest) = .ok (.int n, rest) := by
  rw [← scanScalar_intDecimal (P := P) htext hrest]
  obtain ⟨d, ds, hd, hform | hform⟩ := intDecimal_head n
  · obtain ⟨_, _, hquote, hlist, hdict, _⟩ := digitChar_head hd
    simp only [strInt_ok htext, hform, List.cons_append, scanValue, hquote, hlist, hdict, if_false]
  · have hquote : minus ≠ quote := by decide
    have hlist : minus ≠ openList := by decide
    have hdict : minus ≠ openDict := by decide
    simp only [strInt_ok htext, hform, List.cons_append, scanValue, hquote, hlist, hdict, if_false]

theorem scanValue_str (inner : Option (PyStr → Scan Value)) (s rest : PyStr) :
    scanValue P inner (encodeString s ++ rest) = .ok (.str s, rest) := by
  simp only [encodeString, List.cons_append, List.append_assoc, List.nil_append, scanValue, if_true,
    scanString_encode, Except.map]

/-- Space and a closing bracket, or a comma, end a numeral. -/
theorem endsNumeral_of_break {ws : PyStr} (hws : ws.all isJsonSpace = true) {c : CodePoint}
    (hc : c = comma ∨ c = closeList ∨ c = closeDict) (rest : PyStr) :
    EndsNumeral (ws ++ c :: rest) := by
  intro x hx
  cases ws with
  | nil =>
    obtain rfl : c = x := Option.some.inj hx
    rcases hc with rfl | rfl | rfl <;> decide
  | cons w ws =>
    obtain rfl : w = x := Option.some.inj hx
    have hspace : isJsonSpace w = true := (Bool.and_eq_true_iff.mp hws).1
    simp only [isJsonSpace, Bool.or_eq_true, decide_eq_true_eq] at hspace
    simp only [isDigit, Bool.and_eq_false_iff, decide_eq_false_iff_not]
    omega

theorem endsNumeral_items {layout : Layout} {level : Nat} {vs : List Value} {text ws : PyStr}
    (h : encodeItems P layout level vs = .ok text) (hws : ws.all isJsonSpace = true) (rest : PyStr) :
    EndsNumeral (text ++ (ws ++ closeList :: rest)) := by
  cases vs with
  | nil =>
    simp only [encodeItems, Except.ok.injEq] at h
    subst h
    exact endsNumeral_of_break hws (Or.inr (Or.inl rfl)) rest
  | cons v vs =>
    simp only [encodeItems, bind_ok, pure_ok] at h
    obtain ⟨item, _, others, _, rfl⟩ := h
    exact @endsNumeral_of_break [] rfl comma (Or.inl rfl) _

theorem endsNumeral_members {layout : Layout} {level : Nat} {items : List (PyStr × Value)}
    {text ws : PyStr} (h : encodeMembers P layout level items = .ok text)
    (hws : ws.all isJsonSpace = true) (rest : PyStr) :
    EndsNumeral (text ++ (ws ++ closeDict :: rest)) := by
  cases items with
  | nil =>
    simp only [encodeMembers, Except.ok.injEq] at h
    subst h
    exact endsNumeral_of_break hws (Or.inr (Or.inr rfl)) rest
  | cons item items =>
    obtain ⟨key, v⟩ := item
    simp only [encodeMembers, bind_ok, pure_ok] at h
    obtain ⟨text', _, others, _, rfl⟩ := h
    exact @endsNumeral_of_break [] rfl comma (Or.inl rfl) _

theorem encodeItems_length {layout : Layout} {level : Nat} {vs : List Value} {text : PyStr}
    (h : encodeItems P layout level vs = .ok text) : vs.length ≤ text.length := by
  induction vs generalizing text with
  | nil => exact Nat.zero_le _
  | cons v vs ih =>
    simp only [encodeItems, bind_ok, pure_ok] at h
    obtain ⟨item, _, others, hothers, rfl⟩ := h
    have hlen := ih hothers
    simp only [List.length_cons, List.length_append]
    omega

theorem encodeMembers_length {layout : Layout} {level : Nat} {items : List (PyStr × Value)}
    {text : PyStr} (h : encodeMembers P layout level items = .ok text) :
    items.length ≤ text.length := by
  induction items generalizing text with
  | nil => exact Nat.zero_le _
  | cons item items ih =>
    obtain ⟨key, v⟩ := item
    simp only [encodeMembers, bind_ok, pure_ok] at h
    obtain ⟨text', _, others, hothers, rfl⟩ := h
    have hlen := ih hothers
    simp only [List.length_cons, List.length_append]
    omega

theorem skipSpace_value {layout : Layout} {level : Nat} {v : Value} {text : PyStr}
    (hplain : Plain v) (h : encodeValue P layout level v = .ok text) {ws : PyStr}
    (hws : ws.all isJsonSpace = true) (rest : PyStr) :
    skipSpace (ws ++ (text ++ rest)) = text ++ rest := by
  obtain ⟨c, tail, rfl, hspace, _, _⟩ := encodeValue_head hplain h
  rw [skipSpace_append hws, List.cons_append, skipSpace_cons hspace]

theorem scanMember_encode {scan : PyStr → Scan Value} {layout : Layout} {level : Nat} {v : Value}
    {text : PyStr} (key : PyStr) (hplain : Plain v) (h : encodeValue P layout level v = .ok text)
    {rest : PyStr} (hscan : scan (text ++ rest) = .ok (v, rest)) :
    scanMember scan (encodeString key ++ colon :: layout.gap ++ (text ++ rest)) =
      .ok ((key, v), rest) := by
  have hskip := skipSpace_value hplain h (show ([] : PyStr).all isJsonSpace = true from rfl) rest
  simp only [scanMember, scanKey_encode, bind, Except.bind, List.nil_append] at hskip ⊢
  simp only [hskip, hscan, pure, Except.pure]

/-! The round trip follows the value: one case per constructor, the tails of containers by
the recursion on their items. -/

section
variable {layout : Layout}

mutual

theorem scanOnce_encode : (v : Value) → ∀ (limit : Nat) {level : Nat} {text rest : PyStr}, Plain v →
    depth v ≤ limit → encodeValue P layout level v = .ok text → EndsNumeral rest →
    scanOnce P limit (text ++ rest) = .ok (v, rest)
  | .none, limit, level, text, rest, _, _, h, _ => by
    simp only [encodeValue, Except.ok.injEq] at h
    subst h
    cases limit <;> exact scanValue_word _ (lit "null", .none) (by simp) rest
  | .bool true, limit, level, text, rest, _, _, h, _ => by
    simp only [encodeValue, Except.ok.injEq] at h
    subst h
    cases limit <;> exact scanValue_word _ (lit "true", .bool true) (by simp) rest
  | .bool false, limit, level, text, rest, _, _, h, _ => by
    simp only [encodeValue, Except.ok.injEq] at h
    subst h
    cases limit <;> exact scanValue_word _ (lit "false", .bool false) (by simp) rest
  | .int n, limit, level, text, rest, _, _, h, hrest => by
    simp only [encodeValue] at h
    cases limit <;> exact scanValue_int _ h hrest
  | .float bits, limit, level, text, rest, hplain, _, _, _ => hplain.elim
  | .str s, limit, level, text, rest, _, _, h, _ => by
    simp only [encodeValue, Except.ok.injEq] at h
    subst h
    cases limit <;> exact scanValue_str _ s rest
  | .list [], 0, level, text, rest, _, hdepth, _, _ => by simp [depth] at hdepth
  | .list [], limit + 1, level, text, rest, _, _, h, _ => by
    simp only [encodeValue, Except.ok.injEq] at h
    subst h
    rfl
  | .list (v :: vs), 0, level, text, rest, _, hdepth, _, _ => by simp [depth] at hdepth
  | .list (v :: vs), limit + 1, level, text, rest, hplain, hdepth, h, _ => by
    simp only [encodeValue, bind_ok, pure_ok] at h
    obtain ⟨first, hfirst, others, hothers, rfl⟩ := h
    simp only [depth, depthItems] at hdepth
    have hclose := layout.lineBreak_space level
    have hlength := encodeItems_length hothers
    have hv := scanOnce_encode v limit hplain.1 (by omega) hfirst
      (endsNumeral_items hothers hclose rest)
    have hvs := scanItems_encode vs limit
      ((others ++ (layout.lineBreak level ++ closeList :: rest)).length + 1) hplain.2 (by omega)
      hothers hclose (by simp only [List.length_append]; omega) rest
    have hskip := skipSpace_value hplain.1 hfirst (layout.lineBreak_space (level + 1))
      (others ++ (layout.lineBreak level ++ closeList :: rest))
    obtain ⟨c, tail, hform, _, hc, _⟩ := encodeValue_head hplain.1 hfirst
    have hhead : (first ++ (others ++ (layout.lineBreak level ++ closeList :: rest))).head? ≠
        some closeList := by simpa [hform] using hc
    have hscan : scanList (scanOnce P limit) (layout.lineBreak (level + 1) ++
        (first ++ (others ++ (layout.lineBreak level ++ closeList :: rest)))) =
        .ok (.list (v :: vs), rest) := by
      simp only [scanList, hskip, hhead, if_false, hv, hvs, bind, Except.bind, pure, Except.pure]
    have hopen : openList ≠ quote := by decide
    simpa only [scanOnce, scanValue, List.cons_append, List.append_assoc, List.nil_append, hopen,
      if_false, if_true] using hscan
  | .dict [], 0, level, text, rest, _, hdepth, _, _ => by simp [depth] at hdepth
  | .dict [], limit + 1, level, text, rest, _, _, h, _ => by
    simp only [encodeValue, Except.ok.injEq] at h
    subst h
    rfl
  | .dict (item :: items), 0, level, text, rest, _, hdepth, _, _ => by simp [depth] at hdepth
  | .dict ((key, v) :: items), limit + 1, level, text, rest, hplain, hdepth, h, _ => by
    simp only [encodeValue, bind_ok, pure_ok] at h
    obtain ⟨first, hfirst, others, hothers, rfl⟩ := h
    simp only [depth, depthMembers] at hdepth
    have hclose := layout.lineBreak_space level
    have hlength := encodeMembers_length hothers
    have hv := scanOnce_encode v limit hplain.2.1 (by omega) hfirst
      (endsNumeral_members hothers hclose rest)
    have hitem := scanMember_encode key hplain.2.1 hfirst hv
    have hitems := scanMembers_encode items limit
      ((others ++ (layout.lineBreak level ++ closeDict :: rest)).length + 1) hplain.2.2 (by omega)
      hothers hclose (by simp only [List.length_append]; omega) rest
    have hquote : isJsonSpace quote = false := by decide
    have hhead : quote ≠ closeDict := by decide
    have hscan : scanDict (scanOnce P limit) (layout.lineBreak (level + 1) ++
        (encodeString key ++ colon :: layout.gap ++
          (first ++ (others ++ (layout.lineBreak level ++ closeDict :: rest))))) =
        .ok (.dict ((key, v) :: items), rest) := by
      have hskip : skipSpace (layout.lineBreak (level + 1) ++
          (encodeString key ++ colon :: layout.gap ++
            (first ++ (others ++ (layout.lineBreak level ++ closeDict :: rest))))) =
          encodeString key ++ colon :: layout.gap ++
            (first ++ (others ++ (layout.lineBreak level ++ closeDict :: rest))) := by
        rw [skipSpace_append (layout.lineBreak_space (level + 1))]
        exact skipSpace_cons hquote _
      have hnot : (encodeString key ++ colon :: layout.gap ++
          (first ++ (others ++ (layout.lineBreak level ++ closeDict :: rest)))).head? ≠
          some closeDict := fun he => hhead (Option.some.inj he)
      simp only [scanDict, hskip, hnot, if_false, hitem, hitems, bind, Except.bind, pure,
        Except.pure, dictOf_nodup hplain.1]
    have hopen : openDict ≠ quote := by decide
    have hlist : openDict ≠ openList := by decide
    simpa only [scanOnce, scanValue, List.cons_append, List.append_assoc, List.nil_append, hopen,
      hlist, if_false, if_true] using hscan

theorem scanItems_encode : (vs : List Value) → ∀ (limit fuel : Nat) {level : Nat} {text ws : PyStr},
    PlainItems vs → depthItems vs ≤ limit → encodeItems P layout level vs = .ok text →
    ws.all isJsonSpace = true → vs.length < fuel → ∀ rest,
    scanItems (scanOnce P limit) fuel (text ++ (ws ++ closeList :: rest)) = .ok (vs, rest)
  | vs, limit, 0, level, text, ws, _, _, _, _, hfuel, rest => by omega
  | [], limit, fuel + 1, level, text, ws, _, _, h, hws, _, rest => by
    simp only [encodeItems, Except.ok.injEq] at h
    subst h
    have hspace : isJsonSpace closeList = false := by decide
    simp only [List.nil_append, scanItems, skipSpace_append hws, skipSpace_cons hspace, if_true]
  | v :: vs, limit, fuel + 1, level, text, ws, hplain, hdepth, h, hws, hfuel, rest => by
    simp only [encodeItems, bind_ok, pure_ok] at h
    obtain ⟨item, hitem, others, hothers, rfl⟩ := h
    simp only [depthItems] at hdepth
    rw [List.length_cons] at hfuel
    have hv := scanOnce_encode v limit hplain.1 (by omega) hitem
      (endsNumeral_items hothers hws rest)
    have hvs := scanItems_encode vs limit fuel hplain.2 (by omega) hothers hws (by omega) rest
    have hskip := skipSpace_value hplain.1 hitem (layout.lineBreak_space level)
      (others ++ (ws ++ closeList :: rest))
    have hspace : isJsonSpace comma = false := by decide
    have hne : comma ≠ closeList := by decide
    simp only [List.cons_append, List.append_assoc, scanItems, skipSpace_cons hspace, hne, if_false,
      if_true, hskip, hv, hvs, bind, Except.bind, pure, Except.pure]

theorem scanMembers_encode : (items : List (PyStr × Value)) →
    ∀ (limit fuel : Nat) {level : Nat} {text ws : PyStr}, PlainMembers items →
    depthMembers items ≤ limit → encodeMembers P layout level items = .ok text →
    ws.all isJsonSpace = true → items.length < fuel → ∀ rest,
    scanMembers (scanOnce P limit) fuel (text ++ (ws ++ closeDict :: rest)) = .ok (items, rest)
  | items, limit, 0, level, text, ws, _, _, _, _, hfuel, rest => by omega
  | [], limit, fuel + 1, level, text, ws, _, _, h, hws, _, rest => by
    simp only [encodeMembers, Except.ok.injEq] at h
    subst h
    have hspace : isJsonSpace closeDict = false := by decide
    simp only [List.nil_append, scanMembers, skipSpace_append hws, skipSpace_cons hspace, if_true]
  | (key, v) :: items, limit, fuel + 1, level, text, ws, hplain, hdepth, h, hws, hfuel, rest => by
    simp only [encodeMembers, bind_ok, pure_ok] at h
    obtain ⟨item, hitem, others, hothers, rfl⟩ := h
    simp only [depthMembers] at hdepth
    rw [List.length_cons] at hfuel
    have hv := scanOnce_encode v limit hplain.1 (by omega) hitem
      (endsNumeral_members hothers hws rest)
    have hmember := scanMember_encode key hplain.1 hitem hv
    have hitems := scanMembers_encode items limit fuel hplain.2 (by omega) hothers hws
      (by omega) rest
    have hskip : skipSpace (layout.lineBreak level ++ (encodeString key ++
        (colon :: (layout.gap ++ (item ++ (others ++ (ws ++ closeDict :: rest))))))) =
        encodeString key ++ colon :: layout.gap ++
          (item ++ (others ++ (ws ++ closeDict :: rest))) := by
      have hquote : isJsonSpace quote = false := by decide
      rw [skipSpace_append (layout.lineBreak_space level), List.append_assoc]
      exact skipSpace_cons hquote _
    have hspace : isJsonSpace comma = false := by decide
    have hne : comma ≠ closeDict := by decide
    simp only [List.cons_append, List.append_assoc, scanMembers, skipSpace_cons hspace, hne,
      if_false, if_true, hskip, bind, Except.bind, pure, Except.pure]
    simp only [List.cons_append, List.append_assoc] at hmember
    simp only [hmember, hitems]

end

end

/-- What `dumps` writes, `loads` reads back as the same value. -/
theorem loads_dumps {layout : Layout} {v : Value} {text : PyStr} (hplain : Plain v)
    (h : dumps P layout v = .ok text) : loads P text = .ok v := by
  unfold dumps at h
  split at h
  · cases h
  · rename_i hdepth
    have hends : EndsNumeral [] := by
      intro c hc
      cases hc
    have hscan := scanOnce_encode v P.recursionLimit hplain (Nat.le_of_not_lt hdepth) h hends
    obtain ⟨c, rest, hform, hspace, _, hascii⟩ := encodeValue_head hplain h
    rw [List.append_nil] at hscan
    have hmark : text.head? ≠ some byteOrderMark := by
      rw [hform]
      rintro he
      rw [Option.some.inj he] at hascii
      exact absurd hascii (by decide)
    have hskip : skipSpace text = text := by rw [hform, skipSpace_cons hspace]
    have hnil : skipSpace [] = [] := rfl
    simp only [loads, hmark, if_false, hskip, hscan, bind, Except.bind, hnil, if_true, pure,
      Except.pure]

end Rdap.Python.Json
