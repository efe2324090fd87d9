import Rdap.Python.JsonAscii

/-!
# What is read back of JSON in ASCII

Everything but a high surrogate before a low one: their two escapes are those of one
character. Floating point numbers come back because `repr` writes them so that `float` reads
them.
-/

set_option autoImplicit false

namespace Rdap.Python.Json

/-! ## What is read back -/

mutual

/-- The value that is read for one that was written. -/
def reread : Value → Value
  | .none => .none
  | .bool b => .bool b
  | .int n => .int n
  | .float bits => .float (if isFinite bits ∨ bits = infinity ∨ bits = negInfinity then bits else nan)
  | .str s => .str (joined none s)
  | .list items => .list (rereadItems items)
  | .dict items => .dict (dictOf (rereadMembers items))

def rereadItems : List Value → List Value
  | [] => []
  | v :: vs => reread v :: rereadItems vs

def rereadMembers : List (PyStr × Value) → List (PyStr × Value)
  | [] => []
  | (key, v) :: items => (joined none key, reread v) :: rereadMembers items

end

variable {P : Platform}

/-- Text that begins like a number is read as one. -/
theorem scanValue_numeral (inner : Option (PyStr → Scan Value)) {s : PyStr}
    (h : ∃ d ds, d < 10 ∧ (s = digitChar d :: ds ∨ s = minus :: digitChar d :: ds)) :
    scanValue P inner s = scanNumeral P s := by
  have hdigit : ∀ d : Fin 10, ∀ word ∈ words, word.1.take 1 ≠ [digitChar d] := by decide
  have hsigned : ∀ d : Fin 10, ∀ word ∈ words, word.1.take 2 ≠ [minus, digitChar d] := by decide
  obtain ⟨d, ds, hd, rfl | rfl⟩ := h
  · obtain ⟨_, _, hquote, hlist, hdict, _⟩ := digitChar_head hd
    simp only [scanValue, hquote, hlist, hdict, if_false]
    exact scanScalar_of_take 1 (by omega) (hdigit ⟨d, hd⟩)
  · have hquote : minus ≠ quote := by decide
    have hlist : minus ≠ openList := by decide
    have hdict : minus ≠ openDict := by decide
    simp only [scanValue, hquote, hlist, hdict, if_false]
    exact scanScalar_of_take 2 (by omega) (hsigned ⟨d, hd⟩)

theorem FloatLiteral.text_head (f : FloatLiteral) : ∃ d ds, d < 10 ∧
    (f.text = digitChar d :: ds ∨ f.text = minus :: digitChar d :: ds) := by
  obtain ⟨d, ds, hform, hd⟩ := natDecimal_head f.whole
  refine ⟨d, ds ++ (f.point ++ f.power), hd, ?_⟩
  simp only [FloatLiteral.text, FloatLiteral.sign, hform, List.append_assoc]
  split
  · exact Or.inr rfl
  · exact Or.inl rfl

theorem encodeFloat_finite {bits : UInt64} (h : isFinite bits = true) :
    encodeFloat P bits = P.reprValue (.float bits) := by
  have hinf : bits ≠ infinity := fun he => absurd (he ▸ h) (by decide)
  have hneg : bits ≠ negInfinity := fun he => absurd (he ▸ h) (by decide)
  have hnan : ¬ bits.toNat / 2 ^ 52 % 2 ^ 11 = 2047 := of_decide_eq_true h
  unfold encodeFloat
  rw [if_neg hinf, if_neg hneg, if_neg hnan]

/-- The words that Python adds to JSON. -/
theorem encodeFloat_word {bits : UInt64} (h : isFinite bits = false) :
    ∃ word ∈ [(lit "NaN", nan), (lit "Infinity", infinity), (lit "-Infinity", negInfinity)],
      encodeFloat P bits = word.1 ∧ reread (.float bits) = .float word.2 := by
  have hnan : bits.toNat / 2 ^ 52 % 2 ^ 11 = 2047 := not_not.mp (of_decide_eq_false h)
  unfold encodeFloat
  by_cases hinf : bits = infinity
  · subst hinf
    exact ⟨(lit "Infinity", infinity), by simp, rfl, rfl⟩
  · by_cases hneg : bits = negInfinity
    · subst hneg
      exact ⟨(lit "-Infinity", negInfinity), by simp, rfl, rfl⟩
    · refine ⟨(lit "NaN", nan), by simp, ?_, ?_⟩
      · rw [if_neg hinf, if_neg hneg, if_pos hnan]
      · simp only [reread, h, hinf, hneg, Bool.false_eq_true, or_self, if_false]

theorem scanValue_float (hP : ReprFloats P) (inner : Option (PyStr → Scan Value)) (bits : UInt64)
    {rest : PyStr} (h : EndsNumeral rest) :
    scanValue P inner (encodeFloat P bits ++ rest) = .ok (reread (.float bits), rest) := by
  by_cases hfinite : isFinite bits = true
  · obtain ⟨f, hf⟩ := hP.literal bits hfinite
    have hparse := hP.parse bits hfinite
    have hhead : ∃ d ds, d < 10 ∧ (f.text ++ rest = digitChar d :: ds ∨
        f.text ++ rest = minus :: digitChar d :: ds) := by
      obtain ⟨d, ds, hd, hform⟩ := f.text_head
      refine ⟨d, ds ++ rest, hd, ?_⟩
      rcases hform with hform | hform
      · exact Or.inl (by rw [hform]; rfl)
      · exact Or.inr (by rw [hform]; rfl)
    rw [encodeFloat_finite hfinite, hf, scanValue_numeral _ hhead, scanNumeral_literal f h, ← hf, hparse]
    simp only [reread, hfinite, true_or, if_true]
  · obtain ⟨word, hword, htext, hread⟩ := encodeFloat_word (P := P) (Bool.eq_false_iff.mpr hfinite)
    rw [htext, hread]
    simp only [List.mem_cons, List.not_mem_nil, or_false] at hword
    rcases hword with rfl | rfl | rfl
    · rfl
    · rfl
    · rfl

/-- The first character of a written value: in ASCII, no blank and no bracket that closes. -/
theorem encodeAscii_head (hP : ReprFloats P) {v : Value} {text : PyStr}
    (h : encodeAscii P v = .ok text) :
    ∃ c rest, text = c :: rest ∧ isJsonSpace c = false ∧ c ≠ closeList ∧ isAscii c = true := by
  cases v with
  | none =>
    obtain rfl := Except.ok.inj h
    exact ⟨110, _, rfl, by decide, by decide, by decide⟩
  | bool b =>
    cases b with
    | false =>
      obtain rfl := Except.ok.inj h
      exact ⟨102, _, rfl, by decide, by decide, by decide⟩
    | true =>
      obtain rfl := Except.ok.inj h
      exact ⟨116, _, rfl, by decide, by decide, by decide⟩
  | int n =>
    simp only [encodeAscii] at h
    obtain ⟨d, ds, hd, hform | hform⟩ := intDecimal_head n
    · obtain ⟨hspace, hclose, _, _, _, hascii⟩ := digitChar_head hd
      exact ⟨digitChar d, ds, (strInt_ok h).trans hform, hspace, hclose, hascii⟩
    · exact ⟨minus, _, (strInt_ok h).trans hform, by decide, by decide, by decide⟩
  | float bits =>
    simp only [encodeAscii, Except.ok.injEq] at h
    by_cases hfinite : isFinite bits = true
    · obtain ⟨f, hf⟩ := hP.literal bits hfinite
      rw [encodeFloat_finite hfinite, hf] at h
      obtain ⟨d, ds, hd, hform | hform⟩ := f.text_head
      · obtain ⟨hspace, hclose, _, _, _, hascii⟩ := digitChar_head hd
        exact ⟨digitChar d, ds, h ▸ hform, hspace, hclose, hascii⟩
      · exact ⟨minus, _, h ▸ hform, by decide, by decide, by decide⟩
    · obtain ⟨word, hword, htext, _⟩ := encodeFloat_word (P := P) (Bool.eq_false_iff.mpr hfinite)
      rw [htext] at h
      simp only [List.mem_cons, List.not_mem_nil, or_false] at hword
      rcases hword with rfl | rfl | rfl
      · exact ⟨78, _, h.symm, by decide, by decide, by decide⟩
      · exact ⟨73, _, h.symm, by decide, by decide, by decide⟩
      · exact ⟨45, _, h.symm, by decide, by decide, by decide⟩
  | str s =>
    obtain rfl := Except.ok.inj h
    exact ⟨quote, _, rfl, by decide, by decide, by decide⟩
  | list items =>
    cases items with
    | nil =>
      obtain rfl := Except.ok.inj h
      exact ⟨openList, _, rfl, by decide, by decide, by decide⟩
    | cons v vs =>
      simp only [encodeAscii, bind_ok, pure_ok] at h
      obtain ⟨_, _, _, _, rfl⟩ := h
      exact ⟨openList, _, rfl, by decide, by decide, by decide⟩
  | dict items =>
    cases items with
    | nil =>
      obtain rfl := Except.ok.inj h
      exact ⟨openDict, _, rfl, by decide, by decide, by decide⟩
    | cons item items =>
      simp only [encodeAscii, bind_ok, pure_ok] at h
      obtain ⟨_, _, _, _, rfl⟩ := h
      exact ⟨openDict, _, rfl, by decide, by decide, by decide⟩

theorem skipSpace_ascii (hP : ReprFloats P) {v : Value} {text : PyStr} (h : encodeAscii P v = .ok text)
    (rest : PyStr) : skipSpace (text ++ rest) = text ++ rest := by
  obtain ⟨c, tail, rfl, hspace, _, _⟩ := encodeAscii_head hP h
  rw [List.cons_append, skipSpace_cons hspace]

theorem endsNumeral_close {c : CodePoint} (hc : c = comma ∨ c = closeList ∨ c = closeDict)
    (rest : PyStr) : EndsNumeral (c :: rest) :=
  @endsNumeral_of_break [] rfl c hc rest

theorem endsNumeral_itemsAscii {vs : List Value} {text : PyStr} (h : encodeItemsAscii P vs = .ok text)
    (rest : PyStr) : EndsNumeral (text ++ closeList :: rest) := by
  cases vs with
  | nil =>
    obtain rfl := Except.ok.inj h
    exact endsNumeral_close (Or.inr (Or.inl rfl)) rest
  | cons v vs =>
    simp only [encodeItemsAscii, bind_ok, pure_ok] at h
    obtain ⟨item, _, others, _, rfl⟩ := h
    exact endsNumeral_close (Or.inl rfl) _

theorem endsNumeral_membersAscii {items : List (PyStr × Value)} {text : PyStr}
    (h : encodeMembersAscii P items = .ok text) (rest : PyStr) :
    EndsNumeral (text ++ closeDict :: rest) := by
  cases items with
  | nil =>
    obtain rfl := Except.ok.inj h
    exact endsNumeral_close (Or.inr (Or.inr rfl)) rest
  | cons item items =>
    simp only [encodeMembersAscii, bind_ok, pure_ok] at h
    obtain ⟨_, _, _, _, rfl⟩ := h
    exact endsNumeral_close (Or.inl rfl) _

theorem scanKey_ascii (key rest : PyStr) :
    scanKey (encodeStringAscii key ++ colon :: rest) = .ok (joined none key, skipSpace rest) := by
  have hspace : isJsonSpace colon = false := by decide
  simp only [encodeStringAscii, List.cons_append, List.append_assoc, List.nil_append, scanKey, if_true,
    scanString_ascii, bind, Except.bind, skipSpace_cons hspace, pure, Except.pure]

theorem itemsAscii_length {vs : List Value} {text : PyStr} (h : encodeItemsAscii P vs = .ok text) :
    vs.length ≤ text.length := by
  induction vs generalizing text with
  | nil => exact Nat.zero_le _
  | cons v vs ih =>
    simp only [encodeItemsAscii, bind_ok, pure_ok] at h
    obtain ⟨item, _, others, hothers, rfl⟩ := h
    have hlen := ih hothers
    simp only [List.length_cons, List.length_append]
    omega

theorem membersAscii_length {items : List (PyStr × Value)} {text : PyStr}
    (h : encodeMembersAscii P items = .ok text) : items.length ≤ text.length := by
  induction items generalizing text with
  | nil => exact Nat.zero_le _
  | cons item items ih =>
    simp only [encodeMembersAscii, bind_ok, pure_ok] at h
    obtain ⟨_, _, others, hothers, rfl⟩ := h
    have hlen := ih hothers
    simp only [List.length_cons, List.length_append]
    omega

theorem scanMember_ascii (hP : ReprFloats P) {scan : PyStr → Scan Value} {v w : Value} {text : PyStr}
    (key : PyStr) (h : encodeAscii P v = .ok text) {rest : PyStr}
    (hscan : scan (text ++ rest) = .ok (w, rest)) :
    scanMember scan (encodeStringAscii key ++ colon :: (text ++ rest)) =
      .ok ((joined none key, w), rest) := by
  simp only [scanMember, scanKey_ascii, skipSpace_ascii hP h, hscan, bind, Except.bind, pure, Except.pure]

/-! The reading follows the value: one case per constructor, the tails of containers by the
recursion on their items. -/

mutual

theorem scanOnce_ascii (hP : ReprFloats P) : (v : Value) → ∀ (limit : Nat) {text rest : PyStr},
    depth v ≤ limit → encodeAscii P v = .ok text → EndsNumeral rest →
    scanOnce P limit (text ++ rest) = .ok (reread v, rest)
  | .none, limit, text, rest, _, h, _ => by
    obtain rfl := Except.ok.inj h
    cases limit <;> exact scanValue_word _ (lit "null", .none) (by simp) rest
  | .bool true, limit, text, rest, _, h, _ => by
    obtain rfl := Except.ok.inj h
    cases limit <;> exact scanValue_word _ (lit "true", .bool true) (by simp) rest
  | .bool false, limit, text, rest, _, h, _ => by
    obtain rfl := Except.ok.inj h
    cases limit <;> exact scanValue_word _ (lit "false", .bool false) (by simp) rest
  | .int n, limit, text, rest, _, h, hrest => by
    simp only [encodeAscii] at h
    cases limit <;> exact scanValue_int _ h hrest
  | .float bits, limit, text, rest, _, h, hrest => by
    simp only [encodeAscii, Except.ok.injEq] at h
    subst h
    cases limit <;> exact scanValue_float hP _ bits hrest
  | .str s, limit, text, rest, _, h, _ => by
    obtain rfl := Except.ok.inj h
    have hscan : ∀ inner, scanValue P inner (encodeStringAscii s ++ rest) =
        .ok (.str (joined none s), rest) := by
      intro inner
      simp only [encodeStringAscii, List.cons_append, List.append_assoc, List.nil_append, scanValue,
        if_true, scanString_ascii, Except.map]
    cases limit <;> exact hscan _
  | .list [], 0, text, rest, hdepth, _, _ => by simp [depth] at hdepth
  | .list [], limit + 1, text, rest, _, h, _ => by
    obtain rfl := Except.ok.inj h
    rfl
  | .list (v :: vs), 0, text, rest, hdepth, _, _ => by simp [depth] at hdepth
  | .list (v :: vs), limit + 1, text, rest, hdepth, h, _ => by
    simp only [encodeAscii, bind_ok, pure_ok] at h
    obtain ⟨first, hfirst, others, hothers, rfl⟩ := h
    simp only [depth, depthItems] at hdepth
    have hlength := itemsAscii_length hothers
    have hv := scanOnce_ascii hP v limit (by omega) hfirst (endsNumeral_itemsAscii hothers rest)
    have hvs := scanItems_ascii hP vs limit ((others ++ closeList :: rest).length + 1) (by omega)
      hothers (by simp only [List.length_append]; omega) rest
    have hskip := skipSpace_ascii hP hfirst (others ++ closeList :: rest)
    obtain ⟨c, tail, hform, _, hc, _⟩ := encodeAscii_head hP hfirst
    have hhead : (first ++ (others ++ closeList :: rest)).head? ≠ some closeList := by
      simpa [hform] using hc
    have hscan : scanList (scanOnce P limit) (first ++ (others ++ closeList :: rest)) =
        .ok (.list (reread v :: rereadItems vs), rest) := by
      simp only [scanList, hskip, hhead, if_false, hv, hvs, bind, Except.bind, pure, Except.pure]
    have hopen : openList ≠ quote := by decide
    simpa only [scanOnce, scanValue, List.cons_append, List.append_assoc, List.nil_append, hopen,
      if_false, if_true, reread, rereadItems] using hscan
  | .dict [], 0, text, rest, hdepth, _, _ => by simp [depth] at hdepth
  | .dict [], limit + 1, text, rest, _, h, _ => by
    obtain rfl := Except.ok.inj h
    rfl
  | .dict (item :: items), 0, text, rest, hdepth, _, _ => by simp [depth] at hdepth
  | .dict ((key, v) :: items), limit + 1, text, rest, hdepth, h, _ => by
    simp only [encodeAscii, bind_ok, pure_ok] at h
    obtain ⟨first, hfirst, others, hothers, rfl⟩ := h
    simp only [depth, depthMembers] at hdepth
    have hlength := membersAscii_length hothers
    have hv := scanOnce_ascii hP v limit (by omega) hfirst (endsNumeral_membersAscii hothers rest)
    have hitem := scanMember_ascii hP key hfirst hv
    have hitems := scanMembers_ascii hP items limit ((others ++ closeDict :: rest).length + 1) (by omega)
      hothers (by simp only [List.length_append]; omega) rest
    have hquote : isJsonSpace quote = false := by decide
    have hhead : quote ≠ closeDict := by decide
    have hscan : scanDict (scanOnce P limit)
        (encodeStringAscii key ++ colon :: (first ++ (others ++ closeDict :: rest))) =
        .ok (.dict (dictOf ((joined none key, reread v) :: rereadMembers items)), rest) := by
      have hskip : skipSpace (encodeStringAscii key ++ colon :: (first ++ (others ++ closeDict :: rest))) =
          encodeStringAscii key ++ colon :: (first ++ (others ++ closeDict :: rest)) :=
        skipSpace_cons hquote _
      have hnot : (encodeStringAscii key ++ colon :: (first ++ (others ++ closeDict :: rest))).head? ≠
          some closeDict := fun he => hhead (Option.some.inj he)
      simp only [scanDict, hskip, hnot, if_false, hitem, hitems, bind, Except.bind, pure, Except.pure]
    have hopen : openDict ≠ quote := by decide
    have hlist : openDict ≠ openList := by decide
    simpa only [scanOnce, scanValue, List.cons_append, List.append_assoc, List.nil_append, hopen,
      hlist, if_false, if_true, reread, rereadMembers] using hscan

theorem scanItems_ascii (hP : ReprFloats P) : (vs : List Value) → ∀ (limit fuel : Nat) {text : PyStr},
    depthItems vs ≤ limit → encodeItemsAscii P vs = .ok text → vs.length < fuel → ∀ rest,
    scanItems (scanOnce P limit) fuel (text ++ closeList :: rest) = .ok (rereadItems vs, rest)
  | vs, limit, 0, text, _, _, hfuel, rest => by omega
  | [], limit, fuel + 1, text, _, h, _, rest => by
    obtain rfl := Except.ok.inj h
    have hspace : isJsonSpace closeList = false := by decide
    simp only [List.nil_append, scanItems, skipSpace_cons hspace, if_true, rereadItems]
  | v :: vs, limit, fuel + 1, text, hdepth, h, hfuel, rest => by
    simp only [encodeItemsAscii, bind_ok, pure_ok] at h
    obtain ⟨item, hitem, others, hothers, rfl⟩ := h
    simp only [depthItems] at hdepth
    rw [List.length_cons] at hfuel
    have hv := scanOnce_ascii hP v limit (by omega) hitem (endsNumeral_itemsAscii hothers rest)
    have hvs := scanItems_ascii hP vs limit fuel (by omega) hothers (by omega) rest
    have hskip := skipSpace_ascii hP hitem (others ++ closeList :: rest)
    have hspace : isJsonSpace comma = false := by decide
    have hne : comma ≠ closeList := by decide
    simp only [List.cons_append, List.append_assoc, scanItems, skipSpace_cons hspace, hne, if_false,
      if_true, hskip, hv, hvs, bind, Except.bind, pure, Except.pure, rereadItems]

theorem scanMembers_ascii (hP : ReprFloats P) : (items : List (PyStr × Value)) →
    ∀ (limit fuel : Nat) {text : PyStr}, depthMembers items ≤ limit →
    encodeMembersAscii P items = .ok text → items.length < fuel → ∀ rest,
    scanMembers (scanOnce P limit) fuel (text ++ closeDict :: rest) = .ok (rereadMembers items, rest)
  | items, limit, 0, text, _, _, hfuel, rest => by omega
  | [], limit, fuel + 1, text, _, h, _, rest => by
    obtain rfl := Except.ok.inj h
    have hspace : isJsonSpace closeDict = false := by decide
    simp only [List.nil_append, scanMembers, skipSpace_cons hspace, if_true, rereadMembers]
  | (key, v) :: items, limit, fuel + 1, text, hdepth, h, hfuel, rest => by
    simp only [encodeMembersAscii, bind_ok, pure_ok] at h
    obtain ⟨item, hitem, others, hothers, rfl⟩ := h
    simp only [depthMembers] at hdepth
    rw [List.length_cons] at hfuel
    have hv := scanOnce_ascii hP v limit (by omega) hitem (endsNumeral_membersAscii hothers rest)
    have hmember := scanMember_ascii hP key hitem hv
    have hitems := scanMembers_ascii hP items limit fuel (by omega) hothers (by omega) rest
    have hquote : isJsonSpace quote = false := by decide
    have hskip : skipSpace (encodeStringAscii key ++ colon :: (item ++ (others ++ closeDict :: rest))) =
        encodeStringAscii key ++ colon :: (item ++ (others ++ closeDict :: rest)) :=
      skipSpace_cons hquote _
    have hspace : isJsonSpace comma = false := by decide
    have hne : comma ≠ closeDict := by decide
    simp only [List.cons_append, List.append_assoc, scanMembers, skipSpace_cons hspace, hne, if_false,
      if_true, hskip, bind, Except.bind, pure, Except.pure, hmember, hitems, rereadMembers]

end

/-- What is read for a value that was written. -/
theorem loads_dumpsAscii (hP : ReprFloats P) {v : Value} {text : PyStr}
    (h : dumpsAscii P v = .ok text) : loads P text = .ok (reread v) := by
  unfold dumpsAscii at h
  split at h
  · cases h
  · rename_i hdepth
    have hends : EndsNumeral [] := fun c hc => by cases hc
    have hscan := scanOnce_ascii hP v P.recursionLimit (Nat.le_of_not_lt hdepth) h hends
    obtain ⟨c, rest, hform, hspace, _, hascii⟩ := encodeAscii_head hP h
    rw [List.append_nil] at hscan
    have hmark : text.head? ≠ some byteOrderMark := by
      rw [hform]
      rintro he
      rw [Option.some.inj he] at hascii
      exact absurd hascii (by decide)
    have hskip : skipSpace text = text := by rw [hform, skipSpace_cons hspace]
    have hnil : skipSpace [] = [] := rfl
    simp only [loads, hmark, if_false, hskip, hscan, bind, Except.bind, hnil, if_true, pure,
      Except.pure]

/-! ## Values that survive -/

mutual

/-- The keys of every object differ, as they do in a dictionary. -/
def Keyed : Value → Prop
  | .none | .bool _ | .int _ | .float _ | .str _ => True
  | .list items => KeyedItems items
  | .dict items => (items.map Prod.fst).Nodup ∧ KeyedMembers items

def KeyedItems : List Value → Prop
  | [] => True
  | v :: vs => Keyed v ∧ KeyedItems vs

def KeyedMembers : List (PyStr × Value) → Prop
  | [] => True
  | (_, v) :: items => Keyed v ∧ KeyedMembers items

end

mutual

/-- No string and no key has a high surrogate directly before a low one, and a float that is no number
is the usual one. -/
def Survives : Value → Prop
  | .none | .bool _ | .int _ => True
  | .float bits => isFinite bits = true ∨ bits = infinity ∨ bits = negInfinity ∨ bits = nan
  | .str s => ¬ HasPair s
  | .list items => SurvivesItems items
  | .dict items => SurvivesMembers items

def SurvivesItems : List Value → Prop
  | [] => True
  | v :: vs => Survives v ∧ SurvivesItems vs

def SurvivesMembers : List (PyStr × Value) → Prop
  | [] => True
  | (key, v) :: items => ¬ HasPair key ∧ Survives v ∧ SurvivesMembers items

end

theorem dictSet_length (d : Dict) (key : PyStr) (v : Value) :
    (dictSet d key v).length = if (d.any fun item => item.1 = key) then d.length else d.length + 1 := by
  unfold dictSet
  split <;> simp

theorem dictSet_names (d : Dict) (key : PyStr) (v : Value) :
    (dictSet d key v).map Prod.fst = if key ∈ d.map Prod.fst then d.map Prod.fst else d.map Prod.fst ++ [key] := by
  have hany : (d.any fun item => item.1 = key) = true ↔ key ∈ d.map Prod.fst := by
    simp only [List.any_eq_true, decide_eq_true_eq, List.mem_map]
  unfold dictSet
  by_cases hold : key ∈ d.map Prod.fst
  · rw [if_pos (hany.mpr hold), if_pos hold, List.map_map]
    apply List.map_congr_left
    intro item _
    simp only [Function.comp]
    split
    · rename_i hsame
      exact hsame.symm
    · rfl
  · rw [if_neg fun h => hold (hany.mp h), if_neg hold, List.map_append]
    rfl

theorem dictSet_nodup {d : Dict} (h : (d.map Prod.fst).Nodup) (key : PyStr) (v : Value) :
    ((dictSet d key v).map Prod.fst).Nodup := by
  rw [dictSet_names]
  split
  · exact h
  · rename_i hnew
    rw [← List.concat_eq_append]
    exact h.concat hnew

/-- Where no member replaced another, all names are different. -/
theorem foldl_dictSet_nodup {items d : Dict} (hd : (d.map Prod.fst).Nodup) :
    (items.foldl (fun d item => dictSet d item.1 item.2) d).length ≤ d.length + items.length ∧
    ((items.foldl (fun d item => dictSet d item.1 item.2) d).length = d.length + items.length →
      ((d ++ items).map Prod.fst).Nodup) := by
  induction items generalizing d with
  | nil => simpa using hd
  | cons item items ih =>
    rw [List.foldl_cons]
    by_cases hold : (d.any fun other => other.1 = item.1) = true
    · have hlength := dictSet_length d item.1 item.2
      rw [if_pos hold] at hlength
      have hle := (ih (d := dictSet d item.1 item.2) (dictSet_nodup hd item.1 item.2)).1
      simp only [List.length_cons]
      refine ⟨by omega, fun h => by omega⟩
    · have hset : dictSet d item.1 item.2 = d ++ [item] := by
        unfold dictSet
        rw [if_neg hold]
      have hnew : ((d ++ [item]).map Prod.fst).Nodup := hset ▸ dictSet_nodup hd item.1 item.2
      obtain ⟨hle, himp⟩ := ih hnew
      rw [hset]
      simp only [List.length_append, List.length_cons, List.length_nil, List.append_assoc,
        List.singleton_append] at hle himp ⊢
      exact ⟨by omega, fun h => himp (by omega)⟩

theorem dictOf_eq_of_length {items others : Dict} (h : dictOf items = others)
    (hlength : items.length = others.length) : items = others := by
  have hcount : (dictOf items).length = ([] : Dict).length + items.length := by
    rw [h, hlength]
    simp
  have hnodup : (([] ++ items).map Prod.fst).Nodup := (@foldl_dictSet_nodup items [] List.nodup_nil).2 hcount
  rw [← h]
  exact (dictOf_nodup hnodup).symm

theorem rereadMembers_length (items : List (PyStr × Value)) :
    (rereadMembers items).length = items.length := by
  induction items with
  | nil => rfl
  | cons item items ih =>
    obtain ⟨key, v⟩ := item
    rw [rereadMembers, List.length_cons, List.length_cons, ih]

mutual

theorem reread_eq_iff : (v : Value) → Keyed v → (reread v = v ↔ Survives v)
  | .none, _ => iff_of_true rfl trivial
  | .bool b, _ => iff_of_true rfl trivial
  | .int n, _ => iff_of_true rfl trivial
  | .float bits, _ => by
    simp only [reread, Survives, Value.float.injEq]
    split
    · rename_i h
      refine iff_of_true rfl ?_
      rcases h with h | h | h
      · exact Or.inl h
      · exact Or.inr (Or.inl h)
      · exact Or.inr (Or.inr (Or.inl h))
    · rename_i h
      constructor
      · exact fun heq => Or.inr (Or.inr (Or.inr heq.symm))
      · rintro (hs | hs | hs | hs)
        · exact absurd (Or.inl hs) h
        · exact absurd (Or.inr (Or.inl hs)) h
        · exact absurd (Or.inr (Or.inr hs)) h
        · exact hs.symm
  | .str s, _ => by
    simp only [reread, Survives, Value.str.injEq]
    exact joined_none_iff s
  | .list items, hkeyed => by
    simp only [reread, Survives, Value.list.injEq]
    exact rereadItems_eq_iff items hkeyed
  | .dict items, hkeyed => by
    have hmembers := rereadMembers_eq_iff items hkeyed.2
    simp only [reread, Survives, Value.dict.injEq]
    rw [← hmembers]
    constructor
    · exact fun h => dictOf_eq_of_length h (rereadMembers_length items)
    · intro h
      rw [h]
      exact dictOf_nodup hkeyed.1

theorem rereadItems_eq_iff : (items : List Value) → KeyedItems items →
    (rereadItems items = items ↔ SurvivesItems items)
  | [], _ => iff_of_true rfl trivial
  | v :: vs, hkeyed => by
    simp only [rereadItems, SurvivesItems, List.cons.injEq]
    exact and_congr (reread_eq_iff v hkeyed.1) (rereadItems_eq_iff vs hkeyed.2)

theorem rereadMembers_eq_iff : (items : List (PyStr × Value)) → KeyedMembers items →
    (rereadMembers items = items ↔ SurvivesMembers items)
  | [], _ => iff_of_true rfl trivial
  | (key, v) :: items, hkeyed => by
    simp only [rereadMembers, SurvivesMembers, List.cons.injEq, Prod.mk.injEq, and_assoc]
    exact and_congr (joined_none_iff key)
      (and_congr (reread_eq_iff v hkeyed.1) (rereadMembers_eq_iff items hkeyed.2))

end

end Rdap.Python.Json
