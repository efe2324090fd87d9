import Rdap.Python.JsonReread

/-!
# JSON on one line

`json.dumps` with `ensure_ascii=False` and its default separators, a blank behind every comma
and colon, and what is read back of it: the value itself, but for the names of members that
occur twice and for the one `NaN`.
-/

set_option autoImplicit false

namespace Rdap.Python.Json

def blank : CodePoint := 32

/-! ## Writing -/

variable (P : Platform)

mutual

/-- `separators=(', ', ': ')` -/
def encodeSpaced : Value → Except PyExc PyStr
  | .none => .ok (lit "null")
  | .bool true => .ok (lit "true")
  | .bool false => .ok (lit "false")
  | .int n => strInt n
  | .float bits => .ok (encodeFloat P bits)
  | .str s => .ok (encodeString s)
  | .list [] => .ok [openList, closeList]
  | .list (v :: vs) => do
    let first ← encodeSpaced v
    let others ← encodeItemsSpaced vs
    return openList :: first ++ others ++ [closeList]
  | .dict [] => .ok [openDict, closeDict]
  | .dict ((key, v) :: items) => do
    let first ← encodeSpaced v
    let others ← encodeMembersSpaced items
    return openDict :: encodeString key ++ colon :: blank :: first ++ others ++ [closeDict]

/-- The items after the first. -/
def encodeItemsSpaced : List Value → Except PyExc PyStr
  | [] => .ok []
  | v :: vs => do
    let item ← encodeSpaced v
    let others ← encodeItemsSpaced vs
    return comma :: blank :: item ++ others

/-- The members after the first. -/
def encodeMembersSpaced : List (PyStr × Value) → Except PyExc PyStr
  | [] => .ok []
  | (key, v) :: items => do
    let item ← encodeSpaced v
    let others ← encodeMembersSpaced items
    return comma :: blank :: encodeString key ++ colon :: blank :: item ++ others

end

def dumpsSpaced (v : Value) : Except PyExc PyStr :=
  if P.recursionLimit < depth v then recursionError else encodeSpaced P v

variable {P}

/-! ## What is read back -/

mutual

/-- The value that is read for one that was written. -/
def settle : Value → Value
  | .none => .none
  | .bool b => .bool b
  | .int n => .int n
  | .float bits => reread (.float bits)
  | .str s => .str s
  | .list items => .list (settleItems items)
  | .dict items => .dict (dictOf (settleMembers items))

def settleItems : List Value → List Value
  | [] => []
  | v :: vs => settle v :: settleItems vs

def settleMembers : List (PyStr × Value) → List (PyStr × Value)
  | [] => []
  | (key, v) :: items => (key, settle v) :: settleMembers items

end

/-- The first character of a written value: in ASCII, no blank and no bracket that closes. -/
theorem encodeSpaced_head (hP : ReprFloats P) {v : Value} {text : PyStr}
    (h : encodeSpaced P v = .ok text) :
    ∃ c rest, text = c :: rest ∧ isJsonSpace c = false ∧ c ≠ closeList ∧ isAscii c = true := by
  cases v with
  | none =>
    obtain rfl := Except.ok.inj h
    exact ⟨110, _, rfl, by decide, by decide, by decide⟩
  | bool b =>
    cases b with
    | false =>
      obtain rfl := Except.ok.inj h
      exact ⟨102, _, rfl, by decide, by decide, by decide⟩
    | true =>
      obtain rfl := Except.ok.inj h
      exact ⟨116, _, rfl, by decide, by decide, by decide⟩
  | int n =>
    apply encodeAscii_head hP (v := .int n)
    simpa only [encodeSpaced, encodeAscii] using h
  | float bits =>
    apply encodeAscii_head hP (v := .float bits)
    simpa only [encodeSpaced, encodeAscii] using h
  | str s =>
    obtain rfl := Except.ok.inj h
    exact ⟨quote, _, rfl, by decide, by decide, by decide⟩
  | list items =>
    cases items with
    | nil =>
      obtain rfl := Except.ok.inj h
      exact ⟨openList, _, rfl, by decide, by decide, by decide⟩
    | cons v vs =>
      simp only [encodeSpaced, bind_ok, pure_ok] at h
      obtain ⟨_, _, _, _, rfl⟩ := h
      exact ⟨openList, _, rfl, by decide, by decide, by decide⟩
  | dict items =>
    cases items with
    | nil =>
      obtain rfl := Except.ok.inj h
      exact ⟨openDict, _, rfl, by decide, by decide, by decide⟩
    | cons item items =>
      simp only [encodeSpaced, bind_ok, pure_ok] at h
      obtain ⟨_, _, _, _, rfl⟩ := h
      exact ⟨openDict, _, rfl, by decide, by decide, by decide⟩

theorem skipSpace_spaced (hP : ReprFloats P) {v : Value} {text : PyStr} (h : encodeSpaced P v = .ok text)
    (rest : PyStr) : skipSpace (text ++ rest) = text ++ rest := by
  obtain ⟨c, tail, rfl, hspace, _, _⟩ := encodeSpaced_head hP h
  rw [List.cons_append, skipSpace_cons hspace]

theorem skipSpace_blank (s : PyStr) : skipSpace (blank :: s) = skipSpace s :=
  @skipSpace_append [blank] rfl s

theorem endsNumeral_itemsSpaced {vs : List Value} {text : PyStr} (h : encodeItemsSpaced P vs = .ok text)
    (rest : PyStr) : EndsNumeral (text ++ closeList :: rest) := by
  cases vs with
  | nil =>
    obtain rfl := Except.ok.inj h
    exact endsNumeral_close (Or.inr (Or.inl rfl)) rest
  | cons v vs =>
    simp only [encodeItemsSpaced, bind_ok, pure_ok] at h
    obtain ⟨item, _, others, _, rfl⟩ := h
    exact endsNumeral_close (Or.inl rfl) _

theorem endsNumeral_membersSpaced {items : List (PyStr × Value)} {text : PyStr}
    (h : encodeMembersSpaced P items = .ok text) (rest : PyStr) :
    EndsNumeral (text ++ closeDict :: rest) := by
  cases items with
  | nil =>
    obtain rfl := Except.ok.inj h
    exact endsNumeral_close (Or.inr (Or.inr rfl)) rest
  | cons item items =>
    simp only [encodeMembersSpaced, bind_ok, pure_ok] at h
    obtain ⟨_, _, _, _, rfl⟩ := h
    exact endsNumeral_close (Or.inl rfl) _

theorem itemsSpaced_length {vs : List Value} {text : PyStr} (h : encodeItemsSpaced P vs = .ok text) :
    vs.length ≤ text.length := by
  induction vs generalizing text with
  | nil => exact Nat.zero_le _
  | cons v vs ih =>
    simp only [encodeItemsSpaced, bind_ok, pure_ok] at h
    obtain ⟨item, _, others, hothers, rfl⟩ := h
    have hlen := ih hothers
    simp only [List.length_cons, List.length_append]
    omega

theorem membersSpaced_length {items : List (PyStr × Value)} {text : PyStr}
    (h : encodeMembersSpaced P items = .ok text) : items.length ≤ text.length := by
  induction items generalizing text with
  | nil => exact Nat.zero_le _
  | cons item items ih =>
    simp only [encodeMembersSpaced, bind_ok, pure_ok] at h
    obtain ⟨_, _, others, hothers, rfl⟩ := h
    have hlen := ih hothers
    simp only [List.length_cons, List.length_append]
    omega

theorem scanMember_spaced (hP : ReprFloats P) {scan : PyStr → Scan Value} {v w : Value} {text : PyStr}
    (key : PyStr) (h : encodeSpaced P v = .ok text) {rest : PyStr}
    (hscan : scan (text ++ rest) = .ok (w, rest)) :
    scanMember scan (encodeString key ++ colon :: blank :: (text ++ rest)) = .ok ((key, w), rest) := by
  have hkey : scanKey (encodeString key ++ colon :: blank :: (text ++ rest)) =
      .ok (key, skipSpace (text ++ rest)) := by
    have hgap := @scanKey_encode indented key (text ++ rest)
    rwa [List.append_assoc] at hgap
  simp only [scanMember, hkey, skipSpace_spaced hP h, hscan, bind, Except.bind, pure, Except.pure]

/-! The reading follows the value: one case per constructor, the tails of containers by the
recursion on their items. -/

mutual

theorem scanOnce_spaced (hP : ReprFloats P) : (v : Value) → ∀ (limit : Nat) {text rest : PyStr},
    depth v ≤ limit → encodeSpaced P v = .ok text → EndsNumeral rest →
    scanOnce P limit (text ++ rest) = .ok (settle v, rest)
  | .none, limit, text, rest, _, h, _ => by
    obtain rfl := Except.ok.inj h
    cases limit <;> exact scanValue_word _ (lit "null", .none) (by simp) rest
  | .bool true, limit, text, rest, _, h, _ => by
    obtain rfl := Except.ok.inj h
    cases limit <;> exact scanValue_word _ (lit "true", .bool true) (by simp) rest
  | .bool false, limit, text, rest, _, h, _ => by
    obtain rfl := Except.ok.inj h
    cases limit <;> exact scanValue_word _ (lit "false", .bool false) (by simp) rest
  | .int n, limit, text, rest, _, h, hrest => by
    simp only [encodeSpaced] at h
    cases limit <;> exact scanValue_int _ h hrest
  | .float bits, limit, text, rest, _, h, hrest => by
    simp only [encodeSpaced, Except.ok.injEq] at h
    subst h
    cases limit <;> exact scanValue_float hP _ bits hrest
  | .str s, limit, text, rest, _, h, _ => by
    obtain rfl := Except.ok.inj h
    cases limit <;> exact scanValue_str _ s rest
  | .list [], 0, text, rest, hdepth, _, _ => by simp [depth] at hdepth
  | .list [], limit + 1, text, rest, _, h, _ => by
    obtain rfl := Except.ok.inj h
    rfl
  | .list (v :: vs), 0, text, rest, hdepth, _, _ => by simp [depth] at hdepth
  | .list (v :: vs), limit + 1, text, rest, hdepth, h, _ => by
    simp only [encodeSpaced, bind_ok, pure_ok] at h
    obtain ⟨first, hfirst, others, hothers, rfl⟩ := h
    simp only [depth, depthItems] at hdepth
    have hlength := itemsSpaced_length hothers
    have hv := scanOnce_spaced hP v limit (by omega) hfirst (endsNumeral_itemsSpaced hothers rest)
    have hvs := scanItems_spaced hP vs limit ((others ++ closeList :: rest).length + 1) (by omega)
      hothers (by simp only [List.length_append]; omega) rest
    have hskip := skipSpace_spaced hP hfirst (others ++ closeList :: rest)
    obtain ⟨c, tail, hform, _, hc, _⟩ := encodeSpaced_head hP hfirst
    have hhead : (first ++ (others ++ closeList :: rest)).head? ≠ some closeList := by
      simpa [hform] using hc
    have hscan : scanList (scanOnce P limit) (first ++ (others ++ closeList :: rest)) =
        .ok (.list (settle v :: settleItems vs), rest) := by
      simp only [scanList, hskip, hhead, if_false, hv, hvs, bind, Except.bind, pure, Except.pure]
    have hopen : openList ≠ quote := by decide
    simpa only [scanOnce, scanValue, List.cons_append, List.append_assoc, List.nil_append, hopen,
      if_false, if_true, settle, settleItems] using hscan
  | .dict [], 0, text, rest, hdepth, _, _ => by simp [depth] at hdepth
  | .dict [], limit + 1, text, rest, _, h, _ => by
    obtain rfl := Except.ok.inj h
    rfl
  | .dict (item :: items), 0, text, rest, hdepth, _, _ => by simp [depth] at hdepth
  | .dict ((key, v) :: items), limit + 1, text, rest, hdepth, h, _ => by
    simp only [encodeSpaced, bind_ok, pure_ok] at h
    obtain ⟨first, hfirst, others, hothers, rfl⟩ := h
    simp only [depth, depthMembers] at hdepth
    have hlength := membersSpaced_length hothers
    have hv := scanOnce_spaced hP v limit (by omega) hfirst (endsNumeral_membersSpaced hothers rest)
    have hitem := scanMember_spaced hP key hfirst hv
    have hitems := scanMembers_spaced hP items limit ((others ++ closeDict :: rest).length + 1) (by omega)
      hothers (by simp only [List.length_append]; omega) rest
    have hquote : isJsonSpace quote = false := by decide
    have hhead : quote ≠ closeDict := by decide
    have hscan : scanDict (scanOnce P limit)
        (encodeString key ++ colon :: blank :: (first ++ (others ++ closeDict :: rest))) =
        .ok (.dict (dictOf ((key, settle v) :: settleMembers items)), rest) := by
      have hskip : skipSpace (encodeString key ++ colon :: blank :: (first ++ (others ++ closeDict :: rest))) =
          encodeString key ++ colon :: blank :: (first ++ (others ++ closeDict :: rest)) :=
        skipSpace_cons hquote _
      have hnot : (encodeString key ++ colon :: blank :: (first ++ (others ++ closeDict :: rest))).head? ≠
          some closeDict := fun he => hhead (Option.some.inj he)
      simp only [scanDict, hskip, hnot, if_false, hitem, hitems, bind, Except.bind, pure, Except.pure]
    have hopen : openDict ≠ quote := by decide
    have hlist : openDict ≠ openList := by decide
    simpa only [scanOnce, scanValue, List.cons_append, List.append_assoc, List.nil_append, hopen,
      hlist, if_false, if_true, settle, settleMembers] using hscan

theorem scanItems_spaced (hP : ReprFloats P) : (vs : List Value) → ∀ (limit fuel : Nat) {text : PyStr},
    depthItems vs ≤ limit → encodeItemsSpaced P vs = .ok text → vs.length < fuel → ∀ rest,
    scanItems (scanOnce P limit) fuel (text ++ closeList :: rest) = .ok (settleItems vs, rest)
  | vs, limit, 0, text, _, _, hfuel, rest => by omega
  | [], limit, fuel + 1, text, _, h, _, rest => by
    obtain rfl := Except.ok.inj h
    have hspace : isJsonSpace closeList = false := by decide
    simp only [List.nil_append, scanItems, skipSpace_cons hspace, if_true, settleItems]
  | v :: vs, limit, fuel + 1, text, hdepth, h, hfuel, rest => by
    simp only [encodeItemsSpaced, bind_ok, pure_ok] at h
    obtain ⟨item, hitem, others, hothers, rfl⟩ := h
    simp only [depthItems] at hdepth
    rw [List.length_cons] at hfuel
    have hv := scanOnce_spaced hP v limit (by omega) hitem (endsNumeral_itemsSpaced hothers rest)
    have hvs := scanItems_spaced hP vs limit fuel (by omega) hothers (by omega) rest
    have hskip := skipSpace_spaced hP hitem (others ++ closeList :: rest)
    have hspace : isJsonSpace comma = false := by decide
    have hne : comma ≠ closeList := by decide
    simp only [List.cons_append, List.append_assoc, scanItems, skipSpace_cons hspace, hne, if_false,
      if_true, skipSpace_blank, hskip, hv, hvs, bind, Except.bind, pure, Except.pure, settleItems]

theorem scanMembers_spaced (hP : ReprFloats P) : (items : List (PyStr × Value)) →
    ∀ (limit fuel : Nat) {text : PyStr}, depthMembers items ≤ limit →
    encodeMembersSpaced P items = .ok text → items.length < fuel → ∀ rest,
    scanMembers (scanOnce P limit) fuel (text ++ closeDict :: rest) = .ok (settleMembers items, rest)
  | items, limit, 0, text, _, _, hfuel, rest => by omega
  | [], limit, fuel + 1, text, _, h, _, rest => by
    obtain rfl := Except.ok.inj h
    have hspace : isJsonSpace closeDict = false := by decide
    simp only [List.nil_append, scanMembers, skipSpace_cons hspace, if_true, settleMembers]
  | (key, v) :: items, limit, fuel + 1, text, hdepth, h, hfuel, rest => by
    simp only [encodeMembersSpaced, bind_ok, pure_ok] at h
    obtain ⟨item, hitem, others, hothers, rfl⟩ := h
    simp only [depthMembers] at hdepth
    rw [List.length_cons] at hfuel
    have hv := scanOnce_spaced hP v limit (by omega) hitem (endsNumeral_membersSpaced hothers rest)
    have hmember := scanMember_spaced hP key hitem hv
    have hitems := scanMembers_spaced hP items limit fuel (by omega) hothers (by omega) rest
    have hquote : isJsonSpace quote = false := by decide
    have hskip : skipSpace (encodeString key ++ (colon :: blank :: (item ++ (others ++ closeDict :: rest)))) =
        encodeString key ++ (colon :: blank :: (item ++ (others ++ closeDict :: rest))) :=
      skipSpace_cons hquote _
    have hspace : isJsonSpace comma = false := by decide
    have hne : comma ≠ closeDict := by decide
    simp only [List.cons_append, List.append_assoc, scanMembers, skipSpace_cons hspace, hne,
      if_false, if_true, skipSpace_blank, hskip, hmember, hitems, bind, Except.bind, pure, Except.pure,
      settleMembers]

end

/-- What `dumps` writes, with white space behind it, is read as the value settles. -/
theorem loads_dumpsSpaced (hP : ReprFloats P) {v : Value} {text ws : PyStr}
    (h : dumpsSpaced P v = .ok text) (hws : ws.all isJsonSpace = true) (hends : EndsNumeral ws) :
    loads P (text ++ ws) = .ok (settle v) := by
  unfold dumpsSpaced at h
  split at h
  · cases h
  · rename_i hdepth
    have hscan := scanOnce_spaced hP v P.recursionLimit (Nat.le_of_not_lt hdepth) h hends
    obtain ⟨c, rest, rfl, hspace, _, hascii⟩ := encodeSpaced_head hP h
    have hmark : (c :: rest ++ ws).head? ≠ some byteOrderMark := by
      intro he
      obtain rfl : c = byteOrderMark := Option.some.inj he
      exact absurd hascii (by decide)
    have hskip : skipSpace (c :: rest ++ ws) = c :: rest ++ ws := by
      rw [List.cons_append, skipSpace_cons hspace]
    have hnil : skipSpace ws = [] := by
      have happend := skipSpace_append hws []
      rwa [List.append_nil] at happend
    simp only [loads, hmark, if_false, hskip, hscan, bind, Except.bind, hnil, if_true, pure,
      Except.pure]

/-! ## Members -/

theorem settleMembers_fst (items : Dict) : (settleMembers items).map Prod.fst = items.map Prod.fst := by
  induction items with
  | nil => rfl
  | cons item items ih =>
    obtain ⟨key, v⟩ := item
    rw [settleMembers, List.map_cons, List.map_cons, ih]

/-- A dictionary that was written is read with the same names. -/
theorem settle_dict {items : Dict} (h : (items.map Prod.fst).Nodup) :
    settle (.dict items) = .dict (settleMembers items) := by
  rw [settle, dictOf_nodup]
  rwa [settleMembers_fst]

theorem getD_settleMembers (items : Dict) (key : PyStr) (default : Value) :
    Dict.getD (settleMembers items) key (settle default) = settle (Dict.getD items key default) := by
  induction items with
  | nil => rfl
  | cons item items ih =>
    obtain ⟨name, v⟩ := item
    simp only [Dict.getD, settleMembers] at ih ⊢
    by_cases hname : name = key
    · simp [hname]
    · simpa [List.find?_cons, hname] using ih

end Rdap.Python.Json
