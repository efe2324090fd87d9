import Rdap.Python.Json

/-!
# What JSON text can hold

What holds of the scalars that the scanner reads, and goes over to the containers around them, holds of
whatever `json.loads` returns. An integer is read with `int`, which refuses a numeral that `str` would not
write, so that the value can be printed again, at any depth.
-/

set_option autoImplicit false

namespace Rdap.Python

variable {P : Platform}

theorem strInt_defined {n : Int} (h : n.natAbs < 10 ^ maxStrDigits) :
    strInt n = .ok (intDecimal n) := by
  have hlen := (Nat.digits_length_le_iff (by decide : 1 < 10) n.natAbs).mpr h
  exact if_pos hlen

theorem decimalValue_lt {c : CodePoint} {d : Nat} (h : decimalValue P c = some d) : d < 10 := by
  unfold decimalValue at h
  split at h
  · rename_i hc
    obtain rfl := Option.some.inj h
    omega
  · split at h
    · cases h
    · obtain ⟨digit, _, rfl⟩ := Option.map_eq_some_iff.mp h
      exact digit.isLt

theorem scanDigits_bound {s rest : PyStr} {value count value' count' : Nat} {pending : Bool}
    (h : scanDigits P value count pending s = some (value', count', rest))
    (hvalue : value < 10 ^ count) : value' < 10 ^ count' := by
  induction s generalizing value count pending with
  | nil =>
    unfold scanDigits at h
    split at h
    · cases h
    · obtain ⟨rfl, rfl, _⟩ : value = value' ∧ count = count' ∧ [] = rest := by simpa using h
      exact hvalue
  | cons c s ih =>
    unfold scanDigits at h
    split at h
    · split at h
      · cases h
      · exact ih h hvalue
    · split at h
      · rename_i d hd
        have hlt := decimalValue_lt hd
        apply ih h
        rw [Nat.pow_succ]
        omega
      · split at h
        · cases h
        · obtain ⟨rfl, rfl, _⟩ : value = value' ∧ count = count' ∧ c :: s = rest := by simpa using h
          exact hvalue

/-- What `int` reads `str` can write. -/
theorem intOfStr_printable {s : PyStr} {n : Int} (h : intOfStr P s = .ok n) :
    strInt n = .ok (intDecimal n) := by
  unfold intOfStr at h
  simp only at h
  split at h
  · rename_i value count rest hscan
    split at h
    · rename_i hsize
      have hbound : value < 10 ^ count := by
        generalize (splitSign (s.dropWhile isIntSpace)).2 = digits at hscan
        cases digits with
        | nil => cases hscan
        | cons c digits =>
          simp only [scanNumber] at hscan
          split at hscan
          · rename_i d hd
            exact scanDigits_bound hscan (by have := decimalValue_lt hd; omega)
          · cases hscan
      have hmax : value < 10 ^ maxStrDigits :=
        Nat.lt_of_lt_of_le hbound (Nat.pow_le_pow_right (by decide) hsize.2)
      obtain rfl := Except.ok.inj h
      apply strInt_defined
      split
      · simpa using hmax
      · simpa using hmax
    · cases h
  · cases h

namespace Json

mutual

/-- Every integer in the value can be printed. -/
def Printable : Value → Prop
  | .int n => strInt n = .ok (intDecimal n)
  | .list items => PrintableItems items
  | .dict items => PrintableMembers items
  | .none | .bool _ | .float _ | .str _ => True

def PrintableItems : List Value → Prop
  | [] => True
  | v :: vs => Printable v ∧ PrintableItems vs

def PrintableMembers : List (PyStr × Value) → Prop
  | [] => True
  | (_, v) :: items => Printable v ∧ PrintableMembers items

end

theorem printableItems_iff (items : List Value) : PrintableItems items ↔ ∀ v ∈ items, Printable v := by
  induction items with
  | nil => simp [PrintableItems]
  | cons v rest ih => simp [PrintableItems, ih]

theorem printableMembers_iff (items : Dict) :
    PrintableMembers items ↔ ∀ item ∈ items, Printable item.2 := by
  induction items with
  | nil => simp [PrintableMembers]
  | cons item rest ih => simp [PrintableMembers, ih]

theorem dictSet_mem {d : Dict} {key : PyStr} {v : Value} {item : PyStr × Value}
    (h : item ∈ dictSet d key v) : item ∈ d ∨ item = (key, v) := by
  unfold dictSet at h
  split at h
  · obtain ⟨old, hold, rfl⟩ := List.mem_map.mp h
    split
    · exact Or.inr rfl
    · exact Or.inl hold
  · rcases List.mem_append.mp h with h | h
    · exact Or.inl h
    · exact Or.inr (List.mem_singleton.mp h)

theorem foldl_dictSet_mem {items d : Dict} {item : PyStr × Value}
    (h : item ∈ items.foldl (fun d item => dictSet d item.1 item.2) d) : item ∈ d ∨ item ∈ items := by
  induction items generalizing d with
  | nil => exact Or.inl h
  | cons first rest ih =>
    rcases ih h with h | h
    · rcases dictSet_mem h with h | rfl
      · exact Or.inl h
      · exact Or.inr List.mem_cons_self
    · exact Or.inr (List.mem_cons_of_mem _ h)

theorem dictOf_mem {items : Dict} {item : PyStr × Value} (h : item ∈ dictOf items) :
    item ∈ items := by
  rcases foldl_dictSet_mem h with h | h
  · cases h
  · exact h

theorem getD_cons (item : PyStr × Value) (d : Dict) (key : PyStr) (default : Value) :
    Dict.getD (item :: d) key default = if item.1 = key then item.2 else Dict.getD d key default := by
  unfold Dict.getD
  by_cases hkey : item.1 = key <;> simp [hkey]

theorem getD_map_set (d : Dict) (key other : PyStr) (v default : Value) :
    Dict.getD (d.map fun item => if item.1 = key then (key, v) else item) other default =
      if other = key ∧ key ∈ d.map Prod.fst then v else Dict.getD d other default := by
  induction d with
  | nil => simp
  | cons item rest ih =>
    rw [List.map_cons, getD_cons, getD_cons, ih]
    simp only [List.map_cons, List.mem_cons]
    by_cases hitem : item.1 = key
    · by_cases hother : other = key
      · simp [hitem, hother]
      · have hne : ¬key = other := fun h => hother h.symm
        simp [hitem, hother, hne]
    · have hne : ¬key = item.1 := fun h => hitem h.symm
      by_cases hsame : item.1 = other
      · have hother : ¬other = key := fun h => hitem (hsame.trans h)
        simp [hsame, hother]
      · simp only [if_neg hitem, if_neg hsame, or_iff_right hne]

/-- `d[key] = v` is seen under its name alone. -/
theorem getD_dictSet (d : Dict) (key other : PyStr) (v default : Value) :
    Dict.getD (dictSet d key v) other default = if other = key then v else Dict.getD d other default := by
  have hany : (d.any fun item => item.1 = key) = true ↔ key ∈ d.map Prod.fst := by
    simp only [List.any_eq_true, decide_eq_true_eq, List.mem_map]
  unfold dictSet
  by_cases hold : key ∈ d.map Prod.fst
  · rw [if_pos (hany.mpr hold), getD_map_set]
    simp [hold]
  · rw [if_neg fun h => hold (hany.mp h)]
    induction d with
    | nil =>
      rw [List.nil_append, getD_cons]
      simp only [eq_comm]
    | cons item rest ih =>
      rw [List.map_cons, List.mem_cons, not_or] at hold
      rw [List.cons_append, getD_cons, getD_cons, ih (by simp) hold.2]
      by_cases hother : other = key
      · have hne : ¬item.1 = key := fun h => hold.1 h.symm
        simp [hother, hne]
      · simp [hother]

/-- A property of values, with the levels of containers left to them, that holds of all the scanner makes. -/
structure ScanClosed (P : Platform) (Q : Nat → Value → Prop) : Prop where
  word : ∀ n, ∀ word ∈ words, Q n word.2
  int : ∀ n {s : PyStr} {k : Int}, intOfStr P s = .ok k → Q n (.int k)
  float : ∀ n {s rest : PyStr} {bits : UInt64}, scanNumeral P s = .ok (.float bits, rest) → Q n (.float bits)
  str : ∀ n s, Q n (.str s)
  list : ∀ {n items}, (∀ v ∈ items, Q n v) → Q (n + 1) (.list items)
  dict : ∀ {n items}, (∀ item ∈ dictOf items, Q n item.2) → Q (n + 1) (.dict (dictOf items))

section
variable {scan : PyStr → Scan Value} {R : Value → Prop} (hscan : ∀ {s rest v}, scan s = .ok (v, rest) → R v)
include hscan

theorem scanItems_forall {n : Nat} {s rest : PyStr} {vs : List Value} (h : scanItems scan n s = .ok (vs, rest)) :
    ∀ v ∈ vs, R v := by
  induction n generalizing s rest vs with
  | zero => cases h
  | succ n ih =>
    unfold scanItems at h
    split at h
    · cases h
    · split at h
      · obtain ⟨rfl, _⟩ : [] = vs ∧ _ = rest := by simpa using h
        simp
      · split at h
        · simp only [bind_ok, pure_ok, Prod.exists, Prod.mk.injEq] at h
          obtain ⟨v, s', hv, vs', s'', hvs, rfl, _⟩ := h
          exact List.forall_mem_cons.mpr ⟨hscan hv, ih hvs⟩
        · cases h

theorem scanMember_snd {s rest : PyStr} {item : PyStr × Value} (h : scanMember scan s = .ok (item, rest)) :
    R item.2 := by
  simp only [scanMember, bind_ok, pure_ok, Prod.exists, Prod.mk.injEq] at h
  obtain ⟨key, s', _, v, s'', hv, rfl, _⟩ := h
  exact hscan hv

theorem scanMembers_forall {n : Nat} {s rest : PyStr} {items : Dict}
    (h : scanMembers scan n s = .ok (items, rest)) : ∀ item ∈ items, R item.2 := by
  induction n generalizing s rest items with
  | zero => cases h
  | succ n ih =>
    unfold scanMembers at h
    split at h
    · cases h
    · split at h
      · obtain ⟨rfl, _⟩ : [] = items ∧ _ = rest := by simpa using h
        simp
      · split at h
        · simp only [bind_ok, pure_ok, Prod.mk.injEq] at h
          obtain ⟨⟨item, s'⟩, hitem, ⟨items', s''⟩, hitems, rfl, _⟩ := h
          exact List.forall_mem_cons.mpr ⟨scanMember_snd hscan hitem, ih hitems⟩
        · cases h

end

section
variable {Q : Nat → Value → Prop} (hQ : ScanClosed P Q)
include hQ

theorem scanScalar_closed (n : Nat) {s rest : PyStr} {v : Value} (h : scanScalar P s = .ok (v, rest)) :
    Q n v := by
  unfold scanScalar at h
  split at h
  · rename_i word value hword
    obtain ⟨rfl, _⟩ := Prod.mk.inj (Except.ok.inj h)
    exact hQ.word n _ (List.mem_of_find?_eq_some hword)
  · have hnumeral := h
    unfold scanNumeral at h
    simp only at h
    split at h
    · cases h
    · split at h
      · rename_i whole _ _ _
        cases hint : intOfStr P ((splitMinus s).1 ++ whole) with
        | error e => simp [hint, Except.map] at h
        | ok k =>
          simp only [hint, Except.map, Except.ok.injEq, Prod.mk.injEq] at h
          rw [← h.1]
          exact hQ.int n hint
      · obtain ⟨rfl, _⟩ := Prod.mk.inj (Except.ok.inj h)
        exact hQ.float n hnumeral

theorem scanValue_closed {n : Nat} {inner : Option (PyStr → Scan Value)}
    (hinner : ∀ scan, inner = some scan → ∃ m, n = m + 1 ∧ ∀ {s rest v}, scan s = .ok (v, rest) → Q m v)
    {s rest : PyStr} {v : Value} (h : scanValue P inner s = .ok (v, rest)) : Q n v := by
  cases s with
  | nil => cases h
  | cons c s =>
    simp only [scanValue] at h
    split at h
    · cases hstr : scanString none s with
      | error e => simp [hstr, Except.map] at h
      | ok p =>
        simp only [hstr, Except.map, Except.ok.injEq, Prod.mk.injEq] at h
        rw [← h.1]
        exact hQ.str n p.1
    · split at h
      · split at h
        · cases h
        · obtain ⟨m, rfl, hscan⟩ := hinner _ rfl
          unfold scanList at h
          simp only at h
          split at h
          · obtain ⟨rfl, _⟩ := Prod.mk.inj (Except.ok.inj h)
            exact hQ.list (by simp)
          · simp only [bind_ok, pure_ok, Prod.exists, Prod.mk.injEq] at h
            obtain ⟨first, s', hfirst, vs, s'', hvs, rfl, _⟩ := h
            exact hQ.list (List.forall_mem_cons.mpr ⟨hscan hfirst, scanItems_forall hscan hvs⟩)
      · split at h
        · split at h
          · cases h
          · obtain ⟨m, rfl, hscan⟩ := hinner _ rfl
            unfold scanDict at h
            simp only at h
            split at h
            · obtain ⟨rfl, _⟩ := Prod.mk.inj (Except.ok.inj h)
              exact @ScanClosed.dict P Q hQ m [] (by simp [dictOf])
            · simp only [bind_ok, pure_ok, Prod.mk.injEq] at h
              obtain ⟨⟨item, s'⟩, hitem, ⟨items, s''⟩, hitems, rfl, _⟩ := h
              apply hQ.dict
              intro member hmember
              rcases List.mem_cons.mp (dictOf_mem hmember) with rfl | hmem
              · exact scanMember_snd hscan hitem
              · exact scanMembers_forall hscan hitems member hmem
        · exact scanScalar_closed hQ n h

/-- One level for each container around a value. -/
theorem scanOnce_closed (n : Nat) {s rest : PyStr} {v : Value} (h : scanOnce P n s = .ok (v, rest)) :
    Q n v := by
  induction n generalizing s rest v with
  | zero => exact scanValue_closed hQ (by simp) h
  | succ n ih =>
    refine scanValue_closed hQ ?_ h
    intro scan hscan
    obtain rfl := Option.some.inj hscan
    exact ⟨n, rfl, ih⟩

theorem loads_closed {s : PyStr} {v : Value} (h : loads P s = .ok v) : Q P.recursionLimit v := by
  unfold loads at h
  split at h
  · cases h
  · simp only [bind_ok, Prod.exists] at h
    obtain ⟨v', rest, hscan, h⟩ := h
    split at h
    · obtain rfl := pure_ok.mp h
      exact scanOnce_closed hQ _ hscan
    · cases h

end

theorem words_forall {R : Value → Prop} (none : R .none) (bool : ∀ b, R (.bool b))
    (float : ∀ bits ∈ [nan, infinity, negInfinity], R (.float bits)) : ∀ word ∈ words, R word.2 := by
  simp only [words, List.forall_mem_cons]
  exact ⟨none, bool true, bool false, float _ (by simp), float _ (by simp), float _ (by simp), by simp⟩

theorem printable_closed : ScanClosed P fun _ v => Printable v where
  word _ := words_forall trivial (fun _ => trivial) fun _ _ => trivial
  int _ _ _ h := intOfStr_printable h
  float _ _ _ _ _ := trivial
  str _ _ := trivial
  list h := (printableItems_iff _).mpr h
  dict h := (printableMembers_iff _).mpr h

theorem loads_printable {s : PyStr} {v : Value} (h : loads P s = .ok v) : Printable v :=
  loads_closed printable_closed h

end Json

theorem pyStr_defined {v : Value} (h : Json.Printable v) : ∃ text, pyStr P v = .ok text := by
  cases v with
  | int n => exact ⟨_, h⟩
  | bool b => cases b <;> exact ⟨_, rfl⟩
  | _ => exact ⟨_, rfl⟩

theorem getD_printable {d : Dict} (hprintable : Json.Printable (.dict d)) (key : PyStr) {v : Value}
    (hv : Json.Printable v) : Json.Printable (d.getD key v) := by
  unfold Dict.getD
  cases hfind : d.find? fun item => item.1 = key with
  | none => exact hv
  | some item =>
    exact (Json.printableMembers_iff d).mp hprintable item (List.mem_of_find?_eq_some hfind)

end Rdap.Python
