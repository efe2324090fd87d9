import Mathlib.Data.List.DropRight
import Rdap.Python.Codec

/-!
# Text in records and lines

What Python does with the output of a command: the bytes are decoded and their line ends
unified, blanks at both ends go, and the rest is cut at a character.
-/

set_option autoImplicit false

namespace Rdap.Python

/-! ## Decoded records -/

theorem decodeUtf8Loop_strict {n : Nat} {b : Bytes} {s : PyStr} (hn : b.length ≤ n)
    (h : decodeUtf8Loop .strict n b = .ok s) :
    ∃ cs : List Char, b = cs.flatMap String.utf8EncodeChar ∧ s = cs.map CodePoint.ofChar := by
  induction n generalizing b s with
  | zero =>
    obtain rfl := List.eq_nil_of_length_eq_zero (Nat.le_zero.mp hn)
    exact ⟨[], rfl, (Except.ok.inj h).symm⟩
  | succ n ih =>
    cases b with
    | nil => exact ⟨[], rfl, (Except.ok.inj h).symm⟩
    | cons byte rest =>
      rw [decodeUtf8Loop] at h
      split at h
      · rename_i c hc
        have hbytes : (byte :: rest) = String.utf8EncodeChar c ++ (byte :: rest).drop c.utf8Size := by
          obtain ⟨tail, htail⟩ := ByteArray.exists_of_utf8DecodeChar?_eq_some hc
          have hlist : byte :: rest = String.utf8EncodeChar c ++ tail.data.toList := by
            have := congrArg (fun a : ByteArray => a.data.toList) htail
            simpa using this
          have hdrop : (byte :: rest).drop c.utf8Size = tail.data.toList := by
            rw [hlist]
            exact List.drop_left' (String.length_utf8EncodeChar c)
          rw [hdrop, ← hlist]
        cases hrest : decodeUtf8Loop .strict n ((byte :: rest).drop c.utf8Size) with
        | error e => simp [hrest, Except.map] at h
        | ok s' =>
          simp only [hrest, Except.map, Except.ok.injEq] at h
          have hpos := c.utf8Size_pos
          obtain ⟨cs, hcs, hs'⟩ := ih (by simp only [List.length_drop, List.length_cons] at hn ⊢; omega)
            hrest
          refine ⟨c :: cs, ?_, ?_⟩
          · rw [List.flatMap_cons, ← hcs]
            exact hbytes
          · rw [← h, hs']
            rfl
      · simp at h

theorem charToNat_bounds (c : Char) : c.toNat < 0xD800 ∨ 0xDFFF < c.toNat ∧ c.toNat < 0x110000 :=
  c.valid

theorem CodePoint.ofChar_val (c : Char) : (CodePoint.ofChar c).val = c.toNat := by
  have := charToNat_bounds c
  exact Nat.mod_eq_of_lt (by omega)

/-- The strict decoder only takes what the encoder gives. -/
theorem decodeUtf8_ok {b : Bytes} {s : PyStr} (h : decodeUtf8 .strict b = .ok s) :
    encodeUtf8 s = .ok b := by
  obtain ⟨cs, rfl, rfl⟩ := decodeUtf8Loop_strict (Nat.le_refl _) h
  have hplain : (cs.map CodePoint.ofChar).any isSurrogate = false := by
    rw [List.any_eq_false]
    intro c hc
    obtain ⟨d, _, rfl⟩ := List.mem_map.mp hc
    have hbounds := charToNat_bounds d
    simp only [isSurrogate, CodePoint.ofChar_val, Bool.and_eq_true, decide_eq_true_eq]
    omega
  have hsame : ((cs.map CodePoint.ofChar).map fun c => Char.ofNat c.val) = cs := by
    rw [List.map_map]
    refine (List.map_congr_left fun c _ => ?_).trans (List.map_id cs)
    simp only [Function.comp, CodePoint.ofChar_val, Char.ofNat_toNat, id]
  unfold encodeUtf8
  rw [hplain, hsame]
  rfl

theorem encodeUtf8_append {s t : PyStr} {b : Bytes} : encodeUtf8 (s ++ t) = .ok b ↔
    ∃ bs bt, encodeUtf8 s = .ok bs ∧ encodeUtf8 t = .ok bt ∧ b = bs ++ bt := by
  unfold encodeUtf8
  rw [List.any_append]
  cases hs : s.any isSurrogate <;> cases ht : t.any isSurrogate <;>
    simp [List.flatMap_append, eq_comm]

/-- The bytes of one character. -/
theorem encodeUtf8_singleton {c : CodePoint} {b : Bytes} (h : encodeUtf8 [c] = .ok b) :
    (c.val < 128 ∧ b = [UInt8.ofNat c.val]) ∨ (128 ≤ c.val ∧ b ≠ [] ∧ ∀ x ∈ b, 128 ≤ x.toNat) := by
  obtain ⟨hs, rfl⟩ := encodeUtf8_ok h
  have hplain : isSurrogate c = false := by simpa using hs
  have hval : (Char.ofNat c.val).val.toNat = c.val := by
    rw [Char.ofNat, dif_pos (isValidChar_of_not_surrogate hplain)]
    rfl
  have hlt := c.isLt
  simp only [List.map_cons, List.map_nil, List.flatMap_cons, List.flatMap_nil, List.append_nil,
    String.utf8EncodeChar, hval]
  split
  · exact Or.inl ⟨by omega, rfl⟩
  · refine Or.inr ⟨by omega, ?_⟩
    split
    · simp only [ne_eq, reduceCtorEq, not_false_eq_true, List.mem_cons, List.not_mem_nil, or_false,
        forall_eq_or_imp, forall_eq, UInt8.toNat_ofNat', true_and]
      omega
    · split
      · simp only [ne_eq, reduceCtorEq, not_false_eq_true, List.mem_cons, List.not_mem_nil, or_false,
          forall_eq_or_imp, forall_eq, UInt8.toNat_ofNat', true_and]
        omega
      · simp only [ne_eq, reduceCtorEq, not_false_eq_true, List.mem_cons, List.not_mem_nil, or_false,
          forall_eq_or_imp, forall_eq, UInt8.toNat_ofNat', true_and]
        omega

/-- Bytes cut at the first zero are text cut at the first zero. -/
theorem encodeUtf8_split {s : PyStr} {p rest : Bytes} (h : encodeUtf8 s = .ok (p ++ 0 :: rest))
    (hp : (0 : UInt8) ∉ p) :
    ∃ s₁ s₂, s = s₁ ++ 0 :: s₂ ∧ (0 : CodePoint) ∉ s₁ ∧ encodeUtf8 s₁ = .ok p ∧
      encodeUtf8 s₂ = .ok rest := by
  induction s generalizing p with
  | nil =>
    have hnil := (encodeUtf8_ok h).2
    simp at hnil
  | cons c s ih =>
    obtain ⟨bc, bs, hc, hs, heq⟩ := encodeUtf8_append.mp (show encodeUtf8 ([c] ++ s) = _ from h)
    by_cases hzero : c = 0
    · subst hzero
      have hbc : bc = [0] := by
        rcases encodeUtf8_singleton hc with ⟨_, rfl⟩ | ⟨hlarge, _⟩
        · rfl
        · simp at hlarge
      subst hbc
      cases p with
      | nil => exact ⟨[], s, rfl, List.not_mem_nil, rfl, by simpa [hs] using heq.symm⟩
      | cons x p =>
        obtain ⟨rfl, _⟩ := List.cons.inj heq
        simp at hp
    · have hbc : (0 : UInt8) ∉ bc := by
        intro hmem
        rcases encodeUtf8_singleton hc with ⟨hsmall, rfl⟩ | ⟨_, _, hlarge⟩
        · have hval := congrArg UInt8.toNat (List.mem_singleton.mp hmem)
          apply hzero
          apply Fin.ext
          simp only [UInt8.toNat_ofNat'] at hval
          have h0 : UInt8.toNat 0 = 0 := rfl
          rw [h0] at hval
          show c.val = 0
          omega
        · have := hlarge 0 hmem
          simp at this
      have hfrom : ∀ {q : Bytes}, bs = q ++ 0 :: rest → p = bc ++ q → ∃ s₁ s₂,
          c :: s = s₁ ++ 0 :: s₂ ∧ (0 : CodePoint) ∉ s₁ ∧ encodeUtf8 s₁ = .ok p ∧
            encodeUtf8 s₂ = .ok rest := by
        intro q hq hpq
        obtain ⟨s₁, s₂, rfl, hclean, hs₁, hs₂⟩ := ih (hq ▸ hs) fun hmem =>
          hp (hpq ▸ List.mem_append_right _ hmem)
        refine ⟨c :: s₁, s₂, rfl, ?_, encodeUtf8_append.mpr ⟨bc, q, hc, hs₁, hpq⟩, hs₂⟩
        simpa using ⟨fun h => hzero h.symm, hclean⟩
      rcases List.append_eq_append_iff.mp heq with ⟨q, hbcq, hrest⟩ | ⟨q, hpq, hrest⟩
      · cases q with
        | nil =>
          refine hfrom (q := []) (by simpa using hrest.symm) ?_
          simpa using hbcq.symm
        | cons x q =>
          obtain ⟨rfl, _⟩ := List.cons.inj hrest
          exact absurd (by simp [hbcq]) hbc
      · exact hfrom hrest hpq

/-- Text in records, each with a NUL at its end. -/
def terminated {α : Type} (zero : α) (records : List (List α)) : List α :=
  records.flatMap (· ++ [zero])

theorem terminated_cons_append {α : Type} (zero : α) (t : List α) (records : List (List α))
    (rest : List α) :
    terminated zero (t :: records) ++ rest = t ++ zero :: (terminated zero records ++ rest) := by
  simp [terminated]

theorem terminated_cons {α : Type} (zero : α) (t : List α) (records : List (List α)) :
    terminated zero (t :: records) = t ++ zero :: terminated zero records := by
  simp [terminated]

/-- Decoding commutes with cutting into records. -/
theorem encodeUtf8_terminated {records : List Bytes} {s : PyStr}
    (h : encodeUtf8 s = .ok (terminated 0 records)) (hzero : ∀ p ∈ records, (0 : UInt8) ∉ p) :
    ∃ texts : List PyStr, s = terminated 0 texts ∧ (∀ t ∈ texts, (0 : CodePoint) ∉ t) ∧
      List.Forall₂ (fun p t => encodeUtf8 t = .ok p) records texts := by
  induction records generalizing s with
  | nil =>
    refine ⟨[], ?_, by simp, .nil⟩
    cases s with
    | nil => rfl
    | cons c s =>
      obtain ⟨bc, bs, hc, _, heq⟩ := encodeUtf8_append.mp (show encodeUtf8 ([c] ++ s) = _ from h)
      have hnil : bc = [] := (List.append_eq_nil_iff.mp heq.symm).1
      rcases encodeUtf8_singleton hc with ⟨_, hbc⟩ | ⟨_, hbc, _⟩
      · simp [hnil] at hbc
      · exact absurd hnil hbc
  | cons p records ih =>
    rw [terminated_cons] at h
    obtain ⟨s₁, s₂, rfl, hclean, hs₁, hs₂⟩ := encodeUtf8_split h (hzero p List.mem_cons_self)
    obtain ⟨texts, rfl, hrest, htexts⟩ := ih hs₂ fun q hq => hzero q (List.mem_cons_of_mem _ hq)
    refine ⟨s₁ :: texts, (terminated_cons _ _ _).symm, ?_, .cons hs₁ htexts⟩
    exact List.forall_mem_cons.mpr ⟨hclean, hrest⟩

/-! ## Line ends -/

/-- Universal newlines: `\r\n` and a lone `\r` become `\n`. -/
def translateNewlines : PyStr → PyStr
  | [] => []
  | c :: rest =>
    if c ≠ 13 then c :: translateNewlines rest
    else if rest.head? = some 10 then translateNewlines rest
    else 10 :: translateNewlines rest

/-- Text in which no line ends. -/
def Unbroken (w : PyStr) : Prop := ∀ c ∈ w, c ≠ 10 ∧ c ≠ 13

-- over the text, not over all code points
instance decidableUnbroken (w : PyStr) : Decidable (Unbroken w) :=
  List.decidableBAll (fun c => c ≠ 10 ∧ c ≠ 13) w

theorem translateNewlines_nil_iff {s : PyStr} : translateNewlines s = [] ↔ s = [] := by
  induction s with
  | nil => exact Iff.rfl
  | cons c rest ih =>
    unfold translateNewlines
    split
    · simp
    · split
      · rename_i hhead
        rw [ih]
        constructor
        · rintro rfl
          simp at hhead
        · intro h
          cases h
      · simp

theorem translateNewlines_append (s t : PyStr) : translateNewlines (s ++ 0 :: t) =
    translateNewlines s ++ 0 :: translateNewlines t := by
  induction s with
  | nil =>
    have hzero : (0 : CodePoint) ≠ 13 := by decide
    simp [translateNewlines, hzero]
  | cons c rest ih =>
    have hhead : (rest ++ 0 :: t).head? = some 10 ↔ rest.head? = some 10 := by
      cases rest with
      | nil => simp [CodePoint]
      | cons d rest => simp
    simp only [List.cons_append, translateNewlines, hhead, ih]
    split
    · rfl
    · split <;> rfl

theorem translateNewlines_terminated (texts : List PyStr) :
    translateNewlines (terminated 0 texts) = terminated 0 (texts.map translateNewlines) := by
  induction texts with
  | nil => rfl
  | cons t texts ih =>
    rw [terminated_cons, translateNewlines_append, ih, List.map_cons, terminated_cons]

theorem translateNewlines_startsWith {w : PyStr} (hw : Unbroken w) (s : PyStr) :
    w <+: translateNewlines s ↔ w <+: s := by
  induction w generalizing s with
  | nil => simp
  | cons a w ih =>
    have ha := hw a List.mem_cons_self
    have hrest : Unbroken w := fun c hc => hw c (List.mem_cons_of_mem _ hc)
    induction s with
    | nil => simp [translateNewlines]
    | cons c rest ihs =>
      unfold translateNewlines
      split
      · rw [List.cons_prefix_cons, List.cons_prefix_cons, ih hrest]
      · rename_i hc
        have hne : ¬ (a :: w <+: c :: rest) := by
          rw [List.cons_prefix_cons]
          rintro ⟨rfl, _⟩
          exact hc ha.2
        split
        · rename_i hhead
          refine iff_of_false (fun h => ?_) hne
          have hnext := ihs.mp h
          cases rest with
          | nil => simp at hnext
          | cons d rest =>
            rw [List.cons_prefix_cons] at hnext
            exact ha.1 (hnext.1.trans (by simpa using hhead))
        · refine iff_of_false ?_ hne
          rw [List.cons_prefix_cons]
          rintro ⟨rfl, _⟩
          exact ha.1 rfl

theorem translateNewlines_of_unbroken {s : PyStr} (hs : Unbroken s) : translateNewlines s = s := by
  induction s with
  | nil => rfl
  | cons c rest ih =>
    rw [translateNewlines, if_pos (hs c List.mem_cons_self).2,
      ih fun d hd => hs d (List.mem_cons_of_mem _ hd)]

/-- Where no line ends nothing was translated. -/
theorem unbroken_of_translateNewlines {s : PyStr} (hs : Unbroken (translateNewlines s)) :
    Unbroken s := by
  induction s with
  | nil => exact hs
  | cons c rest ih =>
    unfold translateNewlines at hs
    split at hs
    · rename_i hc
      have hrest := ih fun d hd => hs d (List.mem_cons_of_mem _ hd)
      intro d hd
      rcases List.mem_cons.mp hd with rfl | hd
      · exact hs _ List.mem_cons_self
      · exact hrest d hd
    · exfalso
      split at hs
      · rename_i hhead
        have hrest := ih hs
        exact (hrest 10 (List.mem_of_mem_head? hhead)).1 rfl
      · exact (hs 10 List.mem_cons_self).1 rfl

theorem translateNewlines_eq {s w : PyStr} (hw : Unbroken w) : translateNewlines s = w ↔ s = w := by
  constructor
  · rintro rfl
    exact (translateNewlines_of_unbroken (unbroken_of_translateNewlines hw)).symm
  · rintro rfl
    exact translateNewlines_of_unbroken hw

theorem translateNewlines_mem {s : PyStr} {c : CodePoint} (hc : c ≠ 10) :
    c ∈ translateNewlines s ↔ c ∈ s ∧ c ≠ 13 := by
  induction s with
  | nil => simp [translateNewlines]
  | cons d rest ih =>
    unfold translateNewlines
    split
    · rename_i hd
      rw [List.mem_cons, List.mem_cons, ih]
      constructor
      · rintro (rfl | ⟨hmem, hne⟩)
        · exact ⟨Or.inl rfl, hd⟩
        · exact ⟨Or.inr hmem, hne⟩
      · rintro ⟨rfl | hmem, hne⟩
        · exact Or.inl rfl
        · exact Or.inr ⟨hmem, hne⟩
    · rename_i hd
      obtain rfl : d = 13 := not_not.mp hd
      have hiff : c ∈ translateNewlines rest ↔ c ∈ 13 :: rest ∧ c ≠ 13 := by
        rw [ih, List.mem_cons]
        constructor
        · rintro ⟨hmem, hne⟩
          exact ⟨Or.inr hmem, hne⟩
        · rintro ⟨rfl | hmem, hne⟩
          · exact absurd rfl hne
          · exact ⟨hmem, hne⟩
      split
      · exact hiff
      · rw [List.mem_cons, hiff]
        exact ⟨fun h => h.resolve_left hc, Or.inr⟩

/-- A substitution that is not about line ends. -/
theorem translateNewlines_map {f : CodePoint → CodePoint} (hlf : ∀ c, f c = 10 ↔ c = 10)
    (hcr : ∀ c, f c = 13 ↔ c = 13) (s : PyStr) :
    translateNewlines (s.map f) = (translateNewlines s).map f := by
  induction s with
  | nil => rfl
  | cons c rest ih =>
    have hhead : (rest.map f).head? = some 10 ↔ rest.head? = some 10 := by
      cases rest with
      | nil => simp
      | cons d rest => simp [hlf]
    simp only [List.map_cons, translateNewlines, ne_eq, hcr, hhead, ih]
    split
    · rfl
    · split
      · rfl
      · rw [List.map_cons, (hlf 10).mpr rfl]

/-! ## Blanks at the ends -/

theorem strip_eq (s : PyStr) : strip s = (s.dropWhile isSpace).rdropWhile isSpace := rfl

theorem rdropWhile_append_cons {α : Type} {p : α → Bool} {a : α} (ha : p a = false)
    (s t : List α) : (s ++ a :: t).rdropWhile p = s ++ a :: t.rdropWhile p := by
  induction t using List.reverseRecOn with
  | nil =>
    have hlast : ¬ p a = true := by simp [ha]
    rw [List.rdropWhile_nil, List.rdropWhile_concat_neg _ _ _ hlast]
  | append_singleton t b ih =>
    by_cases hb : p b = true
    · have hassoc : s ++ a :: (t ++ [b]) = (s ++ a :: t) ++ [b] := by simp
      rw [hassoc, List.rdropWhile_concat_pos _ _ _ hb, ih, List.rdropWhile_concat_pos _ _ _ hb]
    · have hassoc : s ++ a :: (t ++ [b]) = (s ++ a :: t) ++ [b] := by simp
      rw [hassoc, List.rdropWhile_concat_neg _ _ _ hb, List.rdropWhile_concat_neg _ _ _ hb, ← hassoc]

theorem isSpace_zero : isSpace 0 = false := by decide

/-- Stripping only touches the first record and what follows the last. -/
theorem strip_terminated (t : PyStr) (texts : List PyStr) (rest : PyStr) :
    strip (terminated 0 (t :: texts) ++ rest) =
      terminated 0 (t.dropWhile isSpace :: texts) ++ rest.rdropWhile isSpace := by
  have hleft : ∀ s : PyStr, (t ++ 0 :: s).dropWhile isSpace = t.dropWhile isSpace ++ 0 :: s := by
    intro s
    induction t with
    | nil => simp [isSpace_zero]
    | cons c t ih =>
      rw [List.cons_append, List.dropWhile_cons, List.dropWhile_cons]
      split
      · exact ih
      · rfl
  have hright : ∀ texts : List PyStr, (terminated 0 texts ++ rest).rdropWhile isSpace =
      terminated 0 texts ++ rest.rdropWhile isSpace := by
    intro texts
    induction texts with
    | nil => rfl
    | cons u texts ih =>
      rw [terminated_cons_append, rdropWhile_append_cons isSpace_zero, ih, terminated_cons_append]
  rw [strip_eq, terminated_cons_append, hleft, rdropWhile_append_cons isSpace_zero, hright,
    terminated_cons_append]

theorem splitOn_terminated (texts : List PyStr) (h : ∀ t ∈ texts, (0 : CodePoint) ∉ t) (rest : PyStr) :
    (terminated 0 texts ++ rest).splitOn 0 = texts ++ rest.splitOn 0 := by
  induction texts with
  | nil => rfl
  | cons t texts ih =>
    rw [terminated_cons_append, List.splitOn_append_cons_self_of_not_mem (h t List.mem_cons_self),
      ih fun u hu => h u (List.mem_cons_of_mem _ hu)]
    rfl

/-! ## Lines and words -/

def isLineBreak (c : CodePoint) : Bool :=
  (10 ≤ c.val && c.val ≤ 12) || (28 ≤ c.val && c.val ≤ 30) || c.val == 0x85 || c.val == 0x2028 ||
    c.val == 0x2029

/-- `str.splitlines` -/
def splitLines (s : PyStr) : List PyStr :=
  let pieces := (translateNewlines s).splitOnP isLineBreak
  if pieces.getLast? = some [] then pieces.dropLast else pieces

/-- `str.split` without an argument. -/
def splitWords (s : PyStr) : List PyStr := (s.splitOnP isSpace).filter (· ≠ [])

/-- `str.partition` at a character: the text before it, whether it was found, the text after. -/
def partition (c : CodePoint) (s : PyStr) : PyStr × Bool × PyStr :=
  (s.takeWhile (· ≠ c), decide (c ∈ s), (s.dropWhile (· ≠ c)).drop 1)

/-- Visible ASCII text, such as a number or a keyword in the output of a command. -/
structure Token where
  text : PyStr
  nonempty : text ≠ []
  visible : ∀ c ∈ text, 33 ≤ c.val ∧ c.val < 127
  deriving DecidableEq

namespace Token
variable (a : Token)

theorem not_space {c : CodePoint} (hc : c ∈ a.text) : isSpace c = false := by
  have := a.visible c hc
  simp only [isSpace, isAsciiSpace, Bool.or_eq_false_iff, Bool.and_eq_false_iff,
    decide_eq_false_iff_not, beq_eq_false_iff_ne]
  omega

theorem not_lineBreak {c : CodePoint} (hc : c ∈ a.text) : isLineBreak c = false := by
  have := a.visible c hc
  simp only [isLineBreak, Bool.or_eq_false_iff, Bool.and_eq_false_iff,
    decide_eq_false_iff_not, beq_eq_false_iff_ne]
  omega

theorem unbroken : Unbroken a.text := by
  intro c hc
  have := a.visible c hc
  constructor <;> rintro rfl <;> simp at this

theorem ascii : a.text.all isAscii = true := by
  rw [List.all_eq_true]
  intro c hc
  have := a.visible c hc
  simp only [isAscii, decide_eq_true_eq]
  omega

end Token

theorem translateNewlines_unbroken_append {w : PyStr} (hw : Unbroken w) (s : PyStr) :
    translateNewlines (w ++ s) = w ++ translateNewlines s := by
  induction w with
  | nil => rfl
  | cons c w ih =>
    rw [List.cons_append, translateNewlines, if_pos (hw c List.mem_cons_self).2,
      ih fun d hd => hw d (List.mem_cons_of_mem _ hd)]
    rfl

theorem splitLines_cons (a : Token) (s : PyStr) : splitLines (a.text ++ 10 :: s) =
    a.text :: splitLines s := by
  have hlf : translateNewlines (10 :: s) = 10 :: translateNewlines s := by
    rw [translateNewlines, if_pos (by decide)]
  have hpieces : (translateNewlines (a.text ++ 10 :: s)).splitOnP isLineBreak =
      a.text :: (translateNewlines s).splitOnP isLineBreak := by
    rw [translateNewlines_unbroken_append a.unbroken, hlf]
    exact List.splitOnP_append_cons_of_forall_mem (fun _ hc => a.not_lineBreak hc) 10 (by decide) _
  unfold splitLines
  rw [hpieces]
  obtain ⟨piece, pieces, hne⟩ := List.exists_cons_of_ne_nil
    (List.splitOnP_ne_nil isLineBreak (translateNewlines s))
  dsimp only
  rw [hne, List.getLast?_cons_cons]
  split <;> rfl

theorem splitLines_single (a : Token) : splitLines a.text = [a.text] := by
  unfold splitLines
  rw [translateNewlines_of_unbroken a.unbroken,
    List.splitOnP_eq_singleton fun _ hc => a.not_lineBreak hc]
  have hne : ¬ [a.text].getLast? = some [] := by simpa using a.nonempty
  rw [if_neg hne]

theorem rdropWhile_append {α : Type} {p : α → Bool} (s t : List α) :
    (s ++ t).rdropWhile p = if t.rdropWhile p = [] then s.rdropWhile p else s ++ t.rdropWhile p := by
  unfold List.rdropWhile
  rw [List.reverse_append, List.dropWhile_append]
  cases h : t.reverse.dropWhile p with
  | nil => simp
  | cons c rest => simp

theorem mem_splitLines_rstrip {lines : List Token} {rest : PyStr} {a : Token} (ha : a ∈ lines) :
    a.text ∈ splitLines ((terminated 10 (lines.map Token.text) ++ rest).rdropWhile isSpace) := by
  induction lines with
  | nil => cases ha
  | cons b lines ih =>
    have hb : b.text.rdropWhile isSpace = b.text :=
      List.rdropWhile_eq_self_iff.mpr fun hl => by simp [b.not_space (List.getLast_mem hl)]
    have hlf : (10 : CodePoint) :: (terminated 10 (lines.map Token.text) ++ rest) =
        [10] ++ (terminated 10 (lines.map Token.text) ++ rest) := rfl
    have hblank : ([10] : PyStr).rdropWhile isSpace = [] := by decide
    rw [List.map_cons, terminated_cons_append, hlf, rdropWhile_append, rdropWhile_append [10], hblank]
    by_cases hrest : (terminated 10 (lines.map Token.text) ++ rest).rdropWhile isSpace = []
    · rw [if_pos hrest, if_pos rfl, hb, splitLines_single]
      rcases List.mem_cons.mp ha with rfl | ha
      · exact List.mem_cons_self
      · have hnone := ih ha
        rw [hrest] at hnone
        cases hnone
    · rw [if_neg hrest, if_neg (by simp)]
      show a.text ∈ splitLines (b.text ++ 10 :: _)
      rw [splitLines_cons]
      rcases List.mem_cons.mp ha with rfl | ha
      · exact List.mem_cons_self
      · exact List.mem_cons_of_mem _ (ih ha)

/-- The lines of a command are among those of what is left of its output. -/
theorem mem_splitLines {lines : List Token} {rest : PyStr} {a : Token} (ha : a ∈ lines) :
    a.text ∈ splitLines (strip (terminated 10 (lines.map Token.text) ++ rest)) := by
  have hleft : (terminated 10 (lines.map Token.text) ++ rest).dropWhile isSpace =
      terminated 10 (lines.map Token.text) ++ rest := by
    cases lines with
    | nil => cases ha
    | cons b lines =>
      obtain ⟨c, t, hb⟩ := List.exists_cons_of_ne_nil b.nonempty
      have hc : isSpace c = false := b.not_space (by simp [hb])
      rw [List.map_cons, terminated_cons_append, hb, List.cons_append, List.dropWhile_cons, hc]
      rfl
  rw [strip_eq, hleft]
  exact mem_splitLines_rstrip ha

/-- The words of a line of tokens. -/
theorem splitWords_three (a b c : Token) :
    splitWords (a.text ++ 32 :: (b.text ++ 32 :: c.text)) = [a.text, b.text, c.text] := by
  unfold splitWords
  rw [List.splitOnP_append_cons_of_forall_mem (fun _ h => a.not_space h) 32 (by decide),
    List.splitOnP_append_cons_of_forall_mem (fun _ h => b.not_space h) 32 (by decide),
    List.splitOnP_eq_singleton fun _ h => c.not_space h]
  simp [a.nonempty, b.nonempty, c.nonempty]

theorem partition_at {c : CodePoint} {s t : PyStr} (hs : c ∉ s) :
    partition c (s ++ c :: t) = (s, true, t) := by
  have hkeep : ∀ d ∈ s, decide (d ≠ c) = true := fun d hd =>
    decide_eq_true fun h => hs (h ▸ hd)
  unfold partition
  rw [List.takeWhile_append_of_pos hkeep, List.dropWhile_append_of_pos hkeep]
  simp

end Rdap.Python
