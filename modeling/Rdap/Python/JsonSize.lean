import Rdap.Python.Json
import Rdap.Python.Truncation

/-!
# The size of JSON text

How many bytes `json.dumps` writes for a value: a character of a string counts what its escape does, and
the layout adds the same for every value of one shape.
-/

set_option autoImplicit false

namespace Rdap.Python

/-- Text that has an encoding, and its length. -/
structure HasBytes (s : PyStr) (n : Nat) : Prop where
  clean : s.any isSurrogate = false
  length : utf8Len s = n

theorem HasBytes.encode {s : PyStr} {n : Nat} (h : HasBytes s n) : ∃ b, encodeUtf8 s = .ok b ∧ b.length = n := by
  obtain ⟨b, hb, hlength⟩ := encodeUtf8_defined h.clean
  exact ⟨b, hb, hlength.trans h.length⟩

theorem HasBytes.append {s t : PyStr} {m n : Nat} (hs : HasBytes s m) (ht : HasBytes t n) :
    HasBytes (s ++ t) (m + n) := by
  refine ⟨?_, ?_⟩
  · rw [List.any_append, hs.clean, ht.clean]
    rfl
  · rw [utf8Len_append, hs.length, ht.length]

theorem HasBytes.cast {s : PyStr} {m n : Nat} (h : HasBytes s m) (heq : m = n) : HasBytes s n := heq ▸ h

theorem hasBytes_nil : HasBytes [] 0 := ⟨rfl, rfl⟩

theorem hasBytes_char {c : CodePoint} (h : isSurrogate c = false) : HasBytes [c] (charBytes c) := by
  refine ⟨?_, ?_⟩
  · rw [List.any_cons, h]
    rfl
  · rw [utf8Len_cons]
    rfl

theorem HasBytes.cons {c : CodePoint} {s : PyStr} {n : Nat} (hc : isSurrogate c = false) (hs : HasBytes s n) :
    HasBytes (c :: s) (charBytes c + n) :=
  (hasBytes_char hc).append hs

theorem charBytes_ascii {c : CodePoint} (h : isAscii c = true) : charBytes c = 1 := by
  have hlt : c.val < 128 := of_decide_eq_true h
  rw [charBytes, Char.utf8Size_eq_one_iff, Char.ofNat, dif_pos (by unfold Nat.isValidChar; omega)]
  apply UInt32.le_iff_toNat_le.mpr
  have hle : c.val ≤ 127 := by omega
  exact hle

theorem isSurrogate_ascii {c : CodePoint} (h : isAscii c = true) : isSurrogate c = false := by
  have hlt : c.val < 128 := of_decide_eq_true h
  simp only [isSurrogate, Bool.and_eq_false_iff, decide_eq_false_iff_not]
  omega

theorem hasBytes_ascii {s : PyStr} (h : s.all isAscii = true) : HasBytes s s.length := by
  induction s with
  | nil => exact hasBytes_nil
  | cons c s ih =>
    obtain ⟨hc, hs⟩ := Bool.and_eq_true_iff.mp h
    have hcons := HasBytes.cons (isSurrogate_ascii hc) (ih hs)
    rwa [charBytes_ascii hc, Nat.add_comm] at hcons

namespace Json

/-- What a character takes in a string literal. -/
def escapedBytes (c : CodePoint) : Nat :=
  if c.val = 34 ∨ c.val = 92 ∨ c.val = 8 ∨ c.val = 9 ∨ c.val = 10 ∨ c.val = 12 ∨ c.val = 13 then 2
  else if c.val < 32 then 6
  else charBytes c

def stringBytes (s : PyStr) : Nat := (s.map escapedBytes).sum + 2

variable {P : Platform}

mutual

def jsonBytes (layout : Layout) (depth : Nat) : Value → Nat
  | .none | .bool true => 4
  | .bool false => 5
  | .int n => (intDecimal n).length
  | .float _ => 0
  | .str s => stringBytes s
  | .list [] | .dict [] => 2
  | .list (v :: vs) =>
    2 + (layout.lineBreak (depth + 1)).length + jsonBytes layout (depth + 1) v +
      jsonBytesItems layout (depth + 1) vs + (layout.lineBreak depth).length
  | .dict ((key, v) :: items) =>
    3 + (layout.lineBreak (depth + 1)).length + stringBytes key + layout.gap.length +
      jsonBytes layout (depth + 1) v + jsonBytesMembers layout (depth + 1) items +
      (layout.lineBreak depth).length

def jsonBytesItems (layout : Layout) (depth : Nat) : List Value → Nat
  | [] => 0
  | v :: vs => 1 + (layout.lineBreak depth).length + jsonBytes layout depth v + jsonBytesItems layout depth vs

def jsonBytesMembers (layout : Layout) (depth : Nat) : List (PyStr × Value) → Nat
  | [] => 0
  | (key, v) :: items =>
    2 + (layout.lineBreak depth).length + stringBytes key + layout.gap.length + jsonBytes layout depth v +
      jsonBytesMembers layout depth items

end

mutual

/-- Strings without surrogates, integers that are not too long, and no floats. -/
def Writable : Value → Prop
  | .none | .bool _ => True
  | .int n => strInt n = .ok (intDecimal n)
  | .float _ => False
  | .str s => s.any isSurrogate = false
  | .list items => WritableItems items
  | .dict items => WritableMembers items

def WritableItems : List Value → Prop
  | [] => True
  | v :: vs => Writable v ∧ WritableItems vs

def WritableMembers : List (PyStr × Value) → Prop
  | [] => True
  | (key, v) :: items => key.any isSurrogate = false ∧ Writable v ∧ WritableMembers items

end

theorem escapeChar_bytes {c : CodePoint} (h : isSurrogate c = false) :
    HasBytes (escapeChar c) (escapedBytes c) := by
  have hshort : (c.val = 34 ∨ c.val = 92 ∨ c.val = 8 ∨ c.val = 9 ∨ c.val = 10 ∨ c.val = 12 ∨ c.val = 13) →
      escapedBytes c = 2 := fun hc => if_pos hc
  have hpair : ∀ d : CodePoint, isAscii d = true → HasBytes [backslash, d] 2 := by
    intro d hd
    apply hasBytes_ascii
    rw [List.all_cons, List.all_cons, hd]
    rfl
  unfold escapeChar
  split_ifs with h34 h92 h8 h9 h10 h12 h13 hcontrol
  · rw [hshort (by omega)]
    exact hpair 34 rfl
  · rw [hshort (by omega)]
    exact hpair 92 rfl
  · rw [hshort (by omega)]
    exact hpair 98 rfl
  · rw [hshort (by omega)]
    exact hpair 116 rfl
  · rw [hshort (by omega)]
    exact hpair 110 rfl
  · rw [hshort (by omega)]
    exact hpair 102 rfl
  · rw [hshort (by omega)]
    exact hpair 114 rfl
  · have hhex : ∀ d, d < 16 → isAscii (hexChar d) = true := by decide
    have hsix : escapedBytes c = 6 := by
      rw [escapedBytes, if_neg (by omega), if_pos hcontrol]
    rw [hsix]
    apply hasBytes_ascii (s := [backslash, 117, 48, 48, hexChar (c.val / 16), hexChar (c.val % 16)])
    simp only [List.all_cons, List.all_nil, hhex (c.val / 16) (by omega), hhex (c.val % 16) (by omega)]
    rfl
  · rw [escapedBytes, if_neg (by omega), if_neg hcontrol]
    exact hasBytes_char h

theorem encodeString_bytes {s : PyStr} (h : s.any isSurrogate = false) :
    HasBytes (encodeString s) (stringBytes s) := by
  have hbody : HasBytes (s.flatMap escapeChar) (s.map escapedBytes).sum := by
    induction s with
    | nil => exact hasBytes_nil
    | cons c s ih =>
      rw [List.any_cons, Bool.or_eq_false_iff] at h
      exact (escapeChar_bytes h.1).append (ih h.2)
  have hquote : HasBytes [quote] 1 := hasBytes_ascii rfl
  have hquoted := (hquote.append hbody).append hquote
  have hsum : 1 + (s.map escapedBytes).sum + 1 = stringBytes s := by
    unfold stringBytes
    omega
  rwa [hsum] at hquoted

theorem space_bytes {s : PyStr} (h : s.all isJsonSpace = true) : HasBytes s s.length := by
  apply hasBytes_ascii
  rw [List.all_eq_true] at h ⊢
  intro c hc
  have hspace := h c hc
  simp only [isJsonSpace, Bool.or_eq_true, decide_eq_true_eq] at hspace
  exact decide_eq_true (by omega)

theorem lineBreak_bytes (layout : Layout) (depth : Nat) :
    HasBytes (layout.lineBreak depth) (layout.lineBreak depth).length :=
  space_bytes (layout.lineBreak_space depth)

theorem gap_bytes (layout : Layout) : HasBytes layout.gap layout.gap.length := space_bytes layout.gap_space

theorem intDecimal_bytes (n : Int) : HasBytes (intDecimal n) (intDecimal n).length := by
  apply hasBytes_ascii
  have hminus : isAscii 45 = true := by decide
  unfold intDecimal
  split
  · rw [List.all_cons, hminus, natDecimal_ascii]
    rfl
  · exact natDecimal_ascii _

mutual

/-- What can be written is written in just that many bytes. -/
theorem encodeValue_bytes (layout : Layout) : (v : Value) → ∀ (depth : Nat), Writable v →
    ∃ text, encodeValue P layout depth v = .ok text ∧ HasBytes text (jsonBytes layout depth v)
  | .none, _, _ => ⟨_, rfl, hasBytes_ascii rfl⟩
  | .bool true, _, _ => ⟨_, rfl, hasBytes_ascii rfl⟩
  | .bool false, _, _ => ⟨_, rfl, hasBytes_ascii rfl⟩
  | .int n, _, h => ⟨_, h, intDecimal_bytes n⟩
  | .float _, _, h => h.elim
  | .str s, _, h => ⟨_, rfl, encodeString_bytes h⟩
  | .list [], _, _ => ⟨_, rfl, hasBytes_ascii rfl⟩
  | .dict [], _, _ => ⟨_, rfl, hasBytes_ascii rfl⟩
  | .list (v :: vs), depth, h => by
    obtain ⟨first, hfirst, hbytes⟩ := encodeValue_bytes layout v (depth + 1) h.1
    obtain ⟨others, hothers, hrest⟩ := encodeItems_bytes layout vs (depth + 1) h.2
    refine ⟨_, by rw [encodeValue, hfirst, hothers]; rfl, ?_⟩
    have hopen : HasBytes [openList] 1 := hasBytes_ascii rfl
    have hclose : HasBytes [closeList] 1 := hasBytes_ascii rfl
    refine HasBytes.cast (((((hopen.append (lineBreak_bytes layout (depth + 1))).append hbytes).append
      hrest).append (lineBreak_bytes layout depth)).append hclose) ?_
    rw [jsonBytes]
    omega
  | .dict ((key, v) :: items), depth, h => by
    obtain ⟨first, hfirst, hbytes⟩ := encodeValue_bytes layout v (depth + 1) h.2.1
    obtain ⟨others, hothers, hrest⟩ := encodeMembers_bytes layout items (depth + 1) h.2.2
    refine ⟨_, by rw [encodeValue, hfirst, hothers]; rfl, ?_⟩
    have hopen : HasBytes [openDict] 1 := hasBytes_ascii rfl
    have hclose : HasBytes [closeDict] 1 := hasBytes_ascii rfl
    have hcolon : HasBytes [colon] 1 := hasBytes_ascii rfl
    have hkey := (hopen.append (lineBreak_bytes layout (depth + 1))).append (encodeString_bytes h.1)
    have hmember := ((hkey.append (hcolon.append (gap_bytes layout))).append hbytes).append hrest
    refine HasBytes.cast ((hmember.append (lineBreak_bytes layout depth)).append hclose) ?_
    rw [jsonBytes]
    omega

theorem encodeItems_bytes (layout : Layout) : (vs : List Value) → ∀ (depth : Nat), WritableItems vs →
    ∃ text, encodeItems P layout depth vs = .ok text ∧ HasBytes text (jsonBytesItems layout depth vs)
  | [], _, _ => ⟨_, rfl, hasBytes_nil⟩
  | v :: vs, depth, h => by
    obtain ⟨item, hitem, hbytes⟩ := encodeValue_bytes layout v depth h.1
    obtain ⟨others, hothers, hrest⟩ := encodeItems_bytes layout vs depth h.2
    refine ⟨_, by rw [encodeItems, hitem, hothers]; rfl, ?_⟩
    have hcomma : HasBytes [comma] 1 := hasBytes_ascii rfl
    refine HasBytes.cast (((hcomma.append (lineBreak_bytes layout depth)).append hbytes).append hrest) ?_
    rw [jsonBytesItems]

theorem encodeMembers_bytes (layout : Layout) : (items : List (PyStr × Value)) → ∀ (depth : Nat),
    WritableMembers items → ∃ text, encodeMembers P layout depth items = .ok text ∧
      HasBytes text (jsonBytesMembers layout depth items)
  | [], _, _ => ⟨_, rfl, hasBytes_nil⟩
  | (key, v) :: items, depth, h => by
    obtain ⟨item, hitem, hbytes⟩ := encodeValue_bytes layout v depth h.2.1
    obtain ⟨others, hothers, hrest⟩ := encodeMembers_bytes layout items depth h.2.2
    refine ⟨_, by rw [encodeMembers, hitem, hothers]; rfl, ?_⟩
    have hcomma : HasBytes [comma] 1 := hasBytes_ascii rfl
    have hcolon : HasBytes [colon] 1 := hasBytes_ascii rfl
    have hkey := (hcomma.append (lineBreak_bytes layout depth)).append (encodeString_bytes h.1)
    refine HasBytes.cast (((hkey.append (hcolon.append (gap_bytes layout))).append hbytes).append hrest) ?_
    rw [jsonBytesMembers]
    omega

end

theorem dumps_bytes (layout : Layout) {v : Value} (h : Writable v) (hdepth : depth v ≤ P.recursionLimit) :
    ∃ text, dumps P layout v = .ok text ∧ HasBytes text (jsonBytes layout 0 v) := by
  rw [dumps, if_neg (Nat.not_lt.mpr hdepth)]
  exact encodeValue_bytes layout v 0 h

mutual

/-- No layout is shorter than the compact one. -/
theorem jsonBytes_compact (layout : Layout) : (v : Value) → ∀ (level depth : Nat),
    jsonBytes compact level v ≤ jsonBytes layout depth v
  | .none, _, _ | .bool true, _, _ | .bool false, _, _ | .int _, _, _ | .float _, _, _ | .str _, _, _
  | .list [], _, _ | .dict [], _, _ => Nat.le_refl _
  | .list (v :: vs), level, depth => by
    have hfirst := jsonBytes_compact layout v (level + 1) (depth + 1)
    have hrest := jsonBytesItems_compact layout vs (level + 1) (depth + 1)
    simp only [jsonBytes, compact, List.length_nil] at hfirst hrest ⊢
    omega
  | .dict ((key, v) :: items), level, depth => by
    have hfirst := jsonBytes_compact layout v (level + 1) (depth + 1)
    have hrest := jsonBytesMembers_compact layout items (level + 1) (depth + 1)
    simp only [jsonBytes, compact, List.length_nil] at hfirst hrest ⊢
    omega

theorem jsonBytesItems_compact (layout : Layout) : (vs : List Value) → ∀ (level depth : Nat),
    jsonBytesItems compact level vs ≤ jsonBytesItems layout depth vs
  | [], _, _ => Nat.le_refl _
  | v :: vs, level, depth => by
    have hfirst := jsonBytes_compact layout v level depth
    have hrest := jsonBytesItems_compact layout vs level depth
    simp only [jsonBytesItems, compact, List.length_nil] at hfirst hrest ⊢
    omega

theorem jsonBytesMembers_compact (layout : Layout) : (items : List (PyStr × Value)) → ∀ (level depth : Nat),
    jsonBytesMembers compact level items ≤ jsonBytesMembers layout depth items
  | [], _, _ => Nat.le_refl _
  | (key, v) :: items, level, depth => by
    have hfirst := jsonBytes_compact layout v level depth
    have hrest := jsonBytesMembers_compact layout items level depth
    simp only [jsonBytesMembers, compact, List.length_nil] at hfirst hrest ⊢
    omega

end

/-! ## Characters that JSON writes as they are -/

/-- Printable ASCII but the quote and the backslash. -/
def isVerbatim (c : CodePoint) : Bool := 32 ≤ c.val && c.val < 127 && c.val ≠ 34 && c.val ≠ 92

theorem escapedBytes_verbatim {c : CodePoint} (h : isVerbatim c = true) : escapedBytes c = 1 := by
  simp only [isVerbatim, Bool.and_eq_true, decide_eq_true_eq] at h
  rw [escapedBytes, if_neg (by omega), if_neg (by omega)]
  exact charBytes_ascii (decide_eq_true (by omega))

theorem ascii_of_verbatim {s : PyStr} (h : s.all isVerbatim = true) : s.all isAscii = true := by
  rw [List.all_eq_true] at h ⊢
  intro c hc
  have hverbatim := h c hc
  simp only [isVerbatim, Bool.and_eq_true, decide_eq_true_eq] at hverbatim
  exact decide_eq_true (by omega)

theorem b64encode_verbatim (b : Bytes) : (b64encode b).all isVerbatim = true := by
  have hchar : ∀ v : Fin 64, isVerbatim (b64Char v) = true := by decide
  have hat : ∀ {v : Nat}, v < 64 → isVerbatim (b64Char v) = true := fun {v} hv => hchar ⟨v, hv⟩
  have hpad : isVerbatim b64Pad = true := by decide
  fun_induction b64encode b with
  | case1 => rfl
  | case2 x =>
    have hx := x.toNat_lt
    simp only [List.all_cons, hat (v := x.toNat / 4) (by omega), hat (v := x.toNat % 4 * 16) (by omega), hpad,
      List.all_nil, Bool.and_self]
  | case3 x y =>
    have hx := x.toNat_lt
    have hy := y.toNat_lt
    simp only [List.all_cons, hat (v := x.toNat / 4) (by omega),
      hat (v := x.toNat % 4 * 16 + y.toNat / 16) (by omega), hat (v := y.toNat % 16 * 4) (by omega), hpad,
      List.all_nil, Bool.and_self]
  | case4 x y z rest ih =>
    have hx := x.toNat_lt
    have hy := y.toNat_lt
    have hz := z.toNat_lt
    simp only [List.all_cons, hat (v := x.toNat / 4) (by omega),
      hat (v := x.toNat % 4 * 16 + y.toNat / 16) (by omega), hat (v := y.toNat % 16 * 4 + z.toNat / 64) (by omega),
      hat (v := z.toNat % 64) (by omega), ih, Bool.and_self]

theorem hex_verbatim (b : Bytes) : (hex b).all isVerbatim = true := by
  have hchar : ∀ d : Fin 16, isVerbatim (hexChar d) = true := by decide
  rw [List.all_eq_true]
  intro c hc
  obtain ⟨x, -, hx⟩ := List.mem_flatMap.mp hc
  have hbyte := x.toNat_lt
  rcases List.mem_cons.mp hx with rfl | hlow
  · exact hchar ⟨x.toNat / 16, by omega⟩
  · obtain rfl := List.mem_singleton.mp hlow
    exact hchar ⟨x.toNat % 16, by omega⟩

theorem stringBytes_verbatim {s : PyStr} (h : s.all isVerbatim = true) : stringBytes s = s.length + 2 := by
  induction s with
  | nil => rfl
  | cons c s ih =>
    rw [List.all_cons, Bool.and_eq_true] at h
    have hrest := ih h.2
    have hc := escapedBytes_verbatim h.1
    unfold stringBytes at hrest ⊢
    rw [List.map_cons, List.sum_cons, List.length_cons, hc]
    omega

theorem escaped_replicate (c : CodePoint) (n : Nat) :
    ((List.replicate n c).map escapedBytes).sum = n * escapedBytes c := by
  rw [List.map_replicate, List.sum_replicate_nat]

end Json

end Rdap.Python
