import Rdap.Protocol.Address
import Rdap.Protocol.Bech32mRoundTrip
import Rdap.Python.Strip

/-!
# Addresses for the eye

The display form is upper case in groups of four behind a prefix. Neither the prefix nor the hyphen
occurs in the upper-case body, so that reading drops just what displaying added.
-/

set_option autoImplicit false

namespace Rdap.Protocol.Address
open Python Bech32m

/-- `text.replace(pattern, '')` for a pattern that is not empty; `skip` characters of a match are
still to be dropped. -/
def replaceNone (pattern : PyStr) : Nat → PyStr → PyStr
  | _, [] => []
  | skip + 1, _ :: text => replaceNone pattern skip text
  | 0, c :: text =>
    if startsWith (c :: text) pattern then replaceNone pattern (pattern.length - 1) text
    else c :: replaceNone pattern 0 text

/-- `data[i:i+4]` for `i` in steps of four, so many of them at most. -/
def fours : Nat → PyStr → List PyStr
  | 0, _ => []
  | n + 1, data => if data = [] then [] else data.take 4 :: fours n (data.drop 4)

variable (P : Platform)

def toDisplay (addr : PyStr) : Except PyExc PyStr :=
  match addr.dropWhile (· ≠ 49) with
  | [] => .error ⟨.indexError, lit "list index out of range"⟩
  | _ :: data =>
    let upper := P.upper data
    .ok (lit "rvn1:" ++ List.intercalate (lit "-") (fours upper.length upper))

def fromDisplay (disp : PyStr) : PyStr :=
  let body := P.lower (replaceNone (lit "-") 0 (replaceNone (lit "rvn1:") 0 disp))
  lit "rvn1" ++ body

/-! ## Reading drops what displaying added -/

theorem replaceNone_of_absent {pattern text : PyStr} {c : CodePoint} (hhead : pattern.head? = some c)
    (h : c ∉ text) : replaceNone pattern 0 text = text := by
  induction text with
  | nil => rfl
  | cons d text ih =>
    have hrest := ih fun hc => h (List.mem_cons_of_mem d hc)
    unfold replaceNone
    rw [if_neg, hrest]
    cases pattern with
    | nil => cases hhead
    | cons p pattern =>
      obtain rfl := Option.some.inj hhead
      intro hstarts
      obtain ⟨heq, -⟩ : p = d ∧ pattern <+: text := by simpa [startsWith] using hstarts
      exact h (heq ▸ List.mem_cons_self)

theorem replaceNone_skip (pattern head text : PyStr) :
    replaceNone pattern head.length (head ++ text) = replaceNone pattern 0 text := by
  induction head with
  | nil => rfl
  | cons c head ih => exact ih

theorem replaceNone_append {c : CodePoint} {pattern text : PyStr} :
    replaceNone (c :: pattern) 0 (c :: pattern ++ text) = replaceNone (c :: pattern) 0 text := by
  have hstarts : startsWith (c :: (pattern ++ text)) (c :: pattern) = true := by
    simp [startsWith]
  rw [List.cons_append, replaceNone, if_pos hstarts]
  exact replaceNone_skip (c :: pattern) pattern text

theorem replaceNone_singleton (c : CodePoint) (text : PyStr) :
    replaceNone [c] 0 text = text.filter (· ≠ c) := by
  induction text with
  | nil => rfl
  | cons d text ih =>
    unfold replaceNone
    by_cases h : c = d
    · subst h
      simp [startsWith, ih]
    · have hne : d ≠ c := fun heq => h heq.symm
      simp [startsWith, ih, h, hne]

theorem fours_flatten {n : Nat} {data : PyStr} (h : data.length ≤ n) : (fours n data).flatten = data := by
  induction n generalizing data with
  | zero =>
    obtain rfl := List.length_eq_zero_iff.mp (Nat.le_zero.mp h)
    rfl
  | succ n ih =>
    unfold fours
    split
    · rename_i hnil
      rw [hnil]
      rfl
    · rename_i hne
      have hpos := List.length_pos_iff.mpr hne
      rw [List.flatten_cons, ih, List.take_append_drop]
      rw [List.length_drop]
      omega

/-- Separators between parts that have none go away. -/
theorem filter_intercalate {c : CodePoint} {parts : List PyStr} (h : ∀ d ∈ parts.flatten, d ≠ c) :
    (List.intercalate [c] parts).filter (· ≠ c) = parts.flatten := by
  have hkeep : ∀ part : PyStr, (∀ d ∈ part, d ≠ c) → part.filter (· ≠ c) = part := by
    intro part hpart
    rw [List.filter_eq_self]
    intro d hd
    simpa using hpart d hd
  induction parts with
  | nil => rfl
  | cons part parts ih =>
    have hpart := hkeep part fun d hd => h d (List.mem_append_left _ hd)
    have hrest := ih fun d hd => h d (List.mem_append_right _ hd)
    cases parts with
    | nil => simpa [List.intercalate] using hpart
    | cons next parts =>
      have hsplit : List.intercalate [c] (part :: next :: parts) =
          part ++ [c] ++ List.intercalate [c] (next :: parts) := by
        simp [List.intercalate]
      have hsep : [c].filter (· ≠ c) = [] := by simp
      rw [hsplit, List.filter_append, List.filter_append, hpart, hsep, hrest, List.append_nil]
      exact List.flatten_cons.symm

/-- Upper case of a plain letter that is no separator: printable, not a hyphen and back to the letter
in lower case. -/
theorem asciiUpper_plain {c : CodePoint} (h : c ∈ charset) :
    asciiLower (asciiUpper c) = c ∧ asciiUpper c ≠ 45 ∧ asciiUpper c ≠ 114 ∧ isAscii (asciiUpper c) = true := by
  have hall : charset.all (fun c => (asciiLower (asciiUpper c)).val == c.val && (asciiUpper c).val != 45 &&
      (asciiUpper c).val != 114 && isAscii (asciiUpper c)) = true := by decide +kernel
  have hc := List.all_eq_true.mp hall c h
  simp only [Bool.and_eq_true, beq_iff_eq, bne_iff_ne] at hc
  refine ⟨Fin.ext hc.1.1.1, ?_, ?_, hc.2⟩
  · intro heq
    exact hc.1.1.2 (congrArg Fin.val heq)
  · intro heq
    exact hc.1.2 (congrArg Fin.val heq)

/-- Displaying a text of the prefix and characters of the set, and reading it back. -/
theorem fromDisplay_toDisplay {body : PyStr} (h : ∀ c ∈ body, c ∈ charset) :
    ∃ display, toDisplay P (lit "rvn" ++ 49 :: body) = .ok display ∧
      fromDisplay P display = lit "rvn" ++ 49 :: body := by
  have hascii : body.all isAscii = true := by
    apply List.all_eq_true.mpr
    intro c hc
    have hrange := (charset_plain (h c hc)).1.2.1
    simp only [isAscii, decide_eq_true_eq]
    omega
  have hupper : P.upper body = body.map asciiUpper := P.upper_ascii hascii
  have hdrop : (lit "rvn" ++ 49 :: body).dropWhile (· ≠ 49) = 49 :: body := rfl
  have hmap : ∀ c ∈ body.map asciiUpper, c ≠ 45 ∧ c ≠ 114 ∧ isAscii c = true := by
    intro c hc
    obtain ⟨d, hd, rfl⟩ := List.mem_map.mp hc
    exact (asciiUpper_plain (h d hd)).2
  have hflatten : (fours (P.upper body).length (P.upper body)).flatten = body.map asciiUpper := by
    rw [fours_flatten (Nat.le_refl _), hupper]
  have hfilter : (List.intercalate [45] (fours (P.upper body).length (P.upper body))).filter (· ≠ 45) =
      body.map asciiUpper := by
    rw [filter_intercalate, hflatten]
    intro d hd
    rw [hflatten] at hd
    exact (hmap d hd).1
  have habsent : 114 ∉ List.intercalate [45] (fours (P.upper body).length (P.upper body)) := by
    intro hmem
    have hkept : 114 ∈ body.map asciiUpper := hfilter ▸ List.mem_filter.mpr ⟨hmem, by decide⟩
    exact (hmap 114 hkept).2.1 rfl
  have hstem : lit "rvn1:" = 114 :: lit "vn1:" := rfl
  have hhyphen : lit "-" = [45] := rfl
  unfold toDisplay
  rw [hdrop]
  refine ⟨_, rfl, ?_⟩
  unfold fromDisplay
  rw [hhyphen, hstem, replaceNone_append, replaceNone_of_absent rfl habsent, replaceNone_singleton, hfilter,
    P.lower_ascii (List.all_eq_true.mpr fun c hc => (hmap c hc).2.2), List.map_map]
  have hback : ∀ c ∈ body, (asciiLower ∘ asciiUpper) c = c := fun c hc => (asciiUpper_plain (h c hc)).1
  rw [(List.map_congr_left hback).trans (List.map_id' body)]
  rfl

/-! ## Addresses -/

theorem strip_of_plain {s : PyStr} (h : ∀ c ∈ s, Plain c) : strip s = s :=
  strip_of_spaceless fun c hc => visible_not_space ⟨(h c hc).1, (h c hc).2.1⟩

theorem hrp_plain : ∀ c ∈ lit "rvn", Plain c := by
  have hrvn : lit "rvn" = [114, 118, 110] := rfl
  rw [hrvn]
  intro c hc
  simp only [List.mem_cons, List.not_mem_nil, or_false] at hc
  rcases hc with rfl | rfl | rfl <;> exact ⟨by decide, by decide, rfl⟩

theorem keyHash_length (identityEdPub : Bytes) : (keyHash P identityEdPub).length = 20 := by
  unfold keyHash
  rw [List.length_take, P.sha256_length]
  rfl

theorem decode_encode (identityEdPub : Bytes) :
    Address.decode (Address.encode P identityEdPub) = some (keyHash P identityEdPub, addressVersion) := by
  have hpayload := Bech32m.decode_encode (by decide) hrp_plain (addressVersion :: keyHash P identityEdPub)
  have hlength := keyHash_length P identityEdPub
  unfold Address.decode Address.encode
  rw [strip_of_plain (encode_plain hrp_plain _), hpayload]
  simp only
  rw [hlength, if_neg (by decide)]

theorem display_encode (identityEdPub : Bytes) :
    ∃ display, toDisplay P (Address.encode P identityEdPub) = .ok display ∧
      fromDisplay P display = Address.encode P identityEdPub := by
  obtain ⟨data, hdata, hlt, -⟩ := groups (addressVersion :: keyHash P identityEdPub)
  unfold Address.encode
  rw [encode_eq hdata]
  apply fromDisplay_toDisplay
  intro c hc
  obtain ⟨d, hd, rfl⟩ := List.mem_map.mp hc
  exact charAt_mem (symbols_lt hlt d hd)

/-- Payloads and texts correspond: every payload comes back from its text, every text that is taken is
the one text, up to case, of what it is taken for, and addresses come back from their display form. -/
theorem address_codec (P : Platform) :
    (∀ payload, Bech32m.decode (Bech32m.encode (lit "rvn") payload) = some (lit "rvn", payload)) ∧
    (∀ s hrp payload, Bech32m.decode s = some (hrp, payload) →
      Bech32m.encode hrp payload = s.map asciiLower ∧
        ∃! t : PyStr, t.map asciiLower = t ∧ Bech32m.decode t = some (hrp, payload)) ∧
    ∀ identityEdPub, (keyHash P identityEdPub).length = 20 ∧
      Address.decode (Address.encode P identityEdPub) = some (keyHash P identityEdPub, addressVersion) ∧
      ∃ display, toDisplay P (Address.encode P identityEdPub) = .ok display ∧
        fromDisplay P display = Address.encode P identityEdPub := by
  refine ⟨Bech32m.decode_encode (by decide) hrp_plain, ?_, ?_⟩
  · intro s hrp payload h
    exact ⟨encode_decode h, decode_spelling h⟩
  · intro identityEdPub
    exact ⟨keyHash_length P identityEdPub, decode_encode P identityEdPub, display_encode P identityEdPub⟩

end Rdap.Protocol.Address
