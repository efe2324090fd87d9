import Rdap.Agent.NodeName
import Rdap.Lib.Sightings
import Rdap.Python.Strip
import Rdap.Python.Value

/-!
# Mentions in the team chat

A message is routed to the teammates it mentions. The scan takes everything after an at sign
that can stand in a name and looks that up. What a message mentions is the longest name after a
sign that is known, if neither a letter nor a digit stands right before the sign or right after
the name.
-/

set_option autoImplicit false

namespace Rdap.Memory
open Python Lib Agent

/-- What the regular expressions know of letters, with what Unicode says of ASCII. -/
structure Alphabet (P : Platform) where
  /-- `str.isalnum` for one character. -/
  isAlnum : CodePoint → Bool
  isAlnum_ascii : ∀ {c : CodePoint}, isAscii c = true → isAlnum c = isAsciiAlnum c
  /-- Only letters, digits and the three signs have a lower case that can stand in a name. -/
  lower_chars : ∀ {s : PyStr}, (∀ c ∈ P.lower s, isNodeNameChar c = true) →
    ∀ c ∈ s, isAlnum c = true ∨ c ∈ [46, 95, 45]

variable {P : Platform} (A : Alphabet P)

/-- `[\w.-]` -/
def isTagChar (c : CodePoint) : Bool := A.isAlnum c || c == 95 || c == 46 || c == 45

/-- `m.group(1) for m in re.finditer(r'@([\w.-]+)', text)`. There is no at sign in a tag, so
the scan goes on right after the sign. -/
def findTags : PyStr → List PyStr
  | [] => []
  | c :: rest =>
    if c = 64 ∧ rest.takeWhile (isTagChar A) ≠ [] then rest.takeWhile (isTagChar A) :: findTags rest
    else findTags rest

def groupTags : List PyStr := [lit "all", lit "team", lit "everyone"]

def atAll : PyStr := lit "@all"

/-- `next((k for k in known if k.lower() == tag), None)` -/
def knownAs (P : Platform) (known : List NodeName) (tag : PyStr) : Option PyStr :=
  (known.map Subtype.val).find? fun k => P.lower k = P.lower tag

def mentionsLoop (P : Platform) (known : List NodeName) : List PyStr → List PyStr → List PyStr
  | [], found => found
  | tag :: tags, found =>
    if P.lower tag ∈ groupTags then [atAll]
    else match knownAs P known tag with
      | none => mentionsLoop P known tags found
      | some k =>
        if k ≠ [] ∧ k ∉ found then mentionsLoop P known tags (found ++ [k])
        else mentionsLoop P known tags found

def parseMentions (text : PyStr) (known : List NodeName) : List PyStr :=
  mentionsLoop P known (findTags A text) []

/-! ## What a text mentions -/

/-- The longest beginning of a text that is good before the rest of it; the first argument has
been read already. -/
def longest (good : PyStr → PyStr → Bool) : PyStr → PyStr → Option PyStr
  | read, [] => if good read [] then some read else none
  | read, c :: rest =>
    (longest good (read ++ [c]) rest).or (if good read (c :: rest) then some read else none)

/-- An at sign, with the character before it and the text after it. -/
structure Sign where
  before : Option CodePoint
  after : PyStr

def signs : Option CodePoint → PyStr → List Sign
  | _, [] => []
  | before, c :: rest =>
    if c = 64 then ⟨before, rest⟩ :: signs (some c) rest else signs (some c) rest

def isGroup (P : Platform) (word : PyStr) : Bool := P.lower word ∈ groupTags

/-- The word means the group or a teammate. -/
def isWord (P : Platform) (known : List NodeName) (word : PyStr) : Bool :=
  isGroup P word || (knownAs P known word).isSome

/-- What follows a word does not go on with a letter or a digit. -/
def delimits (rest : PyStr) : Bool := rest.head?.all fun c => !A.isAlnum c

/-- The longest word after the sign. -/
def Sign.word (known : List NodeName) (s : Sign) : Option PyStr :=
  longest (fun word rest => isWord P known word && delimits A rest) [] s.after

/-- What the scan takes at the sign. -/
def Sign.tag (s : Sign) : PyStr := s.after.takeWhile (isTagChar A)

/-- The sign is at the start of the text or after white space or punctuation. -/
def Sign.stands (s : Sign) : Bool := s.before.all fun c => !A.isAlnum c

/-- The word is all that the scan takes. -/
def Sign.clean (known : List NodeName) (s : Sign) : Bool := s.word A known = some (s.tag A)

/-- What is to be returned: the group, or the known names in the order of first mention. -/
def mentioned (text : PyStr) (known : List NodeName) : List PyStr :=
  let words := ((signs none text).filter (Sign.stands A)).filterMap (Sign.word A known)
  if words.any (isGroup P) then [atAll] else (words.filterMap (knownAs P known)).eraseDups

/-- The teammate at a sign. -/
def Sign.teammate (known : List NodeName) (s : Sign) : Option PyStr :=
  (s.word A known).bind (knownAs P known)

/-- The known names at the at signs of a text: the routing counts those that it takes as they
are, the text mentions those that do not follow a letter or a digit. -/
def nameSightings (text : PyStr) (known : List NodeName) : List (Sighting PyStr) :=
  (signs none text).filterMap fun s =>
    (s.teammate A known).map fun k => ⟨k, s.clean A known, s.stands A⟩

/-- The signs before a group word. -/
def groupSigns (text : PyStr) (known : List NodeName) : List Sign :=
  (signs none text).filter fun s => (s.word A known).any (isGroup P)

/-- Group mentions are found as such, and so are the names, at their first mention or before
any other new one. -/
def MentionsClear (text : PyStr) (known : List NodeName) : Prop :=
  (groupSigns A text known).any (Sign.clean A known) = (groupSigns A text known).any (Sign.stands A) ∧
    ((groupSigns A text known).any (Sign.stands A) = false → CaughtUp [] (nameSightings A text known))

/-! ## The longest beginning -/

section
variable {good : PyStr → PyStr → Bool}

theorem longest_none {read rest : PyStr} (h : ∀ a b, rest = a ++ b → good (read ++ a) b = false) :
    longest good read rest = none := by
  induction rest generalizing read with
  | nil =>
    have hnone := h [] [] rfl
    rw [List.append_nil] at hnone
    simp [longest, hnone]
  | cons c rest ih =>
    have hnone := h [] (c :: rest) rfl
    rw [List.append_nil] at hnone
    have hrest : longest good (read ++ [c]) rest = none := by
      apply ih
      rintro a b rfl
      simpa using h (c :: a) b rfl
    simp [longest, hnone, hrest]

/-- A good beginning is found if no longer one is good. -/
theorem longest_some {read a b : PyStr} (hgood : good (read ++ a) b = true)
    (hlonger : ∀ c d, b = c ++ d → c ≠ [] → good (read ++ a ++ c) d = false) :
    longest good read (a ++ b) = some (read ++ a) := by
  induction a generalizing read with
  | nil =>
    rw [List.append_nil] at hgood hlonger ⊢
    cases b with
    | nil => simp [longest, hgood]
    | cons c rest =>
      have hrest : longest good (read ++ [c]) rest = none := by
        apply longest_none
        rintro x y rfl
        simpa using hlonger (c :: x) y rfl (List.cons_ne_nil c x)
      simp [longest, hgood, hrest]
  | cons c a ih =>
    have hrest : longest good (read ++ [c]) (a ++ b) = some (read ++ [c] ++ a) := by
      apply ih
      · simpa using hgood
      · intro x y hxy hx
        simpa using hlonger x y hxy hx
    simp [longest, hrest]

theorem longest_good {read rest w : PyStr} (h : longest good read rest = some w) :
    ∃ a b, rest = a ++ b ∧ w = read ++ a ∧ good w b = true := by
  induction rest generalizing read with
  | nil =>
    simp only [longest, Option.ite_none_right_eq_some, Option.some.injEq] at h
    exact ⟨[], [], rfl, by rw [← h.2, List.append_nil], h.2 ▸ h.1⟩
  | cons c rest ih =>
    rw [longest, Option.or_eq_some_iff] at h
    rcases h with hrest | ⟨-, hhere⟩
    · obtain ⟨a, b, rfl, rfl, hgood⟩ := ih hrest
      exact ⟨c :: a, b, rfl, by simp, hgood⟩
    · simp only [Option.ite_none_right_eq_some, Option.some.injEq] at hhere
      exact ⟨[], c :: rest, rfl, by rw [← hhere.2, List.append_nil], hhere.2 ▸ hhere.1⟩

end

/-! ## Tags and words -/

variable {A}

theorem isGroup_nil : isGroup P [] = false := by
  have hlower : P.lower [] = [] := P.lower_ascii rfl
  rw [isGroup, hlower]
  decide

theorem lower_name (P : Platform) (name : NodeName) : P.lower name.val = name.val.map asciiLower := by
  refine P.lower_ascii (List.all_eq_true.mpr fun c hc => ?_)
  have := name.printable hc
  simp only [isAscii, decide_eq_true_eq]
  omega

theorem knownAs_nil (known : List NodeName) : knownAs P known [] = none := by
  have hlower : P.lower [] = [] := P.lower_ascii rfl
  unfold knownAs
  rw [List.find?_eq_none, hlower]
  intro k hk
  obtain ⟨name, _, rfl⟩ := List.mem_map.mp hk
  rw [lower_name]
  simpa using NodeName.ne_nil name

theorem isWord_nil (known : List NodeName) : isWord P known [] = false := by
  simp [isWord, isGroup_nil, knownAs_nil]

theorem asciiLower_name {c : CodePoint} (h : isNodeNameChar c = true) :
    isNodeNameChar (asciiLower c) = true := by
  unfold asciiLower
  split
  · rename_i hupper
    simp only [isNodeNameChar, isAsciiAlnum, Bool.or_eq_true, Bool.and_eq_true, decide_eq_true_eq]
    exact Or.inl (Or.inl (Or.inl (Or.inr ⟨by omega, by omega⟩)))
  · exact h

/-- A word consists of characters that the scan takes. -/
theorem isWord_tag {known : List NodeName} {word : PyStr} (h : isWord P known word = true) :
    ∀ c ∈ word, isTagChar A c = true := by
  have hlower : ∀ c ∈ P.lower word, isNodeNameChar c = true := by
    rcases Bool.or_eq_true_iff.mp h with hgroup | hknown
    · have hchars : groupTags.all (fun tag => tag.all isNodeNameChar) = true := by decide
      exact List.all_eq_true.mp (List.all_eq_true.mp hchars _ (by simpa [isGroup] using hgroup))
    · obtain ⟨k, hk⟩ := Option.isSome_iff_exists.mp hknown
      have hsame : P.lower k = P.lower word := by simpa using List.find?_some hk
      obtain ⟨name, _, rfl⟩ := List.mem_map.mp (List.mem_of_find?_eq_some hk)
      rw [← hsame, lower_name]
      intro c hc
      obtain ⟨d, hd, rfl⟩ := List.mem_map.mp hc
      exact asciiLower_name (NodeName.chars name hd)
  intro c hc
  rcases A.lower_chars hlower c hc with halnum | hsign
  · simp [isTagChar, halnum]
  · simp only [List.mem_cons, List.not_mem_nil, or_false] at hsign
    rcases hsign with rfl | rfl | rfl <;> simp [isTagChar]

/-- What the scan takes is the longest word if it is one. -/
theorem clean_eq (known : List NodeName) (s : Sign) :
    s.clean A known = isWord P known (s.tag A) := by
  rw [Bool.eq_iff_iff]
  constructor
  · intro h
    obtain ⟨_, _, _, _, hgood⟩ := longest_good (of_decide_eq_true h)
    exact (Bool.and_eq_true_iff.mp hgood).1
  · intro h
    refine decide_eq_true ?_
    have hsplit := List.takeWhile_append_dropWhile (p := isTagChar A) (l := s.after)
    have hnext : ∀ c ∈ (s.after.dropWhile (isTagChar A)).head?, isTagChar A c = false := by
      intro c hc
      have := List.head?_dropWhile_not (isTagChar A) s.after
      rw [Option.mem_def.mp hc] at this
      simpa using this
    have hlongest : longest (fun word rest => isWord P known word && delimits A rest) []
        (s.tag A ++ s.after.dropWhile (isTagChar A)) = some ([] ++ s.tag A) := by
      apply longest_some
      · have hdelimits : delimits A (s.after.dropWhile (isTagChar A)) = true := by
          unfold delimits
          rw [Option.all_eq_true]
          intro c hc
          have hno := hnext c hc
          simp only [isTagChar, Bool.or_eq_false_iff] at hno
          simp [hno.1.1.1]
        simpa [hdelimits] using h
      · intro x y hxy hx
        obtain ⟨c, x, rfl⟩ := List.exists_cons_of_ne_nil hx
        -- a longer word would take in a character at which the scan stops
        have hstop : isTagChar A c = false := hnext c (by rw [hxy]; rfl)
        refine Bool.eq_false_of_not_eq_true fun hgood => ?_
        have htag := isWord_tag (A := A) (Bool.and_eq_true_iff.mp hgood).1 c (by simp)
        rw [hstop] at htag
        cases htag
    unfold Sign.word
    unfold Sign.tag at hlongest ⊢
    rw [hsplit] at hlongest
    exact hlongest

theorem clean_of_tag_nil {known : List NodeName} {s : Sign} (h : s.tag A = []) :
    s.clean A known = false := by
  rw [clean_eq, h, isWord_nil]

theorem knownAs_tag (known : List NodeName) (s : Sign) :
    knownAs P known (s.tag A) = if s.clean A known then s.teammate A known else none := by
  split
  · rename_i hclean
    rw [Sign.teammate, of_decide_eq_true hclean, Option.bind_some]
  · rename_i hclean
    rw [clean_eq, isWord, Bool.or_eq_true, not_or] at hclean
    simpa using hclean.2

theorem isGroup_tag (known : List NodeName) (s : Sign) :
    isGroup P (s.tag A) = (s.clean A known && (s.word A known).any (isGroup P)) := by
  cases hclean : s.clean A known with
  | true => rw [of_decide_eq_true hclean, Option.any_some, Bool.true_and]
  | false =>
    rw [clean_eq, isWord, Bool.or_eq_false_iff] at hclean
    rw [hclean.1, Bool.false_and]

/-- The scan passes over a sign with nothing to take after it. -/
theorem findTags_eq (before : Option CodePoint) (text : PyStr) :
    findTags A text = ((signs before text).map (Sign.tag A)).filter fun tag => tag ≠ [] := by
  induction text generalizing before with
  | nil => rfl
  | cons c rest ih =>
    unfold findTags signs
    by_cases hsign : c = 64
    · subst hsign
      rw [if_pos rfl, List.map_cons, ih (some 64)]
      by_cases htag : rest.takeWhile (isTagChar A) = []
      · rw [if_neg (by simp [htag]), List.filter_cons_of_neg (by simp [Sign.tag, htag])]
      · rw [if_pos ⟨rfl, htag⟩, List.filter_cons_of_pos (by simp [Sign.tag, htag])]
        rfl
    · rw [if_neg (by simp [hsign]), if_neg hsign]
      exact ih (some c)

/-! ## Both readings as sightings -/

theorem filter_notMem_nil (names : List PyStr) : (names.filter fun a => a ∉ ([] : List PyStr)) = names := by
  simp

theorem mentionsLoop_eq (known : List NodeName) (tags found : List PyStr) :
    mentionsLoop P known tags found =
      if tags.any (isGroup P) then [atAll]
      else found ++ ((tags.filterMap (knownAs P known)).filter fun k => k ∉ found).eraseDups := by
  induction tags generalizing found with
  | nil => simp [mentionsLoop]
  | cons tag tags ih =>
    unfold mentionsLoop
    by_cases hgroup : P.lower tag ∈ groupTags
    · rw [if_pos hgroup, if_pos (by simp [isGroup, hgroup])]
    · have hany : (tag :: tags).any (isGroup P) = tags.any (isGroup P) := by simp [isGroup, hgroup]
      rw [if_neg hgroup, hany]
      cases hk : knownAs P known tag with
      | none => simp only [ih, List.filterMap_cons, hk]
      | some k =>
        have hnonempty : k ≠ [] := by
          obtain ⟨name, _, rfl⟩ := List.mem_map.mp (List.mem_of_find?_eq_some hk)
          exact NodeName.ne_nil name
        by_cases hfound : k ∈ found
        · simp [ih, hk, hfound]
        · have hfilter : ∀ names : List PyStr,
              (names.filter fun a => a ∉ found).filter (fun a => !a == k) =
                names.filter fun a => a ∉ found ++ [k] := by
            intro names
            rw [List.filter_filter]
            refine List.filter_congr fun a _ => ?_
            rw [Bool.eq_iff_iff]
            simp [and_comm]
          simp only [hnonempty, ne_eq, not_false_eq_true, hfound, and_self, if_true, ih,
            List.filterMap_cons, hk]
          rw [List.filter_cons_of_pos (by simp [hfound]), List.eraseDups_cons, hfilter,
            List.append_assoc, List.singleton_append]

/-- The names that one side counts. -/
theorem sightings_side {known : List NodeName} {ss : List Sign} (side : Sign → Bool)
    (flag : Sighting PyStr → Bool)
    (h : ∀ s k, flag ⟨k, Sign.clean A known s, Sign.stands A s⟩ = side s) :
    newNames [] flag (ss.filterMap fun s =>
        (s.teammate A known).map fun k => ⟨k, s.clean A known, s.stands A⟩) =
      ((ss.filter side).filterMap (Sign.teammate A known)).eraseDups := by
  unfold newNames
  rw [filter_notMem_nil]
  congr 1
  induction ss with
  | nil => rfl
  | cons s ss ih =>
    cases hk : s.teammate A known with
    | none =>
      by_cases hside : side s = true
      · simp [hk, hside, ih]
      · simp [hk, hside, ih]
    | some k =>
      by_cases hside : side s = true
      · simp [hk, hside, ih, h]
      · simp [hk, hside, ih, h]

/-- The routing, in terms of the words at the signs. -/
theorem parseMentions_eq (text : PyStr) (known : List NodeName) : parseMentions A text known =
    if (groupSigns A text known).any (Sign.clean A known) then [atAll]
    else newNames [] Sighting.left (nameSightings A text known) := by
  have hnames : (findTags A text).filterMap (knownAs P known) =
      ((signs none text).filter (Sign.clean A known)).filterMap (Sign.teammate A known) := by
    rw [findTags_eq none, List.filterMap_filter, List.filterMap_map, List.filterMap_filter]
    refine List.filterMap_congr fun s _ => ?_
    rw [Function.comp, knownAs_tag]
    by_cases htag : s.tag A = []
    · simp [htag, clean_of_tag_nil htag]
    · simp [htag]
  have hgroups : (findTags A text).any (isGroup P) =
      (groupSigns A text known).any (Sign.clean A known) := by
    unfold groupSigns
    rw [findTags_eq none, List.any_filter, List.any_map, List.any_filter, Bool.eq_iff_iff,
      List.any_eq_true, List.any_eq_true]
    refine exists_congr fun s => and_congr_right fun _ => ?_
    rw [Function.comp, isGroup_tag known, Bool.and_comm (Sign.clean A known s)]
    by_cases htag : s.tag A = []
    · simp [htag, clean_of_tag_nil htag]
    · simp [htag]
  unfold parseMentions nameSightings
  rw [mentionsLoop_eq, hgroups, hnames, filter_notMem_nil, List.nil_append,
    sightings_side (Sign.clean A known) Sighting.left fun _ _ => rfl]

theorem mentioned_eq (text : PyStr) (known : List NodeName) : mentioned A text known =
    if (groupSigns A text known).any (Sign.stands A) then [atAll]
    else newNames [] Sighting.right (nameSightings A text known) := by
  have hgroups : (((signs none text).filter (Sign.stands A)).filterMap (Sign.word A known)).any
      (isGroup P) = (groupSigns A text known).any (Sign.stands A) := by
    unfold groupSigns
    rw [List.any_filterMap, List.any_filter, List.any_filter]
    congr 1
    funext s
    rw [Bool.and_comm]
    cases s.word A known <;> rfl
  have hnames : (((signs none text).filter (Sign.stands A)).filterMap (Sign.word A known)).filterMap
      (knownAs P known) =
        ((signs none text).filter (Sign.stands A)).filterMap (Sign.teammate A known) :=
    List.filterMap_filterMap
  unfold mentioned nameSightings
  rw [sightings_side (Sign.stands A) Sighting.right fun _ _ => rfl]
  simp only [hgroups, hnames]

theorem atAll_notMem_newNames (text : PyStr) (known : List NodeName) (side : Sighting PyStr → Bool) :
    newNames [] side (nameSightings A text known) ≠ [atAll] := by
  intro h
  have hmem : atAll ∈ newNames [] side (nameSightings A text known) := by
    rw [h]
    exact List.mem_cons_self
  unfold newNames at hmem
  rw [List.mem_eraseDups] at hmem
  obtain ⟨sighting, hsighting, hname⟩ := List.mem_map.mp (List.mem_of_mem_filter hmem)
  obtain ⟨s, _, hs⟩ := List.mem_filterMap.mp (List.mem_of_mem_filter hsighting)
  obtain ⟨k, hk, rfl⟩ := Option.map_eq_some_iff.mp hs
  obtain ⟨word, _, hk⟩ := Option.bind_eq_some_iff.mp hk
  obtain ⟨name, _, rfl⟩ := List.mem_map.mp (List.mem_of_find?_eq_some hk)
  have hat : (64 : CodePoint) ∈ name.val := by
    rw [show name.val = atAll from hname]
    decide
  exact absurd (NodeName.chars name hat) (by decide)

/-- The routing finds what a text mentions exactly when the signs that it misreads do not matter. -/
theorem parseMentions_eq_mentioned_iff (P : Platform) (A : Alphabet P) (text : PyStr)
    (known : List NodeName) :
    parseMentions A text known = mentioned A text known ↔ MentionsClear A text known := by
  rw [parseMentions_eq, mentioned_eq, MentionsClear]
  generalize groupSigns A text known = groups
  cases hclean : groups.any (Sign.clean A known) <;> cases hstands : groups.any (Sign.stands A)
  · simp only [Bool.false_eq_true, if_false, true_and, true_implies]
    exact newNames_eq_iff [] _
  · simpa using atAll_notMem_newNames text known _
  · simpa using Ne.symm (atAll_notMem_newNames text known _)
  · simp

/-- Letters and digits of ASCII only. -/
def isPlainAlnum (c : CodePoint) : Bool := isAscii c && isAsciiAlnum c

theorem isPlainAlnum_ascii {c : CodePoint} (h : isAscii c = true) : isPlainAlnum c = isAsciiAlnum c := by
  rw [isPlainAlnum, h, Bool.true_and]

theorem asciiLower_chars {s : PyStr} (h : ∀ c ∈ s.map asciiLower, isNodeNameChar c = true) :
    ∀ c ∈ s, isPlainAlnum c = true ∨ c ∈ [46, 95, 45] := by
  intro c hc
  have hchar : isNodeNameChar (asciiLower c) = true := h _ (List.mem_map_of_mem hc)
  unfold asciiLower at hchar
  split at hchar
  · left
    simp only [isPlainAlnum, isAscii, isAsciiAlnum, Bool.and_eq_true, Bool.or_eq_true, decide_eq_true_eq]
    exact ⟨by omega, Or.inl (Or.inr (by omega))⟩
  · simp only [isNodeNameChar, Bool.or_eq_true, beq_iff_eq] at hchar
    rcases hchar with ((halnum | rfl) | rfl) | rfl
    · left
      have hlow : c.val < 128 := by
        simp only [isAsciiAlnum, Bool.or_eq_true, Bool.and_eq_true, decide_eq_true_eq] at halnum
        omega
      simp [isPlainAlnum, isAscii, hlow, halnum]
    all_goals exact Or.inr (by decide)

def asciiAlphabet : Alphabet (Platform.ofTable []) := ⟨isPlainAlnum, isPlainAlnum_ascii, asciiLower_chars⟩

theorem mate_valid : validateNodeName (lit "bob") = .ok (lit "bob") := rfl

def mate : NodeName := ⟨lit "bob", mate_valid⟩

/-- A full stop, or whatever else the scan takes, behind a name hides the name. -/
theorem full_stop_loses_mention :
    parseMentions asciiAlphabet (lit "ask @bob.") [mate] = [] ∧
    mentioned asciiAlphabet (lit "ask @bob.") [mate] = [lit "bob"] ∧
    parseMentions asciiAlphabet (lit "ask @bob.") [mate] ≠
      mentioned asciiAlphabet (lit "ask @bob.") [mate] ∧
    parseMentions asciiAlphabet (lit "ask @bob.Next week") [mate] ≠
      mentioned asciiAlphabet (lit "ask @bob.Next week") [mate] := by
  have hparsed : parseMentions asciiAlphabet (lit "ask @bob.") [mate] = [] := by decide
  have hmentioned : mentioned asciiAlphabet (lit "ask @bob.") [mate] = [lit "bob"] := by decide
  refine ⟨hparsed, hmentioned, ?_, by decide⟩
  rw [hparsed, hmentioned]
  decide

end Rdap.Memory
