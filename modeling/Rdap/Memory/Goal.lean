import Rdap.Memory.GitScope
import Rdap.Python.Raise
import Rdap.Python.Strip

/-!
# The goal of the team

The goal is kept in a Markdown file, as the text under a heading, and read back by dropping
the lines that look like headings.
-/

set_option autoImplicit false

namespace Rdap.Memory
open Python

def maxGoalBytes : Nat := 64 * 1024

def goalHeading : PyStr := lit "# TEAM GOAL"

def goalHeader : PyStr := goalHeading ++ lit "\n\n"

def noGoal : PyStr := lit "(not set — every agent works independently)"

/-- `GOAL.md` as it is found. -/
structure GoalFile where
  /-- A regular file and no link. -/
  regular : Bool
  nlink : Nat
  content : Bytes

/-- The repository around the file: a pull may bring another one. -/
structure GoalGit where
  /-- `auto_commit` is set and the directory is a Git repository. -/
  isGit : Bool
  hasRemote : Bool
  pull : GoalFile → Except PyExc GoalFile
  commit : Except PyExc Unit
  push : Except PyExc Unit

/-- Before the file is written, under the lock. -/
def GoalGit.before (git : GoalGit) (file : GoalFile) : Except PyExc GoalFile :=
  if git.isGit ∧ git.hasRemote then git.pull file else .ok file

/-- After the file is written; what raises here leaves it written. -/
def GoalGit.after (git : GoalGit) : Except PyExc Unit :=
  if git.isGit then git.commit.bind fun _ => if git.hasRemote then git.push else .ok ()
  else .ok ()

/-- `_atomic_write_shared_text`: the old file is replaced by a new one. -/
def writeGoal (text : PyStr) : Except PyExc GoalFile := do
  let content ← encodeUtf8 text
  pure ⟨true, 1, content⟩

/-- `ensure`, of the file only: it is made with no goal in it if there is none. -/
def ensureGoal : Option GoalFile → Except PyExc GoalFile
  | none => writeGoal (goalHeader ++ noGoal ++ lit "\n")
  | some file =>
    if file.regular then .ok file else valueError (lit "team goal path must be a regular file")

def renderGoal (text : PyStr) : PyStr :=
  let body := if strip text = [] then noGoal else strip text
  goalHeader ++ body ++ lit "\n"

def setGoal (git : GoalGit) (text : PyStr) (file : Option GoalFile) : Except PyExc GoalFile := do
  let file ← ensureGoal file
  let encoded ← encodeUtf8 (renderGoal text)
  orRaise (encoded.length ≤ maxGoalBytes) (lit "team goal exceeds the compiled byte limit")
  let _ ← git.before file
  let written ← writeGoal (renderGoal text)
  git.after
  pure written

def isHeading (line : PyStr) : Bool := startsWith line (lit "# ")

/-- Every exception is answered with the empty text. -/
def getGoal : Option GoalFile → PyStr
  | none => []
  | some file =>
    if !file.regular ∨ file.nlink ≠ 1 ∨ maxGoalBytes < file.content.length then []
    else match decodeUtf8 .strict file.content with
      | .error _ => []
      | .ok decoded =>
        strip (List.intercalate [10] ((splitLines decoded).filter fun line => !isHeading line))

/-! ## The lines of a goal -/

/-- Lines end in `\n` only, and none of them looks like a heading. -/
def GoalSurvives (body : PyStr) : Prop :=
  (∀ c ∈ body, isLineBreak c = true ∨ c = 13 → c = 10) ∧
    ∀ line ∈ body.splitOn 10, isHeading line = false

-- over the text, not over all code points
instance decidableGoalSurvives (body : PyStr) : Decidable (GoalSurvives body) :=
  have : Decidable (∀ c ∈ body, isLineBreak c = true ∨ c = 13 → c = 10) :=
    List.decidableBAll (fun c => isLineBreak c = true ∨ c = 13 → c = 10) body
  inferInstanceAs (Decidable (_ ∧ _))

theorem translateNewlines_eq_self {s : PyStr} (h : (13 : CodePoint) ∉ s) : translateNewlines s = s := by
  induction s with
  | nil => rfl
  | cons c s ih =>
    rw [List.mem_cons, not_or] at h
    rw [translateNewlines, if_pos (Ne.symm h.1), ih h.2]

theorem translateNewlines_no_return (s : PyStr) : (13 : CodePoint) ∉ translateNewlines s := by
  induction s with
  | nil => exact List.not_mem_nil
  | cons c s ih =>
    unfold translateNewlines
    split
    · rename_i hc
      rw [List.mem_cons, not_or]
      exact ⟨Ne.symm hc, ih⟩
    · split
      · exact ih
      · rw [List.mem_cons, not_or]
        exact ⟨by decide, ih⟩

theorem translateNewlines_end {s : PyStr} (h : s.getLast? ≠ some 13) :
    translateNewlines (s ++ [10]) = translateNewlines s ++ [10] := by
  induction s with
  | nil => decide
  | cons c s ih =>
    cases s with
    | nil =>
      have hc : c ≠ 13 := fun hc => h (by rw [hc]; rfl)
      have hlf : (10 : CodePoint) ≠ 13 := by decide
      simp [translateNewlines, hc, hlf]
    | cons d s =>
      rw [List.getLast?_cons_cons] at h
      have hrest := ih h
      rw [List.cons_append, translateNewlines, hrest]
      conv_rhs => rw [translateNewlines]
      by_cases hc : c = 13 <;> by_cases hd : d = 10 <;> simp [hc, hd]

/-- The lines of the file are those of the heading and of the text. -/
theorem splitLines_goal {body : PyStr} (hlast : ∀ c ∈ body.getLast?, isSpace c = false) :
    splitLines (goalHeader ++ body ++ lit "\n") =
      goalHeading :: [] :: (translateNewlines body).splitOnP isLineBreak := by
  have hreturn : body.getLast? ≠ some 13 := fun h => absurd (hlast 13 h) (by decide)
  have hheader : goalHeader ++ body ++ lit "\n" = goalHeading ++ ([10, 10] ++ (body ++ [10])) := by
    rw [goalHeader, List.append_assoc, List.append_assoc]
    rfl
  have hfirst : Unbroken goalHeading := by decide
  have hplain : goalHeading.all (fun c => !isLineBreak c) = true := by decide
  have hbreaks : translateNewlines ([10, 10] ++ (body ++ [10])) =
      10 :: 10 :: (translateNewlines body ++ [10]) := by
    rw [List.cons_append, List.cons_append, List.nil_append, translateNewlines, if_pos (by decide),
      translateNewlines, if_pos (by decide), translateNewlines_end hreturn]
  have hpieces : (translateNewlines (goalHeader ++ body ++ lit "\n")).splitOnP isLineBreak =
      goalHeading :: [] :: ((translateNewlines body).splitOnP isLineBreak ++ [[]]) := by
    rw [hheader, translateNewlines_unbroken_append hfirst, hbreaks,
      List.splitOnP_append_cons_of_forall_mem
        (fun c hc => by simpa using List.all_eq_true.mp hplain c hc) 10 (by decide),
      List.splitOnP_cons_eq_if_modifyHead, if_pos (by decide),
      List.splitOnP_append_cons _ _ (by decide), List.splitOnP_nil]
  unfold splitLines
  dsimp only
  rw [hpieces, ← List.cons_append, ← List.cons_append, List.getLast?_concat, if_pos rfl,
    List.dropLast_concat]

/-- What is read back, from the lines of the text. -/
def goalLines (body : PyStr) : PyStr :=
  strip (List.intercalate [10]
    (((translateNewlines body).splitOnP isLineBreak).filter fun line => !isHeading line))

theorem intercalate_nil_cons (pieces : List PyStr) :
    strip (List.intercalate [10] ([] :: pieces)) = strip (List.intercalate [10] pieces) := by
  by_cases h : pieces = []
  · subst h
    rfl
  · rw [List.intercalate_cons_of_ne_nil h, List.nil_append, List.singleton_append]
    exact strip_cons (by decide) _

theorem getGoal_rendered {text : PyStr} {content : Bytes} (hnonempty : strip text ≠ [])
    (hcontent : encodeUtf8 (renderGoal text) = .ok content) (hsize : content.length ≤ maxGoalBytes) :
    getGoal (some ⟨true, 1, content⟩) = goalLines (strip text) := by
  have hrender : renderGoal text = goalHeader ++ strip text ++ lit "\n" := by
    unfold renderGoal
    rw [if_neg hnonempty]
  have hheading : (!isHeading goalHeading) = false := by decide
  have hblank : (!isHeading []) = true := by decide
  dsimp only [getGoal]
  rw [if_neg (by simp [hsize]), decodeUtf8_encodeUtf8 hcontent]
  dsimp only
  rw [hrender, splitLines_goal (strip_last text), List.filter_cons_of_neg (by simp [hheading]),
    List.filter_cons_of_pos (p := fun line => !isHeading line) hblank, intercalate_nil_cons]
  rfl

theorem setGoal_ok {git : GoalGit} {text : PyStr} {file : Option GoalFile} {written : GoalFile}
    (h : setGoal git text file = .ok written) : ∃ content, encodeUtf8 (renderGoal text) = .ok content ∧
      content.length ≤ maxGoalBytes ∧ written = ⟨true, 1, content⟩ := by
  simp only [setGoal, writeGoal, bind_ok, orRaise_ok, pure_ok] at h
  obtain ⟨_, _, content, hcontent, _, hsize, _, _, out, ⟨again, hagain, rfl⟩, _, _, rfl⟩ := h
  rw [hcontent] at hagain
  obtain rfl := Except.ok.inj hagain
  exact ⟨content, hcontent, hsize, rfl⟩

/-! ## The goal is read back exactly when no line is lost -/

theorem lines_of_newlines {body : PyStr} (h : ∀ c ∈ body, isLineBreak c = true ∨ c = 13 → c = 10) :
    (translateNewlines body).splitOnP isLineBreak = body.splitOn 10 := by
  have hreturn : (13 : CodePoint) ∉ body := fun hmem => absurd (h 13 hmem (Or.inr rfl)) (by decide)
  rw [translateNewlines_eq_self hreturn, List.splitOn_eq_splitOnP]
  refine splitOnP_congr fun c hc => ?_
  rw [Bool.eq_iff_iff, beq_iff_eq]
  constructor
  · exact fun hbreak => h c hc (Or.inl hbreak)
  · rintro rfl
    decide

theorem goalLines_of_survives {body : PyStr} (hstrip : strip body = body) (h : GoalSurvives body) :
    goalLines body = body := by
  have hkept : (body.splitOn 10).filter (fun line => !isHeading line) = body.splitOn 10 :=
    List.filter_eq_self.mpr fun line hline => by simp [h.2 line hline]
  unfold goalLines
  rw [lines_of_newlines h.1, hkept, List.intercalate_splitOn, hstrip]

theorem survives_of_goalLines {body : PyStr} (hnonempty : body ≠ []) (h : goalLines body = body) :
    GoalSurvives body := by
  have hbreaks : ∀ c ∈ body, isLineBreak c = true ∨ c = 13 → c = 10 := by
    intro c hc hbreak
    rw [← h] at hc
    rcases mem_intercalate ((strip_sublist _).subset hc) with rfl | ⟨piece, hpiece, hmem⟩
    · rfl
    · obtain ⟨hsource, hplain⟩ := mem_splitOnP (List.mem_of_mem_filter hpiece) c hmem
      rcases hbreak with hbreak | rfl
      · rw [hbreak] at hplain
        cases hplain
      · exact absurd hsource (translateNewlines_no_return body)
  refine ⟨hbreaks, ?_⟩
  by_contra hheading
  have hdrop : ∃ line ∈ body.splitOn 10, (!isHeading line) = false := by
    simpa using hheading
  have hshort := intercalate_filter_length 10 (fun line => !isHeading line) (body.splitOn 10)
    (by rwa [List.intercalate_splitOn]) hdrop
  have hlength := (strip_sublist (List.intercalate [10]
    ((body.splitOn 10).filter fun line => !isHeading line))).length_le
  rw [List.intercalate_splitOn] at hshort
  unfold goalLines at h
  rw [lines_of_newlines hbreaks] at h
  rw [h] at hlength
  omega

/-- A goal that was accepted is read back exactly when its lines end in `\n` and none of them
looks like a heading. -/
theorem getGoal_setGoal_iff (git : GoalGit) (text : PyStr) (file : Option GoalFile) (written : GoalFile)
    (h : setGoal git text file = .ok written) (hnonempty : strip text ≠ []) :
    getGoal (some written) = strip text ↔ GoalSurvives (strip text) := by
  obtain ⟨content, hcontent, hsize, rfl⟩ := setGoal_ok h
  rw [getGoal_rendered hnonempty hcontent hsize]
  exact ⟨survives_of_goalLines hnonempty, goalLines_of_survives (strip_strip text)⟩

def localGit : GoalGit where
  isGit := false
  hasRemote := false
  pull := .ok
  commit := .ok ()
  push := .ok ()

theorem getGoal_setGoal_plain :
    ∃ written, setGoal localGit (lit " ship\n* docs ") none = .ok written ∧
      getGoal (some written) = strip (lit " ship\n* docs ") := by
  have haccepted : setGoal localGit (lit " ship\n* docs ") none =
      .ok ⟨true, 1, (lit "# TEAM GOAL\n\nship\n* docs\n").map fun c => UInt8.ofNat c.val⟩ := by rfl
  refine ⟨_, haccepted, (getGoal_setGoal_iff localGit _ none _ haccepted (by decide)).mpr ?_⟩
  decide

/-- A line of the goal that begins like a heading is gone when the goal is read. -/
theorem heading_lost :
    ∃ written, setGoal localGit (lit "ship\n# Step 1\ndocs") none = .ok written ∧
      getGoal (some written) = lit "ship\ndocs" ∧
      getGoal (some written) ≠ strip (lit "ship\n# Step 1\ndocs") := by
  have haccepted : setGoal localGit (lit "ship\n# Step 1\ndocs") none =
      .ok ⟨true, 1, (lit "# TEAM GOAL\n\nship\n# Step 1\ndocs\n").map fun c => UInt8.ofNat c.val⟩ := by
    rfl
  obtain ⟨content, hcontent, hsize, heq⟩ := setGoal_ok haccepted
  refine ⟨_, haccepted, ?_⟩
  rw [heq, getGoal_rendered (by decide) hcontent hsize]
  exact ⟨by decide, by decide⟩

end Rdap.Memory
