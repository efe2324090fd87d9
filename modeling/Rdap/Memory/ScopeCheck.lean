import Rdap.Memory.GitScope

/-!
# What the scope check lets through

The check sees a path after its bytes were decoded, the ends of the whole output stripped and
backslashes turned. A path that it accepts is in scope unless one of these steps disguised it.
-/

set_option autoImplicit false

namespace Rdap.Memory
open Python Lib Identity

/-! ## Exact paths and their texts -/

/-- The exact path is a shared file or strictly below a shared directory. -/
def InScope (p : Bytes) : Prop :=
  (∃ file ∈ teamSharedFiles, p = asciiBytes file) ∨
    ∃ dir ∈ teamSharedDirs, ∃ name, name ≠ [] ∧ p = asciiBytes dir ++ 47 :: name

def TextInScope (s : PyStr) : Prop :=
  s ∈ teamSharedFiles ∨ ∃ dir ∈ teamSharedDirs, ∃ name, name ≠ [] ∧ s = dir ++ 47 :: name

theorem encodeUtf8_ascii {w : PyStr} (hw : w.all isAscii = true) :
    encodeUtf8 w = .ok (asciiBytes w) := by
  induction w with
  | nil => rfl
  | cons c w ih =>
    rw [List.all_cons, Bool.and_eq_true] at hw
    obtain ⟨b, hb, _⟩ := encodeUtf8_of_ascii (s := [c]) (by simp [hw.1])
    have hsmall : c.val < 128 := by simpa [isAscii] using hw.1
    rcases encodeUtf8_singleton hb with ⟨_, rfl⟩ | ⟨hlarge, _⟩
    · exact encodeUtf8_append.mpr ⟨_, _, hb, ih hw.2, rfl⟩
    · omega

/-- Bytes that begin with an ASCII text are a text that begins with it. -/
theorem encodeUtf8_ascii_prefix {w s : PyStr} {rest : Bytes} (hw : w.all isAscii = true)
    (h : encodeUtf8 s = .ok (asciiBytes w ++ rest)) :
    ∃ t, s = w ++ t ∧ encodeUtf8 t = .ok rest := by
  induction w generalizing s with
  | nil => exact ⟨s, rfl, h⟩
  | cons a w ih =>
    rw [List.all_cons, Bool.and_eq_true] at hw
    have ha : a.val < 128 := by simpa [isAscii] using hw.1
    cases s with
    | nil =>
      have hnil := (encodeUtf8_ok h).2
      simp [asciiBytes] at hnil
    | cons c s =>
      obtain ⟨bc, bs, hc, hs, heq⟩ := encodeUtf8_append.mp (show encodeUtf8 ([c] ++ s) = _ from h)
      rcases encodeUtf8_singleton hc with ⟨hsmall, rfl⟩ | ⟨_, hne, hlarge⟩
      · obtain ⟨hbyte, hrest⟩ := List.cons.inj heq
        have hval := congrArg UInt8.toNat hbyte
        simp only [UInt8.toNat_ofNat'] at hval
        obtain rfl : a = c := Fin.ext (by omega)
        obtain ⟨t, rfl, ht⟩ := ih hw.2 (hs.trans (congrArg _ hrest.symm))
        exact ⟨t, rfl, ht⟩
      · obtain ⟨x, bc, rfl⟩ := List.exists_cons_of_ne_nil hne
        obtain ⟨rfl, _⟩ := List.cons.inj heq
        have := hlarge _ List.mem_cons_self
        simp only [UInt8.toNat_ofNat'] at this
        omega

theorem teamShared_ascii : (∀ file ∈ teamSharedFiles, file.all isAscii = true) ∧
    ∀ dir ∈ teamSharedDirs, (dir ++ [47]).all isAscii = true := by decide

theorem asciiBytes_append (s t : PyStr) : asciiBytes (s ++ t) = asciiBytes s ++ asciiBytes t :=
  List.map_append

theorem inScope_iff {p : Bytes} {s : PyStr} (h : encodeUtf8 s = .ok p) :
    InScope p ↔ TextInScope s := by
  have hfile : ∀ file ∈ teamSharedFiles, (p = asciiBytes file ↔ s = file) := by
    intro file hmem
    have hencoded := encodeUtf8_ascii (teamShared_ascii.1 file hmem)
    constructor
    · rintro rfl
      exact encodeUtf8_injective h hencoded
    · rintro rfl
      exact Except.ok.inj (h.symm.trans hencoded)
  have hdir : ∀ dir ∈ teamSharedDirs, ((∃ name, name ≠ [] ∧ p = asciiBytes dir ++ 47 :: name) ↔
      ∃ name, name ≠ [] ∧ s = dir ++ 47 :: name) := by
    intro dir hmem
    have hascii := teamShared_ascii.2 dir hmem
    have hencoded := encodeUtf8_ascii hascii
    have hslash : ∀ name, asciiBytes dir ++ 47 :: name = asciiBytes (dir ++ [47]) ++ name := by
      intro name
      rw [asciiBytes_append, List.append_assoc]
      rfl
    constructor
    · rintro ⟨name, hne, rfl⟩
      rw [hslash] at h
      obtain ⟨t, rfl, ht⟩ := encodeUtf8_ascii_prefix hascii h
      refine ⟨t, ?_, by simp⟩
      rintro rfl
      exact hne (Except.ok.inj ht).symm
    · rintro ⟨name, hne, rfl⟩
      have hsplit : dir ++ 47 :: name = (dir ++ [47]) ++ name := by simp
      rw [hsplit] at h
      obtain ⟨bd, bn, hbd, hbn, rfl⟩ := encodeUtf8_append.mp h
      obtain rfl := Except.ok.inj (hbd.symm.trans hencoded)
      refine ⟨bn, ?_, (hslash bn).symm⟩
      rintro rfl
      exact hne (encodeUtf8_injective hbn rfl)
  unfold InScope TextInScope
  refine or_congr ?_ (exists_congr fun dir => and_congr_right (hdir dir))
  constructor
  · rintro ⟨file, hmem, hp⟩
    rwa [(hfile file hmem).mp hp]
  · intro hmem
    exact ⟨s, hmem, (hfile s hmem).mpr rfl⟩

/-! ## Disguises -/

/-- How a path can pass the check for one that is in scope. -/
inductive Disguised (first : Bool) (s : PyStr) : Prop where
  /-- The first path of an output begins with a blank. -/
  | blank {c : CodePoint} {rest : PyStr} (hfirst : first = true) (hs : s = c :: rest)
      (hc : isSpace c = true)
  /-- The path begins with `./`, or with `.\`. -/
  | dotSlash (h : lit "./" <+: s.map toSlash)
  /-- The path is a shared directory, with slashes or backslashes. -/
  | directory (h : s.map toSlash ∈ teamSharedDirs)
  /-- The path is a shared file with backslashes. -/
  | backslashFile (hslash : (92 : CodePoint) ∈ s) (h : s.map toSlash ∈ teamSharedFiles)
  /-- A shared directory that the path seems to be below is written with backslashes. -/
  | backslashDir {dir : PyStr} (hdir : dir ∈ teamSharedDirs) (h : dir ++ [47] <+: s.map toSlash)
      (hslash : (92 : CodePoint) ∈ s.take (dir.length + 1))

theorem toSlash_of_ne {c : CodePoint} (hc : c ≠ 92) : toSlash c = c := if_neg hc

theorem map_toSlash_of_notMem {s : PyStr} (hs : (92 : CodePoint) ∉ s) : s.map toSlash = s := by
  refine (List.map_congr_left fun c hc => ?_).trans (List.map_id s)
  exact toSlash_of_ne fun h => hs (h ▸ hc)

theorem teamShared_plain : (∀ file ∈ teamSharedFiles, (92 : CodePoint) ∉ file) ∧
    ∀ dir ∈ teamSharedDirs, (92 : CodePoint) ∉ dir ++ [47] := by decide

/-- No shared path begins with a blank or with `./`. -/
theorem teamShared_starts : (∀ file ∈ teamSharedFiles, lit ".t" <+: file) ∧
    ∀ dir ∈ teamSharedDirs, lit ".t" <+: dir ++ [47] := by decide

theorem teamSharedFiles_not_below : ∀ file ∈ teamSharedFiles, file ∉ teamSharedDirs ∧
    ∀ dir ∈ teamSharedDirs, ¬ dir ++ [47] <+: file := by decide

theorem teamSharedDirs_not_below : ∀ dir ∈ teamSharedDirs, ∀ other ∈ teamSharedDirs,
    ¬ dir ++ [47] <+: other := by decide

theorem teamSharedDirs_distinct : ∀ dir ∈ teamSharedDirs, ∀ other ∈ teamSharedDirs,
    dir ++ [47] <+: other ++ [47] → dir = other := by decide

theorem teamShared_visible : (∀ file ∈ teamSharedFiles, Unbroken file) ∧
    ∀ dir ∈ teamSharedDirs, Unbroken (dir ++ [47]) := by
  decide

theorem toSlash_lineEnds : (∀ c : CodePoint, toSlash c = 10 ↔ c = 10) ∧
    ∀ c : CodePoint, toSlash c = 13 ↔ c = 13 := by
  constructor <;> intro c <;> unfold toSlash <;> split
  · rename_i h
    subst h
    decide
  · exact Iff.rfl
  · rename_i h
    subst h
    decide
  · exact Iff.rfl

theorem dropDotSlash_of_not {s : PyStr} (h : ¬ lit "./" <+: s) : dropDotSlash s = s := by
  match s with
  | [] => rfl
  | [c] => rfl
  | c :: d :: rest =>
    have hne : ¬ (c = 46 ∧ d = 47) := by
      rintro ⟨rfl, rfl⟩
      exact h ⟨rest, rfl⟩
    unfold dropDotSlash
    rw [if_neg hne]

/-- What the list test says of a path that does not begin with `./`. -/
theorem isSharedTeamPath_cases {s : PyStr} (hdot : ¬ lit "./" <+: s.map toSlash)
    (h : isSharedTeamPath (translateNewlines s) = true) :
    s.map toSlash ∈ teamSharedFiles ∨ s.map toSlash ∈ teamSharedDirs ∨
      ∃ dir ∈ teamSharedDirs, dir ++ [47] <+: s.map toSlash := by
  have hmap := translateNewlines_map toSlash_lineEnds.1 toSlash_lineEnds.2 s
  have hdots : Unbroken (lit "./") := by
    decide
  have hnot : ¬ lit "./" <+: translateNewlines (s.map toSlash) := fun hprefix' =>
    hdot ((translateNewlines_startsWith hdots _).mp hprefix')
  unfold isSharedTeamPath at h
  rw [← hmap, dropDotSlash_of_not hnot] at h
  simp only [Bool.or_eq_true, List.contains_iff_mem, List.any_eq_true, beq_iff_eq, startsWith,
    List.isPrefixOf_iff_prefix] at h
  rcases h with hfile | ⟨dir, hdir, hsame | hbelow⟩
  · refine Or.inl ?_
    rw [(translateNewlines_eq (teamShared_visible.1 _ hfile)).mp rfl]
    exact hfile
  · refine Or.inr (Or.inl ?_)
    have hunbroken : Unbroken dir := fun c hc =>
      teamShared_visible.2 dir hdir c (List.mem_append_left _ hc)
    rw [(translateNewlines_eq hunbroken).mp hsame]
    exact hdir
  · exact Or.inr (Or.inr ⟨dir, hdir, (translateNewlines_startsWith (teamShared_visible.2 dir hdir) _).mp
      hbelow⟩)

theorem prefix_map_toSlash {w s : PyStr} (hw : (92 : CodePoint) ∉ w) (h : w <+: s) :
    w <+: s.map toSlash := by
  obtain ⟨t, rfl⟩ := h
  exact ⟨t.map toSlash, by rw [List.map_append, map_toSlash_of_notMem hw]⟩

theorem below_iff {dir s : PyStr} : (∃ name, name ≠ [] ∧ s = dir ++ 47 :: name) ↔
    dir ++ [47] <+: s ∧ s ≠ dir ++ [47] := by
  constructor
  · rintro ⟨name, hne, rfl⟩
    exact ⟨⟨name, by simp⟩, by simpa using hne⟩
  · rintro ⟨⟨name, rfl⟩, hne⟩
    exact ⟨name, by simpa using hne, by simp⟩

theorem inScope_starts {s : PyStr} (h : TextInScope s) : lit ".t" <+: s := by
  rcases h with hfile | ⟨dir, hdir, hbelow⟩
  · exact teamShared_starts.1 s hfile
  · exact (teamShared_starts.2 dir hdir).trans (below_iff.mp hbelow).1

/-- A path in scope is not disguised. -/
theorem not_disguised_of_inScope {first : Bool} {s : PyStr} (h : TextInScope s) :
    ¬ Disguised first s := by
  intro hdisguised
  obtain ⟨tail, htail⟩ := inScope_starts h
  have hlit : lit ".t" = [46, 116] ∧ lit "./" = [46, 47] := by decide
  rw [hlit.1] at htail
  cases hdisguised with
  | blank _ hs hc =>
    rw [← htail] at hs
    obtain ⟨rfl, _⟩ := List.cons.inj hs
    exact absurd hc (by decide)
  | dotSlash hdot =>
    rw [← htail, hlit.2] at hdot
    simp [List.cons_prefix_cons, toSlash] at hdot
  | directory hdir =>
    rcases h with hfile | ⟨dir, hmem, hbelow⟩
    · rw [map_toSlash_of_notMem (teamShared_plain.1 s hfile)] at hdir
      exact (teamSharedFiles_not_below s hfile).1 hdir
    · exact teamSharedDirs_not_below dir hmem _ hdir
        (prefix_map_toSlash (teamShared_plain.2 dir hmem) (below_iff.mp hbelow).1)
  | backslashFile hslash hseen =>
    rcases h with hfile | ⟨dir, hmem, hbelow⟩
    · exact teamShared_plain.1 s hfile hslash
    · exact (teamSharedFiles_not_below _ hseen).2 dir hmem
        (prefix_map_toSlash (teamShared_plain.2 dir hmem) (below_iff.mp hbelow).1)
  | backslashDir hother hseen hslash =>
    rename_i other
    rcases h with hfile | ⟨dir, hmem, hbelow⟩
    · exact teamShared_plain.1 s hfile (List.mem_of_mem_take hslash)
    · have hplain := teamShared_plain.2 dir hmem
      have hstart := (below_iff.mp hbelow).1
      have hsame : dir = other := by
        rcases List.prefix_or_prefix_of_prefix (prefix_map_toSlash hplain hstart) hseen with h | h
        · exact teamSharedDirs_distinct dir hmem other hother h
        · exact (teamSharedDirs_distinct other hother dir hmem h).symm
      subst hsame
      have htake : s.take (dir.length + 1) = dir ++ [47] := by
        have := List.prefix_iff_eq_take.mp hstart
        simpa using this.symm
      exact hplain (htake ▸ hslash)

/-- A path that passes the list test undisguised is in scope. -/
theorem inScope_of_shared {s : PyStr} (hslash : s.getLast? ≠ some 47)
    (hplain : ¬ Disguised false s) (h : isSharedTeamPath (translateNewlines s) = true) :
    TextInScope s := by
  have hdot : ¬ lit "./" <+: s.map toSlash := fun h => hplain (.dotSlash h)
  rcases isSharedTeamPath_cases hdot h with hfile | hdir | ⟨dir, hmem, hbelow⟩
  · have hnone : (92 : CodePoint) ∉ s := fun h => hplain (.backslashFile h hfile)
    rw [map_toSlash_of_notMem hnone] at hfile
    exact Or.inl hfile
  · exact absurd (.directory hdir) hplain
  · have hnone : (92 : CodePoint) ∉ s.take (dir.length + 1) :=
      fun h => hplain (.backslashDir hmem hbelow h)
    have htake : s.take (dir.length + 1) = dir ++ [47] := by
      have hseen := List.prefix_iff_eq_take.mp hbelow
      rw [← List.map_take, map_toSlash_of_notMem (by simpa using hnone)] at hseen
      simpa using hseen.symm
    refine Or.inr ⟨dir, hmem, below_iff.mpr ⟨?_, ?_⟩⟩
    · rw [← htake]
      exact List.take_prefix _ _
    · rintro rfl
      exact hslash (by simp)

/-- What the check sees of a path: of the first one the blanks in front are gone. -/
def seen (first : Bool) (s : PyStr) : PyStr :=
  if first then (translateNewlines s).dropWhile isSpace else translateNewlines s

/-- The exact path that the check let through is in scope unless it was disguised. -/
theorem inScope_iff_not_disguised {first : Bool} {s : PyStr} (hne : s ≠ [])
    (hslash : s.getLast? ≠ some 47)
    (h : seen first s = [] ∨ isSharedTeamPath (seen first s) = true) :
    TextInScope s ↔ ¬ Disguised first s := by
  refine ⟨not_disguised_of_inScope, fun hplain => ?_⟩
  have hseen : seen first s = translateNewlines s := by
    cases first with
    | false => rfl
    | true =>
      obtain ⟨c, rest, rfl⟩ := List.exists_cons_of_ne_nil hne
      have hc : isSpace c = false := by
        cases hc : isSpace c with
        | false => rfl
        | true => exact absurd (.blank rfl rfl hc) hplain
      have hcr : c ≠ 13 := by
        rintro rfl
        exact absurd hc (by decide)
      unfold seen translateNewlines
      rw [if_pos rfl, if_pos hcr, List.dropWhile_cons, hc]
      rfl
  rw [hseen] at h
  rcases h with hnil | hshared
  · exact absurd (translateNewlines_nil_iff.mp hnil) hne
  · apply inScope_of_shared hslash _ hshared
    intro hdisguised
    apply hplain
    cases hdisguised with
    | blank hfirst _ _ => cases hfirst
    | dotSlash h => exact .dotSlash h
    | directory h => exact .directory h
    | backslashFile hslash h => exact .backslashFile hslash h
    | backslashDir hdir h hslash => exact .backslashDir hdir h hslash

end Rdap.Memory
