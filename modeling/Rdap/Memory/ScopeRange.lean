import Rdap.Memory.ScopeCheck
import Rdap.Python.Raise

/-!
# Accepted ranges

From the answer of the check back to what Git printed, and from there to the commits.
-/

set_option autoImplicit false

namespace Rdap.Memory
open Python Lib Identity

/-! ## Commands that succeeded -/

section
variable {git : Git} {repr : PyStr → PyStr}

theorem gitChecked_ok {args : List PyStr} {raw : PyStr} (h : gitChecked git args = .ok raw) :
    ∃ r out rest, git args = .ok r ∧ r.returncode = 0 ∧ encodeUtf8 out = .ok r.stdout ∧
      raw = strip (translateNewlines out ++ rest) := by
  simp only [gitChecked, decodeText, bind_ok, pure_ok] at h
  obtain ⟨r, hr, _, ⟨out, hout, rfl⟩, _, ⟨err, _, rfl⟩, h⟩ := h
  split at h
  · cases h
  · rename_i hcode
    rw [pure_ok] at h
    exact ⟨r, out, _, hr, not_not.mp hcode, decodeUtf8_ok hout, h.symm⟩

/-- What the check sees of the records of an output. -/
def seenAll : List PyStr → List PyStr
  | [] => []
  | t :: texts => seen true t :: texts.map (seen false)

theorem gitChecked_records {args : List PyStr} {raw : PyStr} {records : List Bytes}
    (h : gitChecked git args = .ok raw)
    (hout : ∀ r, git args = .ok r → r.returncode = 0 → r.stdout = terminated 0 records)
    (hzero : ∀ p ∈ records, (0 : UInt8) ∉ p) :
    ∃ texts, List.Forall₂ (fun p t => encodeUtf8 t = .ok p) records texts ∧
      ∀ record ∈ seenAll texts, record ∈ raw.splitOn 0 := by
  obtain ⟨r, out, rest, hr, hcode, hencoded, rfl⟩ := gitChecked_ok h
  rw [hout r hr hcode] at hencoded
  obtain ⟨texts, rfl, hclean, htexts⟩ := encodeUtf8_terminated hencoded hzero
  refine ⟨texts, htexts, ?_⟩
  have hseen : ∀ t ∈ texts.map translateNewlines, (0 : CodePoint) ∉ t := by
    intro t ht hmem
    obtain ⟨u, hu, rfl⟩ := List.mem_map.mp ht
    exact hclean u hu ((translateNewlines_mem (by decide)).mp hmem).1
  rw [translateNewlines_terminated]
  cases texts with
  | nil => simp [seenAll]
  | cons t texts =>
    have hfirst : ∀ u ∈ (translateNewlines t).dropWhile isSpace :: texts.map translateNewlines,
        (0 : CodePoint) ∉ u := by
      rw [List.map_cons, List.forall_mem_cons] at hseen
      exact List.forall_mem_cons.mpr ⟨fun hmem => hseen.1 (List.dropWhile_subset _ hmem), hseen.2⟩
    rw [List.map_cons, strip_terminated, splitOn_terminated _ hfirst]
    intro record hrecord
    apply List.mem_append_left
    exact hrecord

/-! ## Trees -/

/-- A file with an ordinary mode, or a directory. -/
def TreeEntry.Ordinary (e : TreeEntry) : Prop :=
  (e.mode.text = lit "100644" ∨ e.mode.text = lit "100755") ∧ e.kind.text = lit "blob" ∨
    e.mode.text = lit "040000" ∧ e.kind.text = lit "tree"

def TreeEntry.metadata (e : TreeEntry) : PyStr :=
  e.mode.text ++ 32 :: (e.kind.text ++ 32 :: e.object.text)

theorem TreeEntry.metadata_plain (e : TreeEntry) : ∀ c ∈ e.metadata ++ [9],
    isAscii c = true ∧ c ≠ 0 ∧ c ≠ 10 ∧ c ≠ 13 := by
  have htoken : ∀ (a : Token), ∀ c ∈ a.text, isAscii c = true ∧ c ≠ 0 ∧ c ≠ 10 ∧ c ≠ 13 := by
    intro a c hc
    have hvisible := a.visible c hc
    refine ⟨?_, ?_, ?_, ?_⟩
    · simp only [isAscii, decide_eq_true_eq]
      omega
    · rintro rfl
      simp at hvisible
    · rintro rfl
      simp at hvisible
    · rintro rfl
      simp at hvisible
  intro c hc
  simp only [TreeEntry.metadata, List.mem_append, List.mem_cons, List.not_mem_nil, or_false] at hc
  rcases hc with (hc | rfl | hc | rfl | hc) | rfl
  · exact htoken _ c hc
  · decide
  · exact htoken _ c hc
  · decide
  · exact htoken _ c hc
  · decide

theorem TreeEntry.metadata_noTab (e : TreeEntry) : (9 : CodePoint) ∉ e.metadata := by
  have htoken : ∀ a : Token, (9 : CodePoint) ∉ a.text := by
    intro a hc
    have hvisible := a.visible 9 hc
    simp at hvisible
  simp [TreeEntry.metadata, htoken]

/-- The line of an entry is seen as it is, but for line ends in the path. -/
theorem TreeEntry.seen_line {e : TreeEntry} {t : PyStr} (h : encodeUtf8 t = .ok e.line)
    (first : Bool) : ∃ path, seen first t = e.metadata ++ 9 :: path := by
  have hplain := e.metadata_plain
  have hascii : (e.metadata ++ [9]).all isAscii = true :=
    List.all_eq_true.mpr fun c hc => (hplain c hc).1
  have hline : e.line = asciiBytes (e.metadata ++ [9]) ++ e.path.bytes := by
    rw [asciiBytes_append, List.append_assoc]
    rfl
  rw [hline] at h
  obtain ⟨path, rfl, _⟩ := encodeUtf8_ascii_prefix hascii h
  have htranslate : translateNewlines (e.metadata ++ [9] ++ path) =
      e.metadata ++ 9 :: translateNewlines path := by
    rw [translateNewlines_unbroken_append fun c hc => (hplain c hc).2.2]
    simp
  refine ⟨translateNewlines path, ?_⟩
  unfold seen
  rw [htranslate]
  split
  · obtain ⟨c, rest, hmode⟩ := List.exists_cons_of_ne_nil e.mode.nonempty
    have hc : isSpace c = false := e.mode.not_space (by simp [hmode])
    simp only [TreeEntry.metadata, hmode, List.cons_append, List.dropWhile_cons, hc]
    rfl
  · rfl

theorem TreeEntry.ordinary_of_validated {e : TreeEntry} {revision path : PyStr}
    (h : validateRecord repr revision (e.metadata ++ 9 :: path) = .ok ()) : e.Ordinary := by
  unfold validateRecord at h
  rw [if_neg (by simp), partition_at e.metadata_noTab] at h
  simp only [TreeEntry.metadata, splitWords_three] at h
  split at h
  · rename_i hkind
    unfold TreeEntry.Ordinary
    simp only [isRegularBlob, isOrdinaryTree, Bool.or_eq_true, Bool.and_eq_true, beq_iff_eq] at hkind
    rcases hkind with ⟨⟨hmode, hblob⟩, _⟩ | ⟨⟨hmode, htree⟩, _⟩
    · exact Or.inl ⟨hmode, hblob⟩
    · exact Or.inr ⟨hmode, htree⟩
  · cases h

theorem mem_seenAll {records : List Bytes} {texts : List PyStr} {p : Bytes}
    (htexts : List.Forall₂ (fun p t => encodeUtf8 t = .ok p) records texts) (hp : p ∈ records) :
    ∃ first t, encodeUtf8 t = .ok p ∧ seen first t ∈ seenAll texts := by
  have hrest : ∀ {records : List Bytes} {texts : List PyStr},
      List.Forall₂ (fun p t => encodeUtf8 t = .ok p) records texts → p ∈ records →
      ∃ t, encodeUtf8 t = .ok p ∧ t ∈ texts := by
    intro records texts htexts hp
    induction htexts with
    | nil => cases hp
    | cons hhead _ ih =>
      rcases List.mem_cons.mp hp with rfl | hp
      · exact ⟨_, hhead, List.mem_cons_self⟩
      · obtain ⟨t, ht, hmem⟩ := ih hp
        exact ⟨t, ht, List.mem_cons_of_mem _ hmem⟩
  cases htexts with
  | nil => cases hp
  | cons hhead htail =>
    rcases List.mem_cons.mp hp with rfl | hp
    · exact ⟨true, _, hhead, List.mem_cons_self⟩
    · obtain ⟨t, ht, hmem⟩ := hrest htail hp
      exact ⟨false, t, ht, List.mem_cons_of_mem _ (List.mem_map_of_mem hmem)⟩

theorem TreeEntry.line_noNul (e : TreeEntry) : (0 : UInt8) ∉ e.line := by
  have hmetadata : (0 : UInt8) ∉ asciiBytes (e.metadata ++ [9]) := by
    intro hmem
    obtain ⟨c, hc, hzero⟩ := List.mem_map.mp hmem
    obtain ⟨hascii, hne, _⟩ := e.metadata_plain c hc
    have hval := congrArg UInt8.toNat hzero
    simp only [UInt8.toNat_ofNat', isAscii, decide_eq_true_eq] at hval hascii
    have h0 : UInt8.toNat 0 = 0 := rfl
    rw [h0] at hval
    apply hne
    apply Fin.ext
    show c.val = 0
    omega
  have hline : e.line = asciiBytes (e.metadata ++ [9]) ++ e.path.bytes := by
    rw [asciiBytes_append, List.append_assoc]
    rfl
  rw [hline, List.mem_append, not_or]
  exact ⟨hmetadata, e.path.noNul⟩

variable {repo : Repository} {older newer : Token} {listing : Token → List GitPath}

theorem tree_ordinary (hgit : Documented git repo older newer listing) {c : Token}
    (h : validateTreeTeamEntries repr git c.text = .ok ()) {e : TreeEntry} (he : e ∈ repo.tree c)
    (hshared : IsSharedEntry e.path.bytes) : e.Ordinary := by
  simp only [validateTreeTeamEntries, bind_ok] at h
  obtain ⟨raw, hraw, hrecords⟩ := h
  obtain ⟨r, _, _, hr, hcode, _, _⟩ := gitChecked_ok hraw
  obtain ⟨entries, hentries, hstdout⟩ := hgit.lsTree c r hr hcode
  have hzero : ∀ p ∈ entries.map TreeEntry.line, (0 : UInt8) ∉ p := by
    intro p hp
    obtain ⟨e', _, rfl⟩ := List.mem_map.mp hp
    exact e'.line_noNul
  obtain ⟨texts, htexts, hsplit⟩ := gitChecked_records hraw
    (fun r' hr' _ => by rw [← Except.ok.inj (hr.symm.trans hr'), hstdout]) hzero
  have hmem := (hentries e).mpr ⟨he, Or.inl hshared⟩
  obtain ⟨first, t, ht, hseen⟩ := mem_seenAll htexts (List.mem_map_of_mem hmem)
  obtain ⟨path, hpath⟩ := TreeEntry.seen_line ht first
  have hvalid := forM_ok_iff.mp hrecords _ (hsplit _ hseen)
  rw [hpath] at hvalid
  exact TreeEntry.ordinary_of_validated hvalid

/-! ## Listings -/

/-- A path whose text is disguised. -/
def DisguisedPath (first : Bool) (p : GitPath) : Prop :=
  ∃ s, encodeUtf8 s = .ok p.bytes ∧ Disguised first s

/-- No path that is printed is disguised; blanks in front only matter for the first one. -/
def Undisguised : List GitPath → Prop
  | [] => True
  | p :: rest => ¬ DisguisedPath true p ∧ ∀ q ∈ rest, ¬ DisguisedPath false q

theorem encodeUtf8_last {s : PyStr} {b : Bytes} (h : encodeUtf8 s = .ok b)
    (hlast : s.getLast? = some 47) : b.getLast? = some 47 := by
  obtain ⟨t, rfl⟩ := List.getLast?_eq_some_iff.mp hlast
  obtain ⟨bt, bc, _, hc, rfl⟩ := encodeUtf8_append.mp h
  have hslash : encodeUtf8 [47] = .ok [47] := by decide
  obtain rfl := Except.ok.inj (hslash.symm.trans hc)
  simp

/-- A path that was let through is in scope unless it is disguised. -/
theorem path_inScope_iff {p : GitPath} {first : Bool} {t : PyStr} (ht : encodeUtf8 t = .ok p.bytes)
    (h : seen first t = [] ∨ isSharedTeamPath (seen first t) = true) :
    InScope p.bytes ↔ ¬ DisguisedPath first p := by
  have hne : t ≠ [] := by
    rintro rfl
    exact p.nonempty (Except.ok.inj ht).symm
  have hslash : t.getLast? ≠ some 47 := fun hlast => p.noTrailingSlash (encodeUtf8_last ht hlast)
  rw [inScope_iff ht, inScope_iff_not_disguised hne hslash h]
  refine not_congr ⟨fun hdisguised => ⟨t, ht, hdisguised⟩, ?_⟩
  rintro ⟨s, hs, hdisguised⟩
  rwa [encodeUtf8_injective ht hs]

theorem listing_inScope_iff (hgit : Documented git repo older newer listing) {c : Token}
    (h : checkRevision repr git c.text = .ok ()) :
    (∀ p ∈ listing c, InScope p.bytes) ↔ Undisguised (listing c) := by
  simp only [checkRevision, bind_ok] at h
  obtain ⟨_, _, raw, hraw, h⟩ := h
  have hpassed : ∀ record ∈ raw.splitOn 0, record = [] ∨ isSharedTeamPath record = true := by
    split at h
    · cases h
    · rename_i hnone
      intro record hrecord
      have := List.filter_eq_nil_iff.mp (not_not.mp hnone) record hrecord
      simpa [or_iff_not_imp_left] using this
  have hzero : ∀ p ∈ (listing c).map GitPath.bytes, (0 : UInt8) ∉ p := by
    intro p hp
    obtain ⟨q, _, rfl⟩ := List.mem_map.mp hp
    exact q.noNul
  obtain ⟨texts, htexts, hsplit⟩ := gitChecked_records hraw (fun r => hgit.diffTree c r) hzero
  have hseen := fun record hrecord => hpassed record (hsplit record hrecord)
  clear hsplit hpassed hzero hraw
  cases hlisting : listing c with
  | nil => simp [Undisguised]
  | cons p rest =>
    rw [hlisting, List.map_cons] at htexts
    cases htexts with
    | cons hhead htail =>
      rename_i t texts
      have hfirst := path_inScope_iff hhead (hseen _ List.mem_cons_self)
      have hothers : ∀ q ∈ rest, (InScope q.bytes ↔ ¬ DisguisedPath false q) := by
        have hlet : ∀ u ∈ texts, seen false u = [] ∨ isSharedTeamPath (seen false u) = true :=
          fun u hu => hseen _ (List.mem_cons_of_mem _ (List.mem_map_of_mem hu))
        clear hseen hlisting
        induction rest generalizing texts with
        | nil => simp
        | cons q rest ih =>
          rw [List.map_cons] at htail
          cases htail with
          | cons hq hrest =>
            rw [List.forall_mem_cons] at hlet
            exact List.forall_mem_cons.mpr ⟨path_inScope_iff hq hlet.1, ih hrest hlet.2⟩
      rw [List.forall_mem_cons, hfirst]
      exact and_congr_right fun _ => forall₂_congr hothers

/-! ## Ranges -/

theorem checkRevision_of_range (hgit : Documented git repo older newer listing)
    (haccepted : rangeIsTeamOnly repr git (older.text ++ lit ".." ++ newer.text) = .ok ())
    {c : Token} (hc : c ∈ repo.range older newer) : checkRevision repr git c.text = .ok () := by
  simp only [rangeIsTeamOnly, bind_ok] at haccepted
  obtain ⟨raw, hraw, h⟩ := haccepted
  split at h
  · cases h
  · obtain ⟨r, out, rest, hr, hcode, hout, rfl⟩ := gitChecked_ok hraw
    obtain ⟨commits, hcommits, hstdout⟩ := hgit.revList r hr hcode
    have hlines : ∀ commits : List Token,
        encodeUtf8 (terminated 10 (commits.map Token.text)) =
          .ok (terminated 10 (commits.map fun c => asciiBytes c.text)) := by
      intro commits
      induction commits with
      | nil => rfl
      | cons a commits ih =>
        rw [List.map_cons, List.map_cons, terminated_cons, terminated_cons]
        have hlf : encodeUtf8 [10] = .ok [10] := by decide
        exact encodeUtf8_append.mpr ⟨_, _, encodeUtf8_ascii a.ascii,
          encodeUtf8_append.mpr ⟨_, _, hlf, ih, rfl⟩, rfl⟩
    obtain rfl : out = terminated 10 (commits.map Token.text) :=
      encodeUtf8_injective (hout.trans (congrArg _ hstdout)) (hlines commits)
    have htranslate : ∀ commits : List Token, translateNewlines
        (terminated 10 (commits.map Token.text)) = terminated 10 (commits.map Token.text) := by
      intro commits
      induction commits with
      | nil => rfl
      | cons a commits ih =>
        rw [List.map_cons, terminated_cons, translateNewlines_unbroken_append a.unbroken,
          translateNewlines, if_pos (by decide), ih]
    rw [htranslate] at h
    exact forM_ok_iff.mp h _ (mem_splitLines ((hcommits c).mpr hc))

/-- Every path that the commits of a range touch is in scope, every shared entry of their trees
is ordinary, and a fast-forward along the range stays in scope. -/
structure TouchesOnlyTeam (repo : Repository) (older newer : Token) : Prop where
  trees : ∀ c ∈ repo.range older newer, ∀ e ∈ repo.tree c, IsSharedEntry e.path.bytes → e.Ordinary
  touched : ∀ c ∈ repo.range older newer, ∀ p, repo.Touches c p → InScope p.bytes
  forwarded : Reaches repo.IsParent newer older →
    ∀ p, Differs (repo.tree older) (repo.tree newer) p → InScope p.bytes

/-- An accepted range touches nothing but team paths if and only if no commit of it prints a
disguised path. -/
theorem accepted_range_in_scope_iff (hgit : Documented git repo older newer listing)
    (haccepted : rangeIsTeamOnly repr git (older.text ++ lit ".." ++ newer.text) = .ok ()) :
    TouchesOnlyTeam repo older newer ↔ ∀ c ∈ repo.range older newer, Undisguised (listing c) := by
  have hcheck := fun c hc => checkRevision_of_range hgit haccepted (c := c) hc
  constructor
  · intro h c hc
    exact (listing_inScope_iff hgit (hcheck c hc)).mp fun p hp =>
      h.touched c hc p ((hgit.listed c p).mp hp)
  · intro h
    have htouched : ∀ c ∈ repo.range older newer, ∀ p, repo.Touches c p → InScope p.bytes :=
      fun c hc p hp => (listing_inScope_iff hgit (hcheck c hc)).mpr (h c hc) p
        ((hgit.listed c p).mpr hp)
    refine ⟨?_, htouched, ?_⟩
    · intro c hc e he hshared
      have hvalid := hcheck c hc
      simp only [checkRevision, bind_ok] at hvalid
      obtain ⟨_, htree, _⟩ := hvalid
      exact tree_ordinary hgit htree he hshared
    · intro hline p hdiffers
      obtain ⟨c, q, hbetween, hparent, hchange⟩ := exists_change_between repo.acyclic hline
        (fun v => entriesAt (repo.tree v) p) hdiffers
      exact htouched c hbetween p (Or.inr ⟨q, hparent, hchange⟩)

end

namespace Sample

def wordOf (s : PyStr) (h : s ≠ [] ∧ (s.all fun c => 33 ≤ c.val && c.val < 127) = true) : Token where
  text := s
  nonempty := h.1
  visible := fun c hc => by simpa using List.all_eq_true.mp h.2 c hc

def pathOf (bytes : Bytes) (h : bytes ≠ [] ∧ (0 : UInt8) ∉ bytes ∧ bytes.getLast? ≠ some 47) :
    GitPath := ⟨bytes, h.1, h.2.1, h.2.2⟩

theorem visible_a : lit "a" ≠ [] ∧
    ((lit "a").all fun c => 33 ≤ c.val && c.val < 127) = true := by decide
theorem visible_b : lit "b" ≠ [] ∧
    ((lit "b").all fun c => 33 ≤ c.val && c.val < 127) = true := by decide
theorem visible_file : lit "100644" ≠ [] ∧
    ((lit "100644").all fun c => 33 ≤ c.val && c.val < 127) = true := by decide
theorem visible_blob : lit "blob" ≠ [] ∧
    ((lit "blob").all fun c => 33 ≤ c.val && c.val < 127) = true := by decide

theorem path_blank : asciiBytes (lit " ") ≠ [] ∧ (0 : UInt8) ∉ asciiBytes (lit " ") ∧
    (asciiBytes (lit " ")).getLast? ≠ some 47 := by decide
theorem path_goal : asciiBytes (lit ".team/GOAL.md") ≠ [] ∧
    (0 : UInt8) ∉ asciiBytes (lit ".team/GOAL.md") ∧
    (asciiBytes (lit ".team/GOAL.md")).getLast? ≠ some 47 := by decide

def a : Token := wordOf (lit "a") visible_a
def b : Token := wordOf (lit "b") visible_b
def blob (path : GitPath) : TreeEntry :=
  ⟨wordOf (lit "100644") visible_file, wordOf (lit "blob") visible_blob, a, path⟩

/-- A file at the top whose name is a blank. -/
def blank : GitPath := pathOf (asciiBytes (lit " ")) path_blank
def goal : GitPath := pathOf (asciiBytes (lit ".team/GOAL.md")) path_goal

theorem acyclic : WellFounded fun q c : Token => q ∈ if c = b then [a] else [] := by
  apply Subrelation.wf (r := fun q c : Token => (if q = b then 1 else 0) < if c = b then 1 else 0)
  · intro q c h
    by_cases hc : c = b
    · rw [if_pos hc, List.mem_singleton] at h
      subst h
      rw [if_pos hc, if_neg (by decide)]
      exact Nat.one_pos
    · rw [if_neg hc] at h
      cases h
  · exact InvImage.wf _ Nat.lt_wfRel.wf

/-- The second commit adds files to an empty tree. -/
def repo (entries : List TreeEntry) : Repository where
  parents c := if c = b then [a] else []
  acyclic := acyclic
  tree c := if c = b then entries else []

/-- What Git prints of the range: the paths touched, and of the tree what is shared. -/
def git (shared touched : List Bytes) : Git := fun args =>
  if args = revListArgs (lit "a..b") then .ok ⟨0, asciiBytes (lit "b\n"), []⟩
  else if args = lsTreeArgs (lit "b") then .ok ⟨0, terminated 0 shared, []⟩
  else if args = diffTreeArgs (lit "b") then .ok ⟨0, terminated 0 touched, []⟩
  else gitError (lit "unknown revision")

theorem a_ne_b : a ≠ b := by decide

theorem mem_range (entries : List TreeEntry) (c : Token) : c ∈ (repo entries).range a b ↔ c = b := by
  constructor
  · rintro ⟨hreach, hnew⟩
    rcases Relation.ReflTransGen.cases_head hreach with rfl | ⟨q, hq, hrest⟩
    · rfl
    · have hq' : q ∈ if b = b then [a] else [] := hq
      rw [if_pos rfl, List.mem_singleton] at hq'
      exact absurd (hq' ▸ hrest) hnew
  · rintro rfl
    refine ⟨.refl, fun hreach => ?_⟩
    rcases Relation.ReflTransGen.cases_head hreach with h | ⟨q, hq, _⟩
    · exact a_ne_b h
    · have hq' : q ∈ if a = b then [a] else [] := hq
      rw [if_neg a_ne_b] at hq'
      cases hq'

theorem blob_not_tree (p : GitPath) : ¬ (blob p).isTree := by
  show lit "blob" ≠ lit "tree"
  decide

theorem differs_iff (files : List GitPath) (p : GitPath) :
    Differs [] (files.map blob) p ↔ p ∈ files := by
  have hempty : entriesAt [] p = ∅ := by
    ext e
    simp [entriesAt]
  unfold Differs
  rw [hempty, ne_comm, ← Set.nonempty_iff_ne_empty]
  constructor
  · rintro ⟨e, he, rfl, _⟩
    obtain ⟨q, hq, rfl⟩ := List.mem_map.mp he
    exact hq
  · intro hp
    exact ⟨blob p, List.mem_map_of_mem hp, rfl, blob_not_tree p⟩

theorem touches_iff (files : List GitPath) (c : Token) (p : GitPath) :
    (repo (files.map blob)).Touches c p ↔ p ∈ if c = b then files else [] := by
  by_cases hc : c = b
  · subst hc
    simp [Repository.Touches, repo, a_ne_b, differs_iff]
  · simp [Repository.Touches, repo, hc, Differs]

theorem args_ne (revision other : PyStr) : lsTreeArgs revision ≠ revListArgs other ∧
    diffTreeArgs revision ≠ revListArgs other ∧ diffTreeArgs revision ≠ lsTreeArgs other := by
  refine ⟨?_, ?_, ?_⟩ <;> intro h <;> exact absurd (List.cons.inj h).1 (by decide)

/-- The commands of the sample print what Git documents. -/
theorem documented (files shared : List GitPath)
    (hshared : ∀ p, p ∈ shared ↔ p ∈ files ∧ IsSharedEntry p.bytes) :
    Documented (git (shared.map fun p => (blob p).line) (files.map GitPath.bytes))
      (repo (files.map blob)) a b (fun c => if c = b then files else []) where
  revList r hr _ := by
    have hrange : revListArgs (a.text ++ lit ".." ++ b.text) = revListArgs (lit "a..b") := by
      decide
    rw [git, if_pos hrange] at hr
    refine ⟨[b], fun c => by rw [List.mem_singleton, mem_range], ?_⟩
    rw [← Except.ok.inj hr]
    decide
  lsTree c r hr _ := by
    rw [git, if_neg (args_ne _ _).1] at hr
    split at hr
    · rename_i hargs
      have hc : c = b := by
        have htext : c.text = lit "b" := by simpa [lsTreeArgs] using hargs
        cases c
        subst htext
        rfl
      subst hc
      refine ⟨shared.map blob, fun e => ?_, ?_⟩
      · have htree : (repo (files.map blob)).tree b = files.map blob := by simp [repo]
        rw [htree]
        simp only [List.mem_map]
        constructor
        · rintro ⟨p, hp, rfl⟩
          exact ⟨⟨p, ((hshared p).mp hp).1, rfl⟩, Or.inl ((hshared p).mp hp).2⟩
        · rintro ⟨⟨p, hp, rfl⟩, hentry | ⟨htree, _⟩⟩
          · exact ⟨p, (hshared p).mpr ⟨hp, hentry⟩, rfl⟩
          · exact absurd htree (blob_not_tree p)
      · rw [← Except.ok.inj hr, List.map_map]
        rfl
    · rw [if_neg fun h => (args_ne _ c.text).2.2 h.symm] at hr
      cases hr
  listed c p := by rw [touches_iff]
  diffTree c r hr _ := by
    rw [git, if_neg (args_ne _ _).2.1, if_neg (args_ne _ _).2.2] at hr
    split at hr
    · rename_i hargs
      have hc : c = b := by
        have htext : c.text = lit "b" := by simpa [diffTreeArgs] using hargs
        cases c
        subst htext
        rfl
      rw [← Except.ok.inj hr, if_pos hc]
    · cases hr

theorem not_shared : ¬ IsSharedEntry blank.bytes ∧ IsSharedEntry goal.bytes := by
  unfold IsSharedEntry
  decide

end Sample

/-- A file whose name is a blank, at the top of the repository, is stripped away. -/
theorem blank_path_accepted :
    Documented (Sample.git [] [Sample.blank.bytes]) (Sample.repo [Sample.blob Sample.blank])
      Sample.a Sample.b (fun c => if c = Sample.b then [Sample.blank] else []) ∧
    rangeIsTeamOnly id (Sample.git [] [Sample.blank.bytes])
      (Sample.a.text ++ lit ".." ++ Sample.b.text) = .ok () ∧
    ¬ TouchesOnlyTeam (Sample.repo [Sample.blob Sample.blank]) Sample.a Sample.b := by
  refine ⟨?_, by decide, fun h => ?_⟩
  · apply Sample.documented [Sample.blank] []
    intro p
    rw [List.mem_singleton]
    constructor
    · intro hp
      cases hp
    · rintro ⟨rfl, hshared⟩
      exact absurd hshared Sample.not_shared.1
  · have htouched := h.touched Sample.b ((Sample.mem_range _ _).mpr rfl) Sample.blank
      ((Sample.touches_iff [Sample.blank] _ _).mpr (by simp))
    have htext : encodeUtf8 (lit " ") = .ok Sample.blank.bytes := by decide
    exact absurd (inScope_starts ((inScope_iff htext).mp htouched)) (by decide)

theorem accepted_range_in_scope_iff_sample :
    TouchesOnlyTeam (Sample.repo [Sample.blob Sample.goal]) Sample.a Sample.b := by
  have hgit : Documented (Sample.git [(Sample.blob Sample.goal).line] [Sample.goal.bytes])
      (Sample.repo [Sample.blob Sample.goal]) Sample.a Sample.b
      (fun c => if c = Sample.b then [Sample.goal] else []) := by
    apply Sample.documented [Sample.goal] [Sample.goal]
    intro p
    rw [List.mem_singleton]
    constructor
    · rintro rfl
      exact ⟨rfl, Sample.not_shared.2⟩
    · exact fun h => h.1
  have haccepted : rangeIsTeamOnly id
      (Sample.git [(Sample.blob Sample.goal).line] [Sample.goal.bytes])
      (Sample.a.text ++ lit ".." ++ Sample.b.text) = .ok () := by decide
  refine (accepted_range_in_scope_iff hgit haccepted).mpr fun c hc => ?_
  rw [(Sample.mem_range _ _).mp hc, if_pos rfl]
  have htext : encodeUtf8 (lit ".team/GOAL.md") = .ok Sample.goal.bytes := by decide
  have hscope : TextInScope (lit ".team/GOAL.md") := by
    refine Or.inl ?_
    decide
  refine ⟨?_, by simp⟩
  rintro ⟨s, hs, hdisguised⟩
  rw [encodeUtf8_injective hs htext] at hdisguised
  exact not_disguised_of_inScope hscope hdisguised

end Rdap.Memory
