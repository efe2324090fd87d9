import Rdap.Lib.Parallel
import Rdap.Memory.ScopeRange
import Rdap.Memory.SyncCommands

/-!
# A shared branch and its clones

Every node has a head and refs of its own, and all share one branch on the remote. What a command does to
them is what Git documents; it may also fail, and a failed command may have done its work.
-/

set_option autoImplicit false

namespace Rdap.Memory
open Python Lib Identity

/-! ## What a check leaves of a commit -/

/-- Every path that the commit touches is in scope, if none of them prints as another one does, and the
shared entries of its tree are ordinary. -/
def Cleared (repo : Repository) (c : Token) : Prop :=
  ((∀ p, repo.Touches c p → ∀ first, ¬DisguisedPath first p) → ∀ p, repo.Touches c p → InScope p.bytes) ∧
    ∀ e ∈ repo.tree c, IsSharedEntry e.path.bytes → e.Ordinary

section
variable {git : Git} {repr : PyStr → PyStr} {repo : Repository} {older newer : Token}
  {listing : Token → List GitPath}

theorem undisguised_of_forall {paths : List GitPath} (h : ∀ p ∈ paths, ∀ first, ¬DisguisedPath first p) :
    Undisguised paths := by
  cases paths with
  | nil => trivial
  | cons p rest =>
    rw [List.forall_mem_cons] at h
    exact ⟨h.1 true, fun q hq => h.2 q hq false⟩

theorem cleared_of_range (hgit : Documented git repo older newer listing)
    (haccepted : rangeIsTeamOnly repr git (older.text ++ lit ".." ++ newer.text) = .ok ()) {c : Token}
    (hc : c ∈ repo.range older newer) : Cleared repo c := by
  have hcheck := checkRevision_of_range hgit haccepted hc
  constructor
  · intro hplain p hp
    have hall : ∀ q ∈ listing c, ∀ first, ¬DisguisedPath first q := fun q hq => hplain q ((hgit.listed c q).mp hq)
    exact (listing_inScope_iff hgit hcheck).mpr (undisguised_of_forall hall) p ((hgit.listed c p).mpr hp)
  · intro e he hshared
    simp only [checkRevision, bind_ok] at hcheck
    obtain ⟨_, htree, -⟩ := hcheck
    exact tree_ordinary hgit htree he hshared

end

/-! ## Ids that are printed -/

/-- The line of `rev-parse`. -/
def idLine (c : Token) : Bytes := asciiBytes c.text ++ [10]

/-- Output that begins with an id: whatever Git warns of stands after it. -/
def Reads (raw : PyStr) (c : Token) : Prop := raw.takeWhile (fun x => !isSpace x) = c.text

theorem takeWhile_token (c : Token) (rest : PyStr) :
    (c.text ++ 10 :: rest).takeWhile (fun x => !isSpace x) = c.text := by
  have hspace : (!isSpace 10) = false := by decide
  rw [List.takeWhile_append_of_pos fun x hx => by rw [c.not_space hx]; rfl,
    List.takeWhile_cons_of_neg (by rw [hspace]; exact Bool.false_ne_true), List.append_nil]

theorem token_ext {a b : Token} (h : a.text = b.text) : a = b := by
  cases a
  cases b
  cases h
  rfl

theorem Reads.unique {raw : PyStr} {a b : Token} (ha : Reads raw a) (hb : Reads raw b) : a = b :=
  token_ext (ha.symm.trans hb)

/-- An output that is an id altogether is the id that it begins with. -/
theorem reads_text (a : Token) : Reads a.text a := by
  have hall : a.text.takeWhile (fun x => !isSpace x) = a.text :=
    List.takeWhile_eq_self_iff.mpr fun x hx => by rw [a.not_space hx]; rfl
  exact hall

theorem strip_idLine (c : Token) (rest : PyStr) : Reads (strip (c.text ++ 10 :: rest)) c := by
  have hfirst : (c.text ++ 10 :: rest).dropWhile isSpace = c.text ++ 10 :: rest := by
    obtain ⟨x, tail, hx⟩ := List.exists_cons_of_ne_nil c.nonempty
    have hvisible : isSpace x = false := c.not_space (by rw [hx]; exact List.mem_cons_self)
    rw [hx, List.cons_append, List.dropWhile_cons, hvisible]
    rfl
  have htext : c.text.rdropWhile isSpace = c.text :=
    List.rdropWhile_eq_self_iff.mpr fun hne => by rw [c.not_space (List.getLast_mem hne)]; exact Bool.false_ne_true
  rw [strip_eq, hfirst, rdropWhile_append]
  split
  · rw [htext]
    exact reads_text c
  · rename_i hne
    have hkept : ∃ more, (10 :: rest : PyStr).rdropWhile isSpace = 10 :: more := by
      obtain ⟨x, more, hx⟩ := List.exists_cons_of_ne_nil hne
      obtain ⟨tail, htail⟩ := List.rdropWhile_prefix isSpace (10 :: rest : PyStr)
      rw [hx] at htail ⊢
      obtain rfl : x = 10 := (List.cons.inj htail).1
      exact ⟨more, rfl⟩
    obtain ⟨more, hmore⟩ := hkept
    rw [hmore]
    exact takeWhile_token c more

theorem gitChecked_reads {answer : Except PyExc Completed} {args : List PyStr} {raw : PyStr} {c : Token}
    (h : gitChecked (fun _ => answer) args = .ok raw)
    (hprinted : ∀ r, answer = .ok r → r.returncode = 0 → idLine c <+: r.stdout) : Reads raw c := by
  obtain ⟨r, out, rest, hr, hcode, hencoded, rfl⟩ := gitChecked_ok h
  obtain ⟨more, hmore⟩ := hprinted r hr hcode
  have hascii : (c.text ++ [10]).all isAscii = true := by
    rw [List.all_append, c.ascii]
    rfl
  have hline : idLine c = asciiBytes (c.text ++ [10]) := by
    rw [asciiBytes_append]
    rfl
  rw [← hmore, hline] at hencoded
  obtain ⟨t, rfl, -⟩ := encodeUtf8_ascii_prefix hascii hencoded
  have hbreak : translateNewlines (10 :: t) = 10 :: translateNewlines t := by
    rw [translateNewlines, if_pos (by decide)]
  rw [List.append_assoc, translateNewlines_unbroken_append c.unbroken, List.singleton_append, hbreak,
    List.append_assoc, List.cons_append]
  exact strip_idLine c _

theorem Reads.not_blank {raw : PyStr} {c : Token} (h : Reads raw c) : strip raw ≠ [] := by
  obtain ⟨x, tail, hx⟩ := List.exists_cons_of_ne_nil c.nonempty
  have hvisible : isSpace x = false := c.not_space (by rw [hx]; exact List.mem_cons_self)
  unfold Reads at h
  rw [hx] at h
  cases raw with
  | nil => cases h
  | cons y rest =>
    rw [List.takeWhile_cons] at h
    split at h
    · obtain rfl : y = x := (List.cons.inj h).1
      have hleft : (y :: rest).dropWhile isSpace = y :: rest := by
        rw [List.dropWhile_cons, hvisible]
        rfl
      have hright : (y :: rest).rdropWhile isSpace = y :: rest.rdropWhile isSpace :=
        rdropWhile_append_cons (s := []) hvisible rest
      rw [strip_eq, hleft, hright]
      exact List.cons_ne_nil _ _
    · cases h

/-! ## The world -/

/-- The branch on the remote, and the head and the temporary refs of every node. -/
structure TeamWorld (ι : Type) where
  remote : Token
  head : ι → Token
  temporary : ι → PyStr → Option Token

section
variable {ι : Type} [DecidableEq ι]

def TeamWorld.setHead (w : TeamWorld ι) (i : ι) (c : Token) : TeamWorld ι :=
  { w with head := Function.update w.head i c }

def TeamWorld.setTemporary (w : TeamWorld ι) (i : ι) (ref : PyStr) (c : Option Token) : TeamWorld ι :=
  { w with temporary := Function.update w.temporary i (Function.update (w.temporary i) ref c) }

variable (repo : Repository)

/-- The newer commit has the older one in its history. -/
abbrev Descends (newer older : Token) : Prop := Reaches repo.IsParent newer older

def Succeeded (answer : Except PyExc Completed) : Prop := ∃ r, answer = .ok r ∧ r.returncode = 0

/-- What a command of node `i` answers, and what becomes of the world; `name` is the first remote. A fetch
stores the remote head, a fast-forward merge and a push move along a line of parents or not at all, a commit
has the head as its only parent. -/
def gitEffect (name : Token) (i : ι) (w : TeamWorld ι) : GitCall → Except PyExc Completed → TeamWorld ι → Prop
  | .remotes, answer, u => u = w ∧ ∀ r, answer = .ok r → r.returncode = 0 → idLine name <+: r.stdout
  | .fetch _ _ _ ref, answer, u =>
    (u = w ∨ u = w.setTemporary i ref (some w.remote)) ∧
      (Succeeded answer → u = w.setTemporary i ref (some w.remote))
  | .revParseTemporary ref, answer, u =>
    u = w ∧ ∀ r, answer = .ok r → r.returncode = 0 → ∃ c, w.temporary i ref = some c ∧ idLine c <+: r.stdout
  | .deleteRef _ ref, _, u => u = w ∨ u = w.setTemporary i ref none
  | .revParseHead, answer, u => u = w ∧ ∀ r, answer = .ok r → r.returncode = 0 → idLine (w.head i) <+: r.stdout
  | .mergeBase older newer, answer, u =>
    u = w ∧ (Succeeded answer → ∃ a b : Token, older = a.text ∧ newer = b.text ∧ Descends repo b a)
  | .merge _ target, answer, u =>
    (u = w ∨ ∃ c : Token, target = c.text ∧ Descends repo c (w.head i) ∧ u = w.setHead i c) ∧
      (Succeeded answer → ∃ c : Token, target = c.text ∧ Descends repo (u.head i) c)
  | .push _ _ _, answer, u =>
    (u = w ∨ Descends repo (w.head i) w.remote ∧ u = { w with remote := w.head i }) ∧
      (Succeeded answer → u.remote = w.head i)
  | .commit _ _ _, _, u => u = w ∨ ∃ c, repo.parents c = [w.head i] ∧ u = w.setHead i c
  | _, _, u => u = w

/-- The range check reads commits by their ids, which do not change, so that all it prints is of one
repository. -/
def syncEffect (repr : PyStr → PyStr) (name : Token) (i : ι) (w : TeamWorld ι) :
    (call : SyncCall) → call.Answer → TeamWorld ι → Prop
  | .git call, answer, u => gitEffect repo name i w call answer u
  | .rangeCheck older newer, answer, u =>
    u = w ∧ ∃ git, answer = rangeIsTeamOnly repr git (older ++ lit ".." ++ newer) ∧
      ∀ a b : Token, older = a.text → newer = b.text → ∃ listing, Documented git repo a b listing
  | _, _, u => u = w

/-- What a node leaves to the others, and what it may do itself: push commits that were checked on top of the
remote branch, fast-forward to what the remote has had, or make a commit of its own. -/
structure SyncMoves (i : ι) (w u : TeamWorld ι) : Prop where
  others : ∀ j, j ≠ i → u.head j = w.head j ∧ u.temporary j = w.temporary j
  remote : u.remote = w.remote ∨ (u.remote = w.head i ∧ Descends repo (w.head i) w.remote ∧
    ∀ c ∈ repo.range w.remote (w.head i), Cleared repo c)
  head : u.head i = w.head i ∨ repo.parents (u.head i) = [w.head i] ∨
    (Descends repo w.remote (u.head i) ∧ Descends repo (u.head i) (w.head i) ∧
      ∀ c ∈ repo.range (w.head i) (u.head i), Cleared repo c)

omit [DecidableEq ι] in
theorem SyncMoves.refl (i : ι) (w : TeamWorld ι) : SyncMoves repo i w w :=
  ⟨fun _ _ => ⟨rfl, rfl⟩, Or.inl rfl, Or.inl rfl⟩

/-- What a node takes for granted while it works: its own head and refs stay, the remote moves forward. -/
structure SyncRelies (i : ι) (w u : TeamWorld ι) : Prop where
  head : u.head i = w.head i
  temporary : u.temporary i = w.temporary i
  remote : Descends repo u.remote w.remote

def syncContract (repr : PyStr → PyStr) (name : Token) (i : ι) :
    Contract (TeamWorld ι) SyncCall SyncCall.Answer where
  effect := syncEffect repo repr name i
  rely := SyncRelies repo i
  guarantee := SyncMoves repo i
  rely_refl _ := ⟨rfl, rfl, .refl⟩
  rely_trans h g := ⟨g.head.trans h.head, g.temporary.trans h.temporary, g.remote.trans h.remote⟩

end

end Rdap.Memory
