import Rdap.Agent.NodeName
import Rdap.Lib.KeyedTable
import Rdap.Lib.Machine
import Rdap.Memory.GitScope
import Rdap.Python.Strip

/-!
# Claims on files

A claim on a path is a file in `.team/locks`, named by the path with every run of other
characters made one underscore. Calls are serialised by the lock of the repository, so a
run is a list of calls.
-/

set_option autoImplicit false

namespace Rdap.Memory
open Python Lib Agent

/-! ## The functions -/

/-- `[A-Za-z0-9_.-]` -/
def isLockChar (c : CodePoint) : Bool := isNodeNameChar c

/-- `re.sub(r'[^A-Za-z0-9_.-]+', '_', path)`; the flag says that the run has its underscore. -/
def underscored : Bool → PyStr → PyStr
  | _, [] => []
  | inRun, c :: rest =>
    if isLockChar c then c :: underscored false rest
    else if inRun then underscored true rest
    else 95 :: underscored true rest

def lockName (path : PyStr) : PyStr := underscored false path ++ lit ".lock"

/-- The files of `.team/locks`. -/
abbrev Locks := KeyedTable PyStr Bytes

/-- Where the repository is kept and how. -/
structure LockSetting where
  /-- The longest file name of the file system. -/
  nameMax : Nat
  /-- `auto_commit` is set and the directory is a Git repository. -/
  commits : Bool

/-- `_ts()` -/
structure TimeText where
  text : PyStr
  ascii : text.all isAscii = true

inductive LockCall where
  | claimFile | releaseFile
  deriving DecidableEq

/-- A call and what it meets outside: the clock and the result of its commit. -/
structure LockRequest where
  call : LockCall
  path : PyStr
  owner : NodeName
  now : TimeText
  committed : Except PyExc PyStr

variable (S : LockSetting)

/-- `OSError` for a file name of this many bytes. -/
def checkNameLength (length : Nat) : Except PyExc Unit :=
  if length ≤ S.nameMax then .ok () else .error ⟨.osError, lit "File name too long"⟩

/-- The content of a lock, if `lock.exists()`. -/
def readLock (locks : Locks) (name : PyStr) : Except PyExc (Option Bytes) := do
  checkNameLength S name.length
  pure (locks.get? name)

/-- `lock.read_text(encoding='utf-8').split('\n', 1)[0].strip()` -/
def currentOwner (content : Bytes) : Except PyExc PyStr := do
  let text ← decodeText content
  pure (strip (text.takeWhile (· ≠ 10)))

def lockContent (owner : PyStr) (now : TimeText) : PyStr :=
  owner ++ lit "\nclaimed_at: " ++ now.text ++ lit "\n"

/-- `_atomic_write_shared_text`: the temporary name is the name between a dot and a dot, eight
characters and `.tmp`. -/
def writeLock (locks : Locks) (name text : PyStr) : Except PyExc Locks := do
  checkNameLength S (name.length + 14)
  let encoded ← encodeUtf8 text
  pure (locks.set name encoded)

/-- The commit after the lock has changed: when it raises the change stays. -/
def commitLock (committed : Except PyExc PyStr) (answer : PyStr) : Except PyExc PyStr :=
  if S.commits then committed.map fun _ => answer else .ok answer

def claimFile (r : LockRequest) (locks : Locks) : Except PyExc PyStr × Locks :=
  match readLock S locks (lockName r.path) with
  | .error e => (.error e, locks)
  | .ok (some content) =>
    match currentOwner content with
    | .error e => (.error e, locks)
    | .ok current =>
      if current = r.owner.val then (.ok (lit "ok (already yours): " ++ r.path), locks)
      else (.ok (lit "BUSY: " ++ r.path ++ lit " claimed by " ++ current), locks)
  | .ok none =>
    match writeLock S locks (lockName r.path) (lockContent r.owner.val r.now) with
    | .error e => (.error e, locks)
    | .ok written => (commitLock S r.committed (lit "ok: claimed " ++ r.path), written)

def releaseFile (r : LockRequest) (locks : Locks) : Except PyExc PyStr × Locks :=
  match readLock S locks (lockName r.path) with
  | .error e => (.error e, locks)
  | .ok none => (.ok (lit "not locked: " ++ r.path), locks)
  | .ok (some content) =>
    match currentOwner content with
    | .error e => (.error e, locks)
    | .ok current =>
      if current ≠ r.owner.val then
        (.ok (lit "DENIED: " ++ r.path ++ lit " belongs to " ++ current), locks)
      else (commitLock S r.committed (lit "ok: released " ++ r.path), locks.erase (lockName r.path))

def lockStep (r : LockRequest) (locks : Locks) : Except PyExc PyStr × Locks :=
  match r.call with
  | .claimFile => claimFile S r locks
  | .releaseFile => releaseFile S r locks

def lockMachine : Machine Locks LockRequest := fun locks r => some (lockStep S r locks).2

/-! ## Names of locks -/

theorem isLockChar_underscore : isLockChar 95 = true := by decide

/-- A path that its lock is named after unchanged and that has no underscore. -/
def IsPlainPath (path : PyStr) : Prop := ∀ c ∈ path, isLockChar c = true ∧ c ≠ 95

instance decidableIsPlainPath (path : PyStr) : Decidable (IsPlainPath path) :=
  List.decidableBAll (fun c => isLockChar c = true ∧ c ≠ 95) path

theorem underscored_self {path : PyStr} (h : ∀ c ∈ path, isLockChar c = true) (inRun : Bool) :
    underscored inRun path = path := by
  induction path generalizing inRun with
  | nil => rfl
  | cons c rest ih =>
    rw [underscored, if_pos (h c List.mem_cons_self), ih fun d hd => h d (List.mem_cons_of_mem _ hd)]

theorem underscored_lockChars (inRun : Bool) (path : PyStr) :
    ∀ c ∈ underscored inRun path, isLockChar c = true := by
  induction path generalizing inRun with
  | nil => exact List.forall_mem_nil _
  | cons c rest ih =>
    unfold underscored
    split
    · rename_i hc
      exact List.forall_mem_cons.mpr ⟨hc, ih false⟩
    · split
      · exact ih true
      · exact List.forall_mem_cons.mpr ⟨isLockChar_underscore, ih true⟩

/-- No underscore in the name: no character was rewritten. -/
theorem isPlainPath_of_underscored {path : PyStr} (h : (95 : CodePoint) ∉ underscored false path) :
    IsPlainPath path := by
  induction path with
  | nil => exact List.forall_mem_nil _
  | cons c rest ih =>
    unfold underscored at h
    split at h
    · rename_i hc
      rw [List.mem_cons, not_or] at h
      exact List.forall_mem_cons.mpr ⟨⟨hc, Ne.symm h.1⟩, ih h.2⟩
    · exact absurd List.mem_cons_self h

theorem lockName_inj {p q : PyStr} : lockName p = lockName q ↔
    underscored false p = underscored false q := List.append_left_inj _

theorem underscored_of_plain {path : PyStr} (h : IsPlainPath path) : underscored false path = path :=
  underscored_self (fun c hc => (h c hc).1) false

theorem isPlainPath_of_lockName {p q : PyStr} (hp : IsPlainPath p) (h : lockName q = lockName p) :
    IsPlainPath q := by
  rw [lockName_inj, underscored_of_plain hp] at h
  refine isPlainPath_of_underscored fun hmem => ?_
  rw [h] at hmem
  exact (hp _ hmem).2 rfl

/-- The lock of a plain path is the lock of no other path. -/
theorem lockName_of_plain {p q : PyStr} (hp : IsPlainPath p) (h : lockName q = lockName p) : q = p := by
  have hq := isPlainPath_of_lockName hp h
  rw [lockName_inj, underscored_of_plain hp, underscored_of_plain hq] at h
  exact h

theorem underscored_slash {u v : PyStr} (hu : ∀ c ∈ u, isLockChar c = true)
    (hv : ∀ c ∈ v, isLockChar c = true) : underscored false (u ++ 47 :: v) = u ++ 95 :: v := by
  induction u with
  | nil =>
    have hslash : isLockChar 47 = false := by decide
    simp [underscored, hslash, underscored_self hv]
  | cons c u ih =>
    rw [List.cons_append, underscored, if_pos (hu c List.mem_cons_self),
      ih fun d hd => hu d (List.mem_cons_of_mem _ hd)]
    rfl

/-- Every other path shares its lock with one more path. -/
theorem exists_same_lockName {path : PyStr} (h : ¬ IsPlainPath path) :
    ∃ other, other ≠ path ∧ lockName other = lockName path := by
  by_cases hsafe : ∀ c ∈ path, isLockChar c = true
  · -- an underscore of the path may stand for a slash
    have hmem : (95 : CodePoint) ∈ path := by
      by_contra hno
      exact h fun c hc => ⟨hsafe c hc, fun heq => hno (heq ▸ hc)⟩
    obtain ⟨u, v, rfl⟩ := List.append_of_mem hmem
    refine ⟨u ++ 47 :: v, ?_, ?_⟩
    · intro heq
      have := List.append_cancel_left heq
      simp [CodePoint, Fin.ext_iff] at this
    · rw [lockName_inj, underscored_self hsafe]
      exact underscored_slash (fun c hc => hsafe c (List.mem_append_left _ hc)) fun c hc =>
        hsafe c (List.mem_append_right _ (List.mem_cons_of_mem _ hc))
  · have hnames := underscored_lockChars false path
    refine ⟨underscored false path, ?_, ?_⟩
    · intro heq
      rw [heq] at hnames
      exact hsafe hnames
    · rw [lockName_inj, underscored_self hnames]

/-! ## Who holds a path -/

/-- The lock of the path is there and names the owner. -/
def Holds (locks : Locks) (path owner : PyStr) : Prop :=
  ∃ content, locks.get? (lockName path) = some content ∧ currentOwner content = .ok owner

def IsFree (locks : Locks) (path : PyStr) : Prop := locks.get? (lockName path) = none

theorem Holds.unique {locks : Locks} {path a b : PyStr} (ha : Holds locks path a)
    (hb : Holds locks path b) : a = b := by
  obtain ⟨c, hc, hac⟩ := ha
  obtain ⟨d, hd, hbd⟩ := hb
  rw [hc] at hd
  obtain rfl := Option.some.inj hd
  rw [hac] at hbd
  exact Except.ok.inj hbd

/-- The call returned a text that begins with `ok`. -/
def AnswersOk (answer : Except PyExc PyStr) : Prop :=
  ∃ text, answer = .ok text ∧ startsWith text (lit "ok") = true

/-- What one call may do, with `after` what it leaves. -/
structure Exclusive (r : LockRequest) (locks : Locks) (answer : Except PyExc PyStr)
    (after : Locks) : Prop where
  /-- Each path has at most one holder. -/
  single : ∀ path a b, Holds after path a → Holds after path b → a = b
  claim_ok : r.call = .claimFile →
    (AnswersOk answer ↔ IsFree locks r.path ∨ Holds locks r.path r.owner.val)
  claim_holds : r.call = .claimFile → AnswersOk answer → Holds after r.path r.owner.val
  claim_keeps : r.call = .claimFile → ∀ owner, Holds locks r.path owner → Holds after r.path owner
  release_frees : r.call = .releaseFile → Holds locks r.path r.owner.val → IsFree after r.path
  release_keeps : r.call = .releaseFile →
    ∀ owner, owner ≠ r.owner.val → Holds locks r.path owner → Holds after r.path owner
  others : ∀ path, path ≠ r.path →
    (IsFree after path ↔ IsFree locks path) ∧
      ∀ owner, Holds after path owner ↔ Holds locks path owner

/-- A claim that finds its path free is on a plain path, and the lock can be written and, in a
Git repository, committed. -/
def ClaimsPlainly (S : LockSetting) (r : LockRequest) (locks : Locks) : Prop :=
  r.call = .claimFile → IsFree locks r.path →
    IsPlainPath r.path ∧ (lockName r.path).length + 14 ≤ S.nameMax ∧
      (S.commits = true → ∃ out, r.committed = .ok out)

/-! ## Reading a lock back -/

theorem currentOwner_lockContent (owner : NodeName) (now : TimeText) {content : Bytes}
    (h : encodeUtf8 (lockContent owner.val now) = .ok content) :
    currentOwner content = .ok owner.val := by
  have hline : Unbroken owner.val := fun c hc => by
    have := owner.printable hc
    constructor <;> (rintro rfl; revert this; decide)
  have hspace : ∀ c ∈ owner.val, isSpace c = false := by
    intro c hc
    have := owner.printable hc
    simp only [isSpace, isAsciiSpace, Bool.or_eq_false_iff, Bool.and_eq_false_iff,
      decide_eq_false_iff_not, beq_eq_false_iff_ne]
    omega
  have hsplit : lockContent owner.val now =
      owner.val ++ 10 :: (lit "claimed_at: " ++ now.text ++ lit "\n") := by
    simp only [lockContent, List.append_assoc]
    rfl
  have hshort : (owner.val ++ 10 :: translateNewlines (lit "claimed_at: " ++ now.text ++ lit "\n")).takeWhile
      (· ≠ 10) = owner.val := by
    rw [List.takeWhile_append_of_pos (fun c hc => by simpa using (hline c hc).1), List.takeWhile_cons]
    simp
  unfold currentOwner decodeText
  rw [decodeUtf8_encodeUtf8 h, hsplit]
  simp only [bind, Except.bind, pure, Except.pure]
  rw [translateNewlines_unbroken_append hline, translateNewlines, if_pos (by decide), hshort,
    strip_of_spaceless hspace]

theorem lockContent_encodes (owner : NodeName) (now : TimeText) :
    ∃ content, encodeUtf8 (lockContent owner.val now) = .ok content := by
  have hascii : (lockContent owner.val now).all isAscii = true := by
    have howner : owner.val.all isAscii = true := List.all_eq_true.mpr fun c hc => by
      have := owner.printable hc
      simp only [isAscii, decide_eq_true_eq]
      omega
    simp only [lockContent, List.all_append, howner, now.ascii, Bool.true_and, Bool.and_true]
    decide
  obtain ⟨content, h, _⟩ := encodeUtf8_of_ascii hascii
  exact ⟨content, h⟩

/-! ## What a run keeps -/

/-- Every lock can be read, names its owner and is that of a plain path. -/
structure Sound (S : LockSetting) (locks : Locks) : Prop where
  short : ∀ name content, locks.get? name = some content → name.length ≤ S.nameMax
  named : ∀ name content, locks.get? name = some content → ∃ owner, currentOwner content = .ok owner
  plain : ∀ path, ¬ IsFree locks path → IsPlainPath path

theorem sound_empty (S : LockSetting) : Sound S KeyedTable.empty where
  short := fun _ _ h => by simp at h
  named := fun _ _ h => by simp at h
  plain := fun path h => absurd (KeyedTable.get?_empty (lockName path)) h

theorem not_free {locks : Locks} {path : PyStr} (h : ¬ IsFree locks path) :
    ∃ content, locks.get? (lockName path) = some content := Option.ne_none_iff_exists'.mp h

variable {S : LockSetting} {r : LockRequest} {locks : Locks}

theorem Holds.short (hs : Sound S locks) {path owner : PyStr} (h : Holds locks path owner) :
    (lockName path).length ≤ S.nameMax := by
  obtain ⟨content, hget, _⟩ := h
  exact hs.short _ _ hget

theorem readLock_short {name : PyStr} (h : name.length ≤ S.nameMax) :
    readLock S locks name = .ok (locks.get? name) := by
  unfold readLock checkNameLength
  rw [if_pos h]
  rfl

/-! ## One call -/

theorem claim_free (hfree : IsFree locks r.path) (hfit : (lockName r.path).length + 14 ≤ S.nameMax) :
    ∃ content, currentOwner content = .ok r.owner.val ∧
      claimFile S r locks = (commitLock S r.committed (lit "ok: claimed " ++ r.path),
        locks.set (lockName r.path) content) := by
  obtain ⟨content, hcontent⟩ := lockContent_encodes r.owner r.now
  refine ⟨content, currentOwner_lockContent r.owner r.now hcontent, ?_⟩
  have hwrite : writeLock S locks (lockName r.path) (lockContent r.owner.val r.now) =
      .ok (locks.set (lockName r.path) content) := by
    unfold writeLock checkNameLength
    rw [if_pos hfit, hcontent]
    rfl
  unfold claimFile
  rw [readLock_short (by omega), hfree]
  simp only [hwrite]

theorem claim_own (hshort : (lockName r.path).length ≤ S.nameMax)
    (h : Holds locks r.path r.owner.val) :
    claimFile S r locks = (.ok (lit "ok (already yours): " ++ r.path), locks) := by
  obtain ⟨content, hget, howner⟩ := h
  unfold claimFile
  rw [readLock_short hshort, hget]
  simp only [howner, if_true]

theorem claim_busy (hshort : (lockName r.path).length ≤ S.nameMax) {owner : PyStr}
    (h : Holds locks r.path owner) (hne : owner ≠ r.owner.val) :
    claimFile S r locks = (.ok (lit "BUSY: " ++ r.path ++ lit " claimed by " ++ owner), locks) := by
  obtain ⟨content, hget, howner⟩ := h
  unfold claimFile
  rw [readLock_short hshort, hget]
  simp only [howner, hne, if_false]

theorem release_own (hshort : (lockName r.path).length ≤ S.nameMax)
    (h : Holds locks r.path r.owner.val) :
    releaseFile S r locks = (commitLock S r.committed (lit "ok: released " ++ r.path),
      locks.erase (lockName r.path)) := by
  obtain ⟨content, hget, howner⟩ := h
  unfold releaseFile
  rw [readLock_short hshort, hget]
  simp only [howner, ne_eq, not_true_eq_false, if_false]

/-- A release by anyone else leaves the locks as they are. -/
theorem release_other (h : ¬ Holds locks r.path r.owner.val) : (releaseFile S r locks).2 = locks := by
  unfold releaseFile
  split
  · rfl
  · rfl
  · rename_i content hread
    split
    · rfl
    · rename_i current hcurrent
      split
      · rfl
      · rename_i howner
        simp only [readLock, bind_ok, pure_ok] at hread
        obtain ⟨_, _, hget⟩ := hread
        exact absurd ⟨content, hget, by rw [hcurrent, not_not.mp howner]⟩ h

/-! ## Calls on plain paths -/

theorem same_of_get? {before after : Locks} {path : PyStr}
    (h : after.get? (lockName path) = before.get? (lockName path)) :
    (IsFree after path ↔ IsFree before path) ∧
      ∀ owner, Holds after path owner ↔ Holds before path owner := by
  unfold IsFree Holds
  rw [h]
  exact ⟨Iff.rfl, fun _ => Iff.rfl⟩

theorem answersOk_append (answer rest : PyStr) (h : startsWith answer (lit "ok") = true) :
    AnswersOk (.ok (answer ++ rest)) := by
  refine ⟨answer ++ rest, rfl, ?_⟩
  unfold startsWith at h ⊢
  rw [List.isPrefixOf_iff_prefix] at h ⊢
  exact h.trans (List.prefix_append _ _)

theorem not_answersOk_busy (rest : PyStr) : ¬ AnswersOk (.ok (lit "BUSY: " ++ rest)) := by
  rintro ⟨text, htext, hok⟩
  obtain rfl := Except.ok.inj htext
  unfold startsWith at hok
  rw [List.isPrefixOf_iff_prefix] at hok
  have hfirst := hok.head (by decide)
  revert hfirst
  simp only [show lit "ok" = [111, 107] from rfl, show lit "BUSY: " = [66, 85, 83, 89, 58, 32] from rfl,
    List.cons_append, List.head_cons]
  decide

theorem holds_or_free (hs : Sound S locks) (path : PyStr) :
    IsFree locks path ∨ ∃ owner, Holds locks path owner := by
  by_cases hfree : IsFree locks path
  · exact Or.inl hfree
  · obtain ⟨content, hget⟩ := not_free hfree
    obtain ⟨owner, howner⟩ := hs.named _ _ hget
    exact Or.inr ⟨owner, content, hget, howner⟩

theorem Holds.not_free {path owner : PyStr} (h : Holds locks path owner) : ¬ IsFree locks path := by
  obtain ⟨content, hget, _⟩ := h
  intro hfree
  rw [hfree] at hget
  cases hget

/-- A claim as the claimed path alone sees it. -/
theorem exclusive_of_claim {answer : Except PyExc PyStr} {after : Locks} (hcall : r.call = .claimFile)
    (hok : AnswersOk answer ↔ IsFree locks r.path ∨ Holds locks r.path r.owner.val)
    (hholds : AnswersOk answer → Holds after r.path r.owner.val)
    (hkeeps : ∀ owner, Holds locks r.path owner → Holds after r.path owner)
    (hothers : ∀ path, path ≠ r.path → after.get? (lockName path) = locks.get? (lockName path)) :
    Exclusive r locks answer after where
  single := fun _ _ _ ha hb => ha.unique hb
  claim_ok := fun _ => hok
  claim_holds := fun _ => hholds
  claim_keeps := fun _ => hkeeps
  release_frees := fun h => by rw [hcall] at h; cases h
  release_keeps := fun h => by rw [hcall] at h; cases h
  others := fun path hne => same_of_get? (hothers path hne)

theorem claim_exclusive (hs : Sound S locks) (hcall : r.call = .claimFile) (h : ClaimsPlainly S r locks) :
    Exclusive r locks (claimFile S r locks).1 (claimFile S r locks).2 := by
  rcases holds_or_free hs r.path with hfree | ⟨owner, howner⟩
  · obtain ⟨hplain, hfit, hcommit⟩ := h hcall hfree
    obtain ⟨content, hcontent, heq⟩ := claim_free (S := S) hfree hfit
    have hanswer : AnswersOk (commitLock S r.committed (lit "ok: claimed " ++ r.path)) := by
      have hok := answersOk_append (lit "ok: claimed ") r.path (by decide)
      unfold commitLock
      split
      · rename_i hcommits
        obtain ⟨out, hout⟩ := hcommit hcommits
        rw [hout]
        exact hok
      · exact hok
    rw [heq]
    refine exclusive_of_claim hcall (iff_of_true hanswer (Or.inl hfree)) (fun _ => ?_) ?_ ?_
    · exact ⟨content, KeyedTable.get?_set_self _ _ _, hcontent⟩
    · exact fun owner howner => absurd hfree howner.not_free
    · intro path hne
      exact KeyedTable.get?_set_ne _ _ fun hname => hne (lockName_of_plain hplain hname)
  · by_cases hmine : owner = r.owner.val
    · subst hmine
      rw [claim_own (howner.short hs) howner]
      exact exclusive_of_claim hcall
        (iff_of_true (answersOk_append (lit "ok (already yours): ") r.path (by decide)) (Or.inr howner))
        (fun _ => howner) (fun _ h => h) fun _ _ => rfl
    · rw [claim_busy (howner.short hs) howner hmine]
      have hbusy : ¬ AnswersOk (.ok (lit "BUSY: " ++ r.path ++ lit " claimed by " ++ owner)) := by
        rw [List.append_assoc, List.append_assoc]
        exact not_answersOk_busy _
      refine exclusive_of_claim hcall (iff_of_false hbusy ?_) (fun hok => absurd hok hbusy)
        (fun _ h => h) fun _ _ => rfl
      rintro (hfree | hholds)
      · exact howner.not_free hfree
      · exact hmine (howner.unique hholds)

theorem release_exclusive (hs : Sound S locks) (hcall : r.call = .releaseFile) :
    Exclusive r locks (releaseFile S r locks).1 (releaseFile S r locks).2 where
  single := fun _ _ _ ha hb => ha.unique hb
  claim_ok := fun h => by rw [hcall] at h; cases h
  claim_holds := fun h => by rw [hcall] at h; cases h
  claim_keeps := fun h => by rw [hcall] at h; cases h
  release_frees := fun _ h => by
    rw [release_own (h.short hs) h]
    exact KeyedTable.get?_erase_self _ _
  release_keeps := fun _ owner hne h => by
    rw [release_other fun hmine => hne (h.unique hmine)]
    exact h
  others := fun path hne => by
    by_cases hmine : Holds locks r.path r.owner.val
    · rw [release_own (hmine.short hs) hmine]
      refine same_of_get? ?_
      rw [KeyedTable.get?_erase, if_neg]
      exact fun hname => hne (lockName_of_plain (hs.plain r.path hmine.not_free) hname)
    · rw [release_other hmine]
      exact same_of_get? rfl

/-- What goes wrong on a path that shares its lock. -/
theorem claimsPlainly_of_exclusive
    (h : Exclusive r locks (lockStep S r locks).1 (lockStep S r locks).2) : ClaimsPlainly S r locks := by
  intro hcall hfree
  have hstep : lockStep S r locks = claimFile S r locks := by
    unfold lockStep
    rw [hcall]
  rw [hstep] at h
  have hok := (h.claim_ok hcall).mpr (Or.inl hfree)
  have hfit : (lockName r.path).length + 14 ≤ S.nameMax := by
    by_contra hlong
    obtain ⟨text, htext, _⟩ := hok
    unfold claimFile readLock writeLock checkNameLength at htext
    rw [if_neg hlong] at htext
    split at htext
    · cases htext
    · rename_i hread
      split at hread
      · rw [hfree] at hread
        cases hread
      · cases hread
    · cases htext
  obtain ⟨content, hcontent, heq⟩ := claim_free (S := S) hfree hfit
  rw [heq] at h hok
  refine ⟨?_, hfit, ?_⟩
  · by_contra hnot
    obtain ⟨other, hne, hname⟩ := exists_same_lockName hnot
    have hother : IsFree locks other := by
      unfold IsFree
      rw [hname]
      exact hfree
    have hafter := ((h.others other hne).1).mpr hother
    unfold IsFree at hafter
    rw [hname, KeyedTable.get?_set_self] at hafter
    cases hafter
  · intro hcommits
    obtain ⟨text, htext, _⟩ := hok
    unfold commitLock at htext
    rw [if_pos hcommits] at htext
    cases hc : r.committed with
    | error e =>
      rw [hc] at htext
      cases htext
    | ok out => exact ⟨out, rfl⟩

theorem lockStep_sound (hs : Sound S locks) (h : ClaimsPlainly S r locks) :
    Sound S (lockStep S r locks).2 := by
  unfold lockStep
  cases hcall : r.call with
  | claimFile =>
    rcases holds_or_free hs r.path with hfree | ⟨owner, howner⟩
    · obtain ⟨hplain, hfit, _⟩ := h hcall hfree
      obtain ⟨content, hcontent, heq⟩ := claim_free (S := S) hfree hfit
      simp only [heq]
      refine ⟨fun name c hget => ?_, fun name c hget => ?_, fun path hheld => ?_⟩
      · rw [KeyedTable.get?_set] at hget
        split at hget
        · rename_i hname
          subst hname
          omega
        · exact hs.short name c hget
      · rw [KeyedTable.get?_set] at hget
        split at hget
        · obtain rfl := Option.some.inj hget
          exact ⟨_, hcontent⟩
        · exact hs.named name c hget
      · by_cases hname : lockName path = lockName r.path
        · exact isPlainPath_of_lockName hplain hname
        · refine hs.plain path fun hfree => hheld ?_
          unfold IsFree
          rw [KeyedTable.get?_set_ne _ _ hname]
          exact hfree
    · by_cases hmine : owner = r.owner.val
      · subst hmine
        rw [claim_own (howner.short hs) howner]
        exact hs
      · rw [claim_busy (howner.short hs) howner hmine]
        exact hs
  | releaseFile =>
    by_cases hmine : Holds locks r.path r.owner.val
    · simp only [release_own (hmine.short hs) hmine]
      have hsub : ∀ name c, (locks.erase (lockName r.path)).get? name = some c →
          locks.get? name = some c := by
        intro name c hget
        rw [KeyedTable.get?_erase] at hget
        split at hget
        · cases hget
        · exact hget
      refine ⟨fun name c hget => hs.short name c (hsub name c hget),
        fun name c hget => hs.named name c (hsub name c hget), fun path hheld => ?_⟩
      obtain ⟨c, hget⟩ := not_free hheld
      refine hs.plain path fun hfree => ?_
      have hbefore := hsub _ c hget
      rw [hfree] at hbefore
      cases hbefore
    · simp only [release_other hmine]
      exact hs

theorem lockStep_exclusive_iff (hs : Sound S locks) :
    Exclusive r locks (lockStep S r locks).1 (lockStep S r locks).2 ↔ ClaimsPlainly S r locks := by
  refine ⟨claimsPlainly_of_exclusive, fun h => ?_⟩
  unfold lockStep
  cases hcall : r.call with
  | claimFile => exact claim_exclusive hs hcall h
  | releaseFile => exact release_exclusive hs hcall

/-! ## Runs -/

/-- Files exclude one another in a run exactly when every claim that takes a path takes a plain
one. -/
theorem claims_exclusive_iff (S : LockSetting) (requests : List LockRequest) :
    (lockMachine S).Along
        (fun locks r => Exclusive r locks (lockStep S r locks).1 (lockStep S r locks).2)
        KeyedTable.empty requests ↔
      (lockMachine S).Along (fun locks r => ClaimsPlainly S r locks) KeyedTable.empty requests := by
  refine Machine.along_iff (I := Sound S) ?_ (fun hs => lockStep_exclusive_iff hs) (sound_empty S)
  intro locks r after h hs hstep
  obtain rfl := Option.some.inj hstep
  exact lockStep_sound hs h

def alice : NodeName := ⟨lit "alice", rfl⟩
def bob : NodeName := ⟨lit "bob", rfl⟩

def claimOf (path : PyStr) (owner : NodeName) : LockRequest where
  call := .claimFile
  path := path
  owner := owner
  now := ⟨lit "2026-01-01 00:00:00", by decide⟩
  committed := .ok []

def linuxDirectory : LockSetting where
  nameMax := 255
  commits := false

/-- `src/app.py` and `src_app.py` have one lock: after a claim on the first by one node the
second is refused to another. -/
theorem slash_claims_underscore :
    lockName (lit "src/app.py") = lockName (lit "src_app.py") ∧
    (lockStep linuxDirectory (claimOf (lit "src_app.py") bob)
        (lockStep linuxDirectory (claimOf (lit "src/app.py") alice) KeyedTable.empty).2).1 =
      .ok (lit "BUSY: src_app.py claimed by alice") ∧
    ¬ (lockMachine linuxDirectory).Along
      (fun locks r => Exclusive r locks (lockStep linuxDirectory r locks).1
        (lockStep linuxDirectory r locks).2)
      KeyedTable.empty [claimOf (lit "src/app.py") alice, claimOf (lit "src_app.py") bob] := by
  have hnames : lockName (lit "src/app.py") = lockName (lit "src_app.py") := by decide
  refine ⟨hnames, ?_, ?_⟩
  · obtain ⟨content, hcontent, hclaim⟩ := @claim_free linuxDirectory
      (claimOf (lit "src/app.py") alice) KeyedTable.empty rfl (by decide)
    have hholds : Holds (KeyedTable.empty.set (lockName (lit "src/app.py")) content)
        (lit "src_app.py") (lit "alice") := by
      refine ⟨content, ?_, hcontent⟩
      rw [← hnames]
      exact KeyedTable.get?_set_self _ _ _
    have hbusy := claim_busy (S := linuxDirectory) (r := claimOf (lit "src_app.py") bob) (by decide)
      hholds (by decide)
    simp only [lockStep, claimOf] at hclaim hbusy ⊢
    rw [hclaim]
    simp only [hbusy]
    rfl
  · rintro ⟨hfirst, _⟩
    have hplain := (claimsPlainly_of_exclusive hfirst rfl rfl).1
    exact absurd hplain (by decide)

end Rdap.Memory
