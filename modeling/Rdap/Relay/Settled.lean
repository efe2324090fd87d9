import Rdap.Relay.Progress

/-!
# What a poll settles

A turn of the mailbox, and the poll as a whole: it runs through, with every file and every
object settled, exactly if each of them is manageable when its turn comes.
-/

set_option autoImplicit false

namespace Rdap.Relay
open Python Protocol Lib Identity Agent

variable {P : Platform}

/-! ## A turn of the mailbox -/

/-- An object that its turn can deal with. -/
structure ManageableObject (P : Platform) (node : RelayNode) (turn : Turn) (object : Bytes)
    (home : RelayHome) : Prop where
  unpoisoned : home.noted.contains (objectKey P object) = false →
    ∀ payload, mailboxPayload P object = .ok payload → ¬ Poisoned P node turn.policy payload
  answered : home.noted.contains (objectKey P object) = false →
    ∀ payload job, mailboxPayload P object = .ok payload →
    peek P node turn.policy turn.verifyAt payload = .ok job →
    AnswerFits P .mailbox node turn job home.outcomes

/-- An object that was found in one home and is dealt with in another. -/
structure ObjectSettled (P : Platform) (node : RelayNode) (turn : Turn) (object : Bytes)
    (found home : RelayHome) : Prop where
  recorded : home.noted.contains (objectKey P object) = true
  executed : found.noted.contains (objectKey P object) = false →
    ∀ payload job, mailboxPayload P object = .ok payload →
    peek P node turn.policy turn.verifyAt payload = .ok job → Delivered P turn job found home

theorem ObjectSettled.mono {node : RelayNode} {turn : Turn} {object : Bytes} {found s t : RelayHome}
    (h : ObjectSettled P node turn object found s) (hfollows : Follows s t) :
    ObjectSettled P node turn object found t where
  recorded := hfollows.noted _ h.recorded
  executed hnew payload job hpayload hpeek :=
    (h.executed hnew payload job hpayload hpeek).mono hfollows.toRetains

theorem mailboxPayload_printable {object : Bytes} {payload : Value}
    (h : mailboxPayload P object = .ok payload) : Json.Printable payload := by
  simp only [mailboxPayload, bind_ok] at h
  obtain ⟨text, _, hloads⟩ := h
  exact Json.loads_printable hloads

section
variable {node : RelayNode} {turns : Bytes → Turn} {turn : Turn} {object : Bytes} {home : RelayHome}

theorem note_recorded : (note P turn object home).2.noted.contains (objectKey P object) = true := by
  unfold note KeyedTable.contains
  dsimp only
  rw [KeyedTable.get?_set_self]
  rfl

theorem note_follows : Follows home (note P turn object home).2 :=
  { Follows.refl home with
    noted := fun key h => by
      unfold note KeyedTable.contains
      dsimp only
      rw [KeyedTable.get?_set]
      split
      · rfl
      · exact h }

/-- What a turn does: it knows the object, notes it unserved, raises, or serves and notes it. -/
theorem mailboxTurn_cases (node : RelayNode) (turns : Bytes → Turn) (object : Bytes)
    (home : RelayHome) :
    (home.noted.contains (objectKey P object) = true ∧
      mailboxTurn P node turns object home = (.ok (), home)) ∨
    (home.noted.contains (objectKey P object) = false ∧
      (∀ payload, mailboxPayload P object = .ok payload → ∃ reason,
        peek P node (turns object).policy (turns object).verifyAt payload =
          .error (.rejected reason)) ∧
      mailboxTurn P node turns object home = note P (turns object) object home) ∨
    (∃ payload e, home.noted.contains (objectKey P object) = false ∧
      mailboxPayload P object = .ok payload ∧
      peek P node (turns object).policy (turns object).verifyAt payload = .error (.raised e) ∧
      mailboxTurn P node turns object home = (.error e, home)) ∨
    (∃ payload job, home.noted.contains (objectKey P object) = false ∧
      mailboxPayload P object = .ok payload ∧
      peek P node (turns object).policy (turns object).verifyAt payload = .ok job ∧
      mailboxTurn P node turns object home =
        andThen (serve P .mailbox node (turns object) job) (note P (turns object) object) home) := by
  unfold mailboxTurn
  dsimp only
  cases hknown : home.noted.contains (objectKey P object) with
  | true => exact Or.inl ⟨rfl, rfl⟩
  | false =>
    refine Or.inr ?_
    rw [if_neg Bool.false_ne_true]
    cases hpayload : mailboxPayload P object with
    | error e => exact Or.inl ⟨rfl, fun _ h => by simp at h, rfl⟩
    | ok payload =>
      cases hpeek : peek P node (turns object).policy (turns object).verifyAt payload with
      | ok job => exact Or.inr (Or.inr ⟨payload, job, rfl, rfl, hpeek, by simp only [hpeek]⟩)
      | error stop =>
        cases stop with
        | rejected reason =>
          refine Or.inl ⟨rfl, fun payload' h => ?_, by simp only [hpeek]⟩
          obtain rfl := Except.ok.inj h
          exact ⟨reason, hpeek⟩
        | raised e => exact Or.inr (Or.inl ⟨payload, e, rfl, rfl, hpeek, by simp only [hpeek]⟩)

theorem mailboxTurn_ok_iff (hworking : Working (turns object) home.outcomes)
    (hreadable : Readable P home.outcomes) :
    (mailboxTurn P node turns object home).1 = .ok () ↔
      ManageableObject P node (turns object) object home := by
  rcases mailboxTurn_cases (P := P) node turns object home with
    ⟨hknown, hturn⟩ | ⟨hnew, hrefused, hturn⟩ | ⟨payload, e, hnew, hpayload, hpeek, hturn⟩ |
      ⟨payload, job, hnew, hpayload, hpeek, hturn⟩
  · rw [hturn]
    exact ⟨fun _ => ⟨fun hnew => by simp [hknown] at hnew, fun hnew => by simp [hknown] at hnew⟩,
      fun _ => rfl⟩
  · rw [hturn]
    refine ⟨fun _ => ⟨fun _ payload hpayload hpoisoned => ?_, fun _ payload job hpayload hjob => ?_⟩,
      fun _ => rfl⟩
    · obtain ⟨reason, hreason⟩ := hrefused payload hpayload
      obtain ⟨e, he⟩ := (hworking.raises_iff node (mailboxPayload_printable hpayload)).mpr hpoisoned
      simp [hreason] at he
    · obtain ⟨reason, hreason⟩ := hrefused payload hpayload
      simp [hreason] at hjob
  · rw [hturn]
    refine ⟨fun h => by simp at h, fun h => absurd ?_ (h.unpoisoned hnew payload hpayload)⟩
    exact (hworking.raises_iff node (mailboxPayload_printable hpayload)).mp ⟨e, hpeek⟩
  · obtain ⟨key, hkey⟩ := peek_hashable hpeek
    rw [hturn, andThen_ok_iff, serve_ok_iff hkey hreadable hworking.below]
    constructor
    · rintro ⟨hanswer, _⟩
      refine ⟨fun _ payload' hpayload' hpoisoned => ?_, fun _ payload' job' hpayload' hjob => ?_⟩
      · obtain rfl := Except.ok.inj (hpayload.symm.trans hpayload')
        obtain ⟨e, he⟩ := (hworking.raises_iff node (mailboxPayload_printable hpayload)).mpr hpoisoned
        simp [hpeek] at he
      · obtain rfl := Except.ok.inj (hpayload.symm.trans hpayload')
        obtain rfl := Except.ok.inj (hpeek.symm.trans hjob)
        exact hanswer
    · intro h
      exact ⟨h.answered hnew payload job hpayload hpeek, rfl⟩

theorem mailboxTurn_follows : Follows home (mailboxTurn P node turns object home).2 := by
  rcases mailboxTurn_cases (P := P) node turns object home with
    ⟨_, hturn⟩ | ⟨_, _, hturn⟩ | ⟨_, _, _, _, _, hturn⟩ | ⟨_, _, _, _, _, hturn⟩
  · rw [hturn]
    exact Follows.refl home
  · rw [hturn]
    exact note_follows
  · rw [hturn]
    exact Follows.refl home
  · rw [hturn]
    exact andThen_preserves (Follows home) (serve_follows _) fun _ h => h.trans note_follows

theorem mailboxTurn_readable (hreadable : Readable P home.outcomes) :
    Readable P (mailboxTurn P node turns object home).2.outcomes := by
  rcases mailboxTurn_cases (P := P) node turns object home with
    ⟨_, hturn⟩ | ⟨_, _, hturn⟩ | ⟨_, _, _, _, _, hturn⟩ | ⟨_, _, _, _, hpeek, hturn⟩
  · rw [hturn]
    exact hreadable
  · rw [hturn]
    exact hreadable
  · rw [hturn]
    exact hreadable
  · obtain ⟨key, hkey⟩ := peek_hashable hpeek
    rw [hturn]
    exact andThen_preserves (fun s : RelayHome => Readable P s.outcomes)
      (serve_readable hkey hreadable) fun _ h => h

theorem mailboxTurn_settles (hworking : Working (turns object) home.outcomes)
    (hreadable : Readable P home.outcomes)
    (hok : (mailboxTurn P node turns object home).1 = .ok ()) :
    ObjectSettled P node (turns object) object home (mailboxTurn P node turns object home).2 := by
  rcases mailboxTurn_cases (P := P) node turns object home with
    ⟨hknown, hturn⟩ | ⟨hnew, hrefused, hturn⟩ | ⟨payload, e, hnew, hpayload, hpeek, hturn⟩ |
      ⟨payload, job, hnew, hpayload, hpeek, hturn⟩
  · rw [hturn]
    exact ⟨hknown, fun hnew => by simp [hknown] at hnew⟩
  · rw [hturn]
    refine ⟨note_recorded, fun _ payload job hpayload hjob => ?_⟩
    obtain ⟨reason, hreason⟩ := hrefused payload hpayload
    simp [hreason] at hjob
  · rw [hturn] at hok
    cases hok
  · obtain ⟨key, hkey⟩ := peek_hashable hpeek
    rw [hturn] at hok ⊢
    obtain ⟨hserved, _⟩ := andThen_ok_iff.mp hok
    have hsettled := serve_settles hkey hreadable hworking.below hserved
    rw [andThen_of_ok hserved]
    refine ⟨note_recorded, fun _ payload' job' hpayload' hjob => ?_⟩
    obtain rfl := Except.ok.inj (hpayload.symm.trans hpayload')
    obtain rfl := Except.ok.inj (hpeek.symm.trans hjob)
    exact Delivered.mono hsettled note_follows.toRetains

end

/-! ## The poll -/

theorem newestSeen_of_few {seen : KeyedTable PyStr Int} (h : seen.count ≤ maxMeshSeen) :
    newestSeen seen = seen := by
  apply KeyedTable.ext
  apply List.filter_eq_self.mpr
  intro row hrow
  have hlength : seen.rows.length ≤ maxMeshSeen := h
  simp only [List.length_insertionSort, Nat.sub_eq_zero_of_le hlength, List.drop_zero,
    decide_eq_true_eq]
  exact (List.mem_insertionSort _).mpr hrow

section
variable (P) (nameLimit : Nat) (node : RelayNode) (inboxTurns : SlotFile → Turn)
  (mailboxTurns : Bytes → Turn) (home : RelayHome)

/-- The home in which a candidate is found. -/
def homeAtFile (before : List SlotFile) : RelayHome :=
  (forEach (inboxTurn P nameLimit node inboxTurns) before home).2

/-- The home in which an object is found. -/
def homeAtObject (before : List Bytes) : RelayHome :=
  let drained := (processInbox P nameLimit node inboxTurns home).2
  (forEach (mailboxTurn P node mailboxTurns) before { drained with noted := newestSeen drained.seen }).2

/-- Every candidate and every object of a poll is settled. -/
structure PollSettled (objects : List Bytes) (home' : RelayHome) : Prop where
  filesSettled : ∀ before file after, candidates home.slot = before ++ file :: after →
    FileSettled P node (inboxTurns file) file (homeAtFile P nameLimit node inboxTurns home before)
      home'
  objectsSettled : ∀ before object after, objects = before ++ object :: after →
    ObjectSettled P node (mailboxTurns object) object
      (homeAtObject P nameLimit node inboxTurns mailboxTurns home before) home'
  /-- The file of seen objects has room for a bounded number. -/
  objectsSaved : home'.noted.count ≤ maxMeshSeen →
    ∀ object ∈ objects, home'.seen.contains (objectKey P object) = true

end

section
variable {nameLimit : Nat} {node : RelayNode} {inboxTurns : SlotFile → Turn}
  {mailboxTurns : Bytes → Turn} {home : RelayHome} {objects : List Bytes}

theorem drainMailbox_eq (node : RelayNode) (turns : Bytes → Turn) (objects : List Bytes)
    (home : RelayHome) : drainMailbox P node turns objects home =
      andThen (forEach (mailboxTurn P node turns) objects) (saveSeen objects)
        { home with noted := newestSeen home.seen } := rfl

theorem processInbox_eq (hslot : home.slot.count ≤ maxRelayDirectoryEntries) :
    processInbox P nameLimit node inboxTurns home =
      forEach (inboxTurn P nameLimit node inboxTurns) (candidates home.slot) home := by
  have hentries : ¬ maxRelayDirectoryEntries < home.slot.count := by omega
  simp only [processInbox, hentries, if_false]

theorem homeAtFile_readable (hreadable : Readable P home.outcomes) (before : List SlotFile) :
    Readable P (homeAtFile P nameLimit node inboxTurns home before).outcomes :=
  forEach_preserves (fun s : RelayHome => Readable P s.outcomes)
    (fun _ _ h => inboxTurn_readable h) before hreadable

/-- The files of a poll add at most a row each to the ledger. -/
theorem homeAtFile_count (before : List SlotFile) :
    (homeAtFile P nameLimit node inboxTurns home before).outcomes.count ≤
      home.outcomes.count + before.length := by
  unfold homeAtFile
  induction before generalizing home with
  | nil => exact Nat.le_refl _
  | cons file rest ih =>
    have hturn : (inboxTurn P nameLimit node inboxTurns file home).2.outcomes.count ≤
        home.outcomes.count + 1 := inboxTurn_count
    rw [List.length_cons]
    cases hfile : inboxTurn P nameLimit node inboxTurns file home with
    | mk answer home' =>
      rw [hfile] at hturn
      dsimp only at hturn
      cases answer with
      | error e =>
        simp only [forEach, hfile]
        omega
      | ok u =>
        have hrest : (forEach (inboxTurn P nameLimit node inboxTurns) rest home').2.outcomes.count ≤
            home'.outcomes.count + rest.length := ih
        simp only [forEach, hfile]
        omega

/-- The first object is found behind all files. -/
theorem homeAtObject_count (hslot : home.slot.count ≤ maxRelayDirectoryEntries) :
    (homeAtObject P nameLimit node inboxTurns mailboxTurns home []).outcomes.count ≤
      home.outcomes.count + maxRelayFilesPerPoll := by
  have hfew : (candidates home.slot).length ≤ maxRelayFilesPerPoll := List.length_take_le _ _
  have hcount : (homeAtFile P nameLimit node inboxTurns home (candidates home.slot)).outcomes.count ≤
      home.outcomes.count + (candidates home.slot).length := homeAtFile_count _
  unfold homeAtFile at hcount
  unfold homeAtObject
  rw [processInbox_eq hslot]
  exact hcount.trans (Nat.add_le_add_left hfew _)

theorem homeAtObject_readable (hslot : home.slot.count ≤ maxRelayDirectoryEntries)
    (hreadable : Readable P home.outcomes) (before : List Bytes) :
    Readable P (homeAtObject P nameLimit node inboxTurns mailboxTurns home before).outcomes := by
  have hinbox : Readable P (processInbox P nameLimit node inboxTurns home).2.outcomes := by
    rw [processInbox_eq hslot]
    exact homeAtFile_readable hreadable _
  exact forEach_preserves (fun s : RelayHome => Readable P s.outcomes)
    (fun _ _ h => mailboxTurn_readable h) before hinbox

theorem saveSeen_follows : Follows home (saveSeen objects home).2 := by
  unfold saveSeen
  dsimp only
  split
  · exact Follows.refl home
  · exact { Follows.refl home with }

theorem drainMailbox_retains (node : RelayNode) (turns : Bytes → Turn) (objects : List Bytes)
    (home : RelayHome) : Retains home (drainMailbox P node turns objects home).2 := by
  rw [drainMailbox_eq]
  have hstart : Retains home { home with noted := newestSeen home.seen } := { Follows.refl home with }
  refine hstart.trans (Follows.toRetains ?_)
  apply andThen_preserves (Follows _)
  · exact forEach_preserves (Follows _) (fun _ _ h => h.trans mailboxTurn_follows) objects
      (Follows.refl _)
  · exact fun _ h => h.trans saveSeen_follows

section
variable (hslot : home.slot.count ≤ maxRelayDirectoryEntries) (hreadable : Readable P home.outcomes)
  (hfiles : ∀ before file after, candidates home.slot = before ++ file :: after →
    Working (inboxTurns file) (homeAtFile P nameLimit node inboxTurns home before).outcomes)
  (hobjects : ∀ before object after, objects = before ++ object :: after →
    Working (mailboxTurns object)
      (homeAtObject P nameLimit node inboxTurns mailboxTurns home before).outcomes)
include hslot hreadable hfiles hobjects

theorem poll_ok_iff :
    (poll P nameLimit node inboxTurns mailboxTurns objects home).1 = .ok () ↔
    (∀ before file after, candidates home.slot = before ++ file :: after →
      Manageable P nameLimit node (inboxTurns file) file
        (homeAtFile P nameLimit node inboxTurns home before)) ∧
    (∀ before object after, objects = before ++ object :: after →
      ManageableObject P node (mailboxTurns object) object
        (homeAtObject P nameLimit node inboxTurns mailboxTurns home before)) := by
  have hinbox : (processInbox P nameLimit node inboxTurns home).1 = .ok () ↔
      ∀ before file after, candidates home.slot = before ++ file :: after →
        Manageable P nameLimit node (inboxTurns file) file
          (homeAtFile P nameLimit node inboxTurns home before) := by
    rw [processInbox_eq hslot, forEach_ok_iff]
    refine forall_congr' fun before => forall_congr' fun file => forall_congr' fun after => ?_
    refine forall_congr' fun hsplit => ?_
    exact inboxTurn_ok_iff (hfiles before file after hsplit) (homeAtFile_readable hreadable before)
  have hdrain : (drainMailbox P node mailboxTurns objects
      (processInbox P nameLimit node inboxTurns home).2).1 = .ok () ↔
      ∀ before object after, objects = before ++ object :: after →
        ManageableObject P node (mailboxTurns object) object
          (homeAtObject P nameLimit node inboxTurns mailboxTurns home before) := by
    have hsave : ∀ s, (saveSeen objects s).1 = .ok () := fun _ => rfl
    rw [drainMailbox_eq, andThen_ok_iff, forEach_ok_iff]
    simp only [hsave, and_true]
    refine forall_congr' fun before => forall_congr' fun object => forall_congr' fun after => ?_
    refine forall_congr' fun hsplit => ?_
    exact mailboxTurn_ok_iff (hobjects before object after hsplit)
      (homeAtObject_readable hslot hreadable before)
  unfold poll
  rw [andThen_ok_iff, hinbox, hdrain]

theorem poll_settles (hok : (poll P nameLimit node inboxTurns mailboxTurns objects home).1 = .ok ()) :
    PollSettled P nameLimit node inboxTurns mailboxTurns home objects
      (poll P nameLimit node inboxTurns mailboxTurns objects home).2 := by
  unfold poll at hok ⊢
  obtain ⟨hinbox, hdrain⟩ := andThen_ok_iff.mp hok
  rw [andThen_of_ok hinbox]
  have hloop := hdrain
  rw [drainMailbox_eq, andThen_ok_iff] at hloop
  have hrecorded : ∀ before object after, objects = before ++ object :: after →
      ObjectSettled P node (mailboxTurns object) object
        (homeAtObject P nameLimit node inboxTurns mailboxTurns home before)
        (drainMailbox P node mailboxTurns objects
          (processInbox P nameLimit node inboxTurns home).2).2 := by
    intro before object after hsplit
    rw [drainMailbox_eq, andThen_of_ok hloop.1]
    refine ObjectSettled.mono ?_ saveSeen_follows
    apply forEach_establishes (ObjectSettled P node (mailboxTurns object) object _) _ hsplit hloop.1
    · exact mailboxTurn_settles (hobjects before object after hsplit)
        (homeAtObject_readable hslot hreadable before)
        ((forEach_ok_iff _).mp hloop.1 before object after hsplit)
    · exact fun _ _ h => h.mono mailboxTurn_follows
  refine ⟨?_, hrecorded, ?_⟩
  · intro before file after hsplit
    refine FileSettled.mono ?_ (drainMailbox_retains _ _ _ _)
    rw [processInbox_eq hslot] at hinbox ⊢
    apply forEach_establishes (FileSettled P node (inboxTurns file) file _) _ hsplit hinbox
    · exact inboxTurn_settles (hfiles before file after hsplit) (homeAtFile_readable hreadable before)
        ((forEach_ok_iff _).mp hinbox before file after hsplit)
    · exact fun _ _ h => h.mono inboxTurn_follows.toRetains
  · intro hfew object hobject
    obtain ⟨before, after, hsplit⟩ := List.append_of_mem hobject
    have hnoted := (hrecorded before object after hsplit).recorded
    have hsome : objects ≠ [] := List.ne_nil_of_mem hobject
    rw [drainMailbox_eq, andThen_of_ok hloop.1] at hnoted hfew ⊢
    simp only [saveSeen, hsome, if_false] at hnoted hfew ⊢
    rw [newestSeen_of_few hfew]
    exact hnoted

/-- A poll raises nowhere and settles all of it if and only if every file and every object is
manageable in the home in which its turn finds it. -/
theorem poll_settles_iff :
    ((poll P nameLimit node inboxTurns mailboxTurns objects home).1 = .ok () ∧
      PollSettled P nameLimit node inboxTurns mailboxTurns home objects
        (poll P nameLimit node inboxTurns mailboxTurns objects home).2) ↔
    (∀ before file after, candidates home.slot = before ++ file :: after →
      Manageable P nameLimit node (inboxTurns file) file
        (homeAtFile P nameLimit node inboxTurns home before)) ∧
    (∀ before object after, objects = before ++ object :: after →
      ManageableObject P node (mailboxTurns object) object
        (homeAtObject P nameLimit node inboxTurns mailboxTurns home before)) := by
  rw [← poll_ok_iff hslot hreadable hfiles hobjects]
  exact ⟨fun h => h.1, fun h => ⟨h, poll_settles hslot hreadable hfiles hobjects h⟩⟩

end

/-- A poisoned file at the head of the slot stops the poll before it has done anything. -/
theorem poll_stops (hslot : home.slot.count ≤ maxRelayDirectoryEntries) {file : SlotFile}
    {rest : List SlotFile} (hcandidates : candidates home.slot = file :: rest)
    (hworking : Working (inboxTurns file) home.outcomes) (henvelope : ¬ malformed P file)
    (hpoisoned : Poisoned P node (inboxTurns file).policy (.dict (readEnvelope P file))) :
    ∃ e, poll P nameLimit node inboxTurns mailboxTurns objects home = (.error e, home) := by
  obtain ⟨e, hpeek⟩ := (hworking.raises_iff node (readEnvelope_printable P file)).mpr hpoisoned
  have hturn : inboxTurn P nameLimit node inboxTurns file home = (.error e, home) := by
    rcases inboxTurn_cases (P := P) nameLimit node inboxTurns file home with
      ⟨h, _⟩ | ⟨_, _, h, _⟩ | ⟨_, e', h, hturn⟩ | ⟨_, _, h, _⟩
    · exact absurd h henvelope
    · simp [hpeek] at h
    · rw [hpeek, Except.error.injEq, Stop.raised.injEq] at h
      rw [hturn, h]
    · simp [hpeek] at h
  refine ⟨e, ?_⟩
  unfold poll andThen
  rw [processInbox_eq hslot, hcandidates]
  simp only [forEach, hturn]

end

/-- A file with UTF-8 text is read as the text is. -/
theorem readEnvelope_of_text {name text : PyStr} {content : Bytes}
    (h : encodeUtf8 text = .ok content) (hlength : content.length ≤ maxRelayEnvelopeBytes)
    {items : Dict} (hloads : Json.loads P text = .ok (.dict items)) :
    readEnvelope P (name, content) = Json.dictSet items (lit "_file") (.str name) := by
  have hsmall : ¬ maxRelayEnvelopeBytes < content.length := by omega
  have hparse : parseFile P (name, content) = .ok items := by
    simp only [parseFile, hsmall, if_false, decodeUtf8_encodeUtf8 h, hloads, bind, Except.bind, pure,
      Except.pure]
  simp only [readEnvelope, hparse]

namespace Sample

def turn : Turn where
  policy := policy
  verifyAt := 1100
  claimAt := 1100
  answer := lit "done"
  replyAt := 1100
  localTime := lit "now"
  nonceRaw := List.replicate 16 1
  completeAt := 1100
  notedAt := 1100
  fresh := lit "00000000"

def expires (v : Value) : Value := .dict [
  (lit "id", .str (lit "t1")),
  (lit "kind", .str (lit "task")),
  (lit "from", .str Identity.Sample.address),
  (lit "to", .str Identity.Sample.nodeAddress),
  (lit "text", .str (lit "hello")),
  (lit "raven", .dict (Json.dictSet (Identity.Sample.metadata signature) (lit "expires_at") v))]

/-- The envelope of the sender as a document, with an expiry of its own. -/
def document (v : Value) : PyStr := (Json.dumps platform Json.compact (expires v)).toOption.getD []

def content (v : Value) : Bytes := (encodeUtf8 (document v)).toOption.getD []

def poisoned : SlotFile := (lit "a.json", content (.float Json.infinity))
def good : SlotFile := (lit "b.json", content (.int 1600))

/-- A document that is no object. -/
def broken : SlotFile := (lit "a.json", asciiBytes (lit "[]"))

/-- An object of the mailbox that is no task. -/
def unreadable : Bytes := asciiBytes (lit "hello")

def homeWith (files : List SlotFile) : RelayHome :=
  ⟨.empty, files.foldl (fun slot f => slot.set f.1 f.2) .empty, [], [], [], [], .empty, .empty⟩

/-- What the text of a document parses to. -/
def members (text : PyStr) : Dict :=
  match Json.loads platform text with
  | .ok (.dict items) => items
  | _ => []

theorem loads_members {text : PyStr} (h : (members text).isEmpty = false) :
    Json.loads platform text = .ok (.dict (members text)) := by
  unfold members at h ⊢
  split <;> simp_all

theorem content_read {v : Value} (name : PyStr) (h : ((document v).any isSurrogate = false ∧
    (content v).length ≤ maxRelayEnvelopeBytes) ∧ (members (document v)).isEmpty = false) :
    readEnvelope platform (name, content v) =
      Json.dictSet (members (document v)) (lit "_file") (.str name) := by
  obtain ⟨⟨hplain, hlength⟩, hmembers⟩ := h
  have hencoded : encodeUtf8 (document v) = .ok (content v) := by
    simp [content, encodeUtf8, hplain, Except.toOption]
  exact readEnvelope_of_text hencoded hlength (loads_members hmembers)

def raised (x : Except Stop Job) : Bool :=
  match x with
  | .error (.raised _) => true
  | _ => false

def fits (job : Job) : Bool :=
  (buildReply platform node job.taskId job.sender turn.answer turn.localTime turn.replyAt
    turn.nonceRaw).toOption.any fun reply =>
      (serializeReply platform reply).isOk && (envelopePayload platform reply).isOk

/-- What there is to compute about the files, in one evaluation. -/
theorem evaluated :
    ((((document (.float Json.infinity)).any isSurrogate = false ∧
      (content (.float Json.infinity)).length ≤ maxRelayEnvelopeBytes) ∧
        (members (document (.float Json.infinity))).isEmpty = false) ∧
    raised (peek platform node policy 1100 (.dict (Json.dictSet (members (document (.float Json.infinity)))
      (lit "_file") (.str (lit "a.json"))))) = true ∧
    truthy (Dict.getD (Json.dictSet (members (document (.float Json.infinity))) (lit "_file")
      (.str (lit "a.json"))) (lit "_parse_error") .none) = false) ∧
    (((document (.int 1600)).any isSurrogate = false ∧ (content (.int 1600)).length ≤ maxRelayEnvelopeBytes) ∧
      (members (document (.int 1600))).isEmpty = false) ∧
    (peek platform node policy 1100 (.dict (Json.dictSet (members (document (.int 1600))) (lit "_file")
      (.str (lit "b.json"))))).toOption.any (fun job => fits job = true) = true ∧
    truthy (Dict.getD (Json.dictSet (members (document (.int 1600))) (lit "_file")
      (.str (lit "b.json"))) (lit "_parse_error") .none) = false ∧
    malformed platform broken = true := by
  decide +kernel

theorem poisoned_read : readEnvelope platform poisoned =
    Json.dictSet (members (document (.float Json.infinity))) (lit "_file") (.str (lit "a.json")) :=
  content_read _ evaluated.1.1

theorem good_read : readEnvelope platform good =
    Json.dictSet (members (document (.int 1600))) (lit "_file") (.str (lit "b.json")) :=
  content_read _ evaluated.2.1

theorem poisoned_raises : Raises (peek platform node policy 1100
    (.dict (readEnvelope platform poisoned))) := by
  rw [poisoned_read]
  have h := evaluated.1.2.1
  unfold raised at h
  split at h
  · rename_i e he
    exact ⟨e, he⟩
  · cases h

theorem poisoned_envelope : ¬ malformed platform poisoned := by
  unfold malformed
  rw [poisoned_read, evaluated.1.2.2]
  decide

theorem good_envelope : ¬ malformed platform good := by
  unfold malformed
  rw [good_read, evaluated.2.2.2.1]
  decide

theorem broken_malformed : malformed platform broken = true := evaluated.2.2.2.2

theorem isOk_iff {α : Type} {x : Except PyExc α} : x.isOk = true ↔ ∃ a, x = .ok a := by
  cases x <;> simp [Except.isOk, Except.toBool]

theorem replyFits {job : Job} (h : fits job = true) :
    ReplyFits platform node turn job turn.answer := by
  obtain ⟨reply, hreply, hsizes⟩ := (Option.any_eq_true _ _).mp h
  rw [Bool.and_eq_true, isOk_iff, isOk_iff] at hsizes
  exact ⟨reply, toOption_some.mp hreply, hsizes⟩

theorem good_authorised : ∃ job, peek platform node policy 1100
    (.dict (readEnvelope platform good)) = .ok job ∧ fits job = true := by
  rw [good_read]
  obtain ⟨job, hjob, hfits⟩ := exists_of_any (p := fun job => fits job = true)
    (x := (peek platform node policy 1100 (.dict (Json.dictSet (members (document (.int 1600)))
      (lit "_file") (.str (lit "b.json"))))).toOption) evaluated.2.2.1
  exact ⟨job, toOption_some.mp hjob, hfits⟩

theorem clock : ClockReading 1100 := ⟨0x4091300000000000, by decide⟩

theorem raises_iff (f : SlotFile) :
    Raises (peek platform node policy 1100 (.dict (readEnvelope platform f))) ↔
      Poisoned platform node policy (.dict (readEnvelope platform f)) :=
  peek_raises_iff (readEnvelope_printable platform f) clock rfl rfl

theorem working : Working turn .empty := ⟨⟨_, rfl⟩, ⟨_, rfl⟩, clock, by decide⟩

end Sample

/-- The expiry of the first file is infinite, and the task behind it waits. -/
theorem poisoned_envelope_blocks :
    ∃ e, poll Sample.platform 255 Sample.node (fun _ => Sample.turn) (fun _ => Sample.turn) []
        (Sample.homeWith [Sample.poisoned, Sample.good]) =
          (.error e, Sample.homeWith [Sample.poisoned, Sample.good]) ∧
      Sample.good ∈ candidates (Sample.homeWith [Sample.poisoned, Sample.good]).slot ∧
      ∃ job, peek Sample.platform Sample.node Sample.policy 1100
        (.dict (readEnvelope Sample.platform Sample.good)) = .ok job := by
  have hcandidates : candidates (Sample.homeWith [Sample.poisoned, Sample.good]).slot =
      [Sample.poisoned, Sample.good] := by decide +kernel
  have hpoisoned := (Sample.raises_iff Sample.poisoned).mp Sample.poisoned_raises
  obtain ⟨e, hpoll⟩ : ∃ e, poll Sample.platform 255 Sample.node (fun _ => Sample.turn)
      (fun _ => Sample.turn) [] (Sample.homeWith [Sample.poisoned, Sample.good]) =
        (.error e, Sample.homeWith [Sample.poisoned, Sample.good]) :=
    poll_stops (by decide +kernel) hcandidates Sample.working Sample.poisoned_envelope hpoisoned
  obtain ⟨job, hjob, _⟩ := Sample.good_authorised
  refine ⟨e, hpoll, ?_, job, hjob⟩
  rw [hcandidates]
  exact List.mem_cons_of_mem _ List.mem_cons_self

namespace Sample

/-- A malformed file stands before a good one. -/
def mixedHome : RelayHome := homeWith [broken, good]

theorem mixed_splits {before : List SlotFile} {file : SlotFile} {after : List SlotFile}
    (h : candidates mixedHome.slot = before ++ file :: after) :
    (before = [] ∧ file = broken) ∨ (before = [broken] ∧ file = good) := by
  have hcandidates : candidates mixedHome.slot = [broken, good] := by decide +kernel
  rw [hcandidates] at h
  match before, h with
  | [], h => exact Or.inl ⟨rfl, (List.cons.inj h).1.symm⟩
  | [first], h =>
    obtain ⟨rfl, hrest⟩ := List.cons.inj h
    exact Or.inr ⟨rfl, (List.cons.inj hrest).1.symm⟩
  | _ :: _ :: _, h => simp at h

/-- The refused file leaves the ledger as it was. -/
theorem mixed_outcomes :
    (homeAtFile platform 255 node (fun _ => turn) mixedHome [broken]).outcomes = .empty := by
  have hturn : (homeAtFile platform 255 node (fun _ => turn) mixedHome [broken]) =
      (inboxTurn platform 255 node (fun _ => turn) broken mixedHome).2 := by
    unfold homeAtFile forEach forEach
    split <;> rename_i hfile <;> rw [hfile]
  rcases inboxTurn_cases (P := platform) 255 node (fun _ => turn) broken mixedHome with
    ⟨_, reason, h⟩ | ⟨h, _⟩ | ⟨h, _⟩ | ⟨h, _⟩
  · rw [hturn, h, quarantine_outcomes]
    rfl
  · exact absurd broken_malformed h
  · exact absurd broken_malformed h
  · exact absurd broken_malformed h

theorem unreadable_payload (payload : Value) : mailboxPayload platform unreadable ≠ .ok payload := by
  have hhead : unreadable.take 4 ≠ Mesh.rso1Magic := by decide
  obtain ⟨e, he⟩ := Mesh.unwrapBody_head (P := platform) hhead
  simp [mailboxPayload, he, bind, Except.bind]

end Sample

/-- A malformed file is quarantined, the file behind it is answered, and an object that is no
task is noted. -/
theorem poll_settles_iff_sample :
    (poll Sample.platform 255 Sample.node (fun _ => Sample.turn) (fun _ => Sample.turn)
        [Sample.unreadable] Sample.mixedHome).1 = .ok () ∧
      PollSettled Sample.platform 255 Sample.node (fun _ => Sample.turn) (fun _ => Sample.turn)
        Sample.mixedHome [Sample.unreadable]
        (poll Sample.platform 255 Sample.node (fun _ => Sample.turn) (fun _ => Sample.turn)
          [Sample.unreadable] Sample.mixedHome).2 := by
  have hreadable : Readable Sample.platform Sample.mixedHome.outcomes := by
    intro key row json hrow
    cases hrow
  have hobject : ∀ before object after, [Sample.unreadable] = before ++ object :: after →
      before = [] ∧ object = Sample.unreadable := by
    intro before object after hsplit
    cases before with
    | nil => exact ⟨rfl, (List.cons.inj hsplit).1.symm⟩
    | cons first rest => simp at hsplit
  have hslot : Sample.mixedHome.slot.count ≤ maxRelayDirectoryEntries := by decide +kernel
  obtain ⟨job, hjob, hfits⟩ := Sample.good_authorised
  refine (poll_settles_iff hslot hreadable ?_ ?_).mpr ⟨?_, ?_⟩
  · intro before file after hsplit
    rcases Sample.mixed_splits hsplit with ⟨rfl, rfl⟩ | ⟨rfl, rfl⟩
    · exact Sample.working
    · rw [Sample.mixed_outcomes]
      exact Sample.working
  · intro before object after hsplit
    obtain ⟨rfl, rfl⟩ := hobject before object after hsplit
    have hbelow : Sample.mixedHome.outcomes.count + maxRelayFilesPerPoll < maxRelayOutcomes := by decide
    exact ⟨⟨_, rfl⟩, ⟨_, rfl⟩, Sample.clock,
      (filter_count_le _ _).trans_lt ((homeAtObject_count hslot).trans_lt hbelow)⟩
  · intro before file after hsplit
    rcases Sample.mixed_splits hsplit with ⟨rfl, rfl⟩ | ⟨rfl, rfl⟩
    · exact ⟨absurd Sample.broken_malformed, fun _ _ => by decide +kernel,
        absurd Sample.broken_malformed⟩
    · refine ⟨fun _ hpoisoned => ?_, ?_, fun _ job' hjob' => ?_⟩
      · obtain ⟨e, he⟩ := (Sample.raises_iff Sample.good).mpr hpoisoned
        rw [hjob] at he
        cases he
      · rintro (hmalformed | ⟨reason, hrefused⟩)
        · exact absurd hmalformed Sample.good_envelope
        · cases hjob.symm.trans hrefused
      · obtain rfl := Except.ok.inj (hjob.symm.trans hjob')
        rw [Sample.mixed_outcomes]
        exact Sample.replyFits hfits
  · intro before object after hsplit
    obtain ⟨rfl, rfl⟩ := hobject before object after hsplit
    constructor
    · intro _ payload hpayload
      exact (Sample.unreadable_payload payload hpayload).elim
    · intro _ payload _ hpayload
      exact (Sample.unreadable_payload payload hpayload).elim

end Rdap.Relay
