import Rdap.Relay.Poison
import Rdap.Relay.Poll

/-!
# A poll gets through

What a turn of the inbox or of the mailbox needs in order not to raise, and what it leaves
behind. A poll that raises nowhere has settled every file and every object.
-/

set_option autoImplicit false

namespace Rdap.Relay
open Python Protocol Lib Identity Agent

variable {P : Platform}

/-! ## The ledger of outcomes -/

/-- Every stored reply can be read back. -/
def Readable (P : Platform) (db : Outcomes) : Prop :=
  ∀ key row json, db.get? key = some row → row.state = .completed json →
    ∃ reply, cachedReply P json = .ok reply

theorem Readable.filter {db : Outcomes} (h : Readable P db) (p : PyStr × Outcome → Bool) :
    Readable P (db.filter p) := by
  intro key row json hrow
  rw [KeyedTable.get?_filter] at hrow
  exact h key row json (Option.filter_eq_some_iff.mp hrow).1

theorem Readable.set {db : Outcomes} (h : Readable P db) {key : PyStr} {row : Outcome}
    (hrow : ∀ json, row.state = .completed json → ∃ reply, cachedReply P json = .ok reply) :
    Readable P (db.set key row) := by
  intro key' row' json hfound hstate
  rw [KeyedTable.get?_set] at hfound
  split at hfound
  · obtain rfl := Option.some.inj hfound
    exact hrow json hstate
  · exact h key' row' json hfound hstate

/-- The row that a claim looks at. -/
def rowAt (P : Platform) (turn : Turn) (job : Job) (db : Outcomes) : Option Outcome :=
  (live turn.claimAt db).get? ((signatureHash P job.signature).toOption.getD [])

theorem filter_count_le (db : Outcomes) (p : PyStr × Outcome → Bool) :
    (db.filter p).count ≤ db.count := List.length_filter_le _ _

theorem set_count (db : Outcomes) (key : PyStr) (row : Outcome) :
    (db.set key row).count = if db.contains key then db.count else db.count + 1 := by
  unfold KeyedTable.set KeyedTable.count
  split <;> simp

section
variable {turn : Turn} {job : Job} {key : PyStr} {db : Outcomes}

theorem rowAt_eq (hkey : signatureHash P job.signature = .ok key) :
    rowAt P turn job db = (live turn.claimAt db).get? key := by
  simp [rowAt, hkey, Except.toOption]

/-- A claim is answered by the row it finds, or takes the delivery. -/
theorem claim_answers (hkey : signatureHash P job.signature = .ok key) (hreadable : Readable P db)
    (hlimit : (live turn.claimAt db).count < maxRelayOutcomes) :
    (rowAt P turn job db = none ∧
      claim P noFaults turn.claimAt job.signature job.expiresAt db =
        (.ok .new, (live turn.claimAt db).set key ⟨job.expiresAt, .processing⟩)) ∨
    (∃ expiresAt, rowAt P turn job db = some ⟨expiresAt, .processing⟩ ∧
      claim P noFaults turn.claimAt job.signature job.expiresAt db =
        (.ok .interrupted, live turn.claimAt db)) ∨
    (∃ expiresAt json reply, rowAt P turn job db = some ⟨expiresAt, .completed json⟩ ∧
      cachedReply P json = .ok reply ∧
      claim P noFaults turn.claimAt job.signature job.expiresAt db =
        (.ok (.completed reply), live turn.claimAt db)) := by
  rw [rowAt_eq hkey]
  have hexecute : ∀ statement,
      execute noFaults (lit "relay outcome database unavailable") statement = .ok () :=
    fun _ => rfl
  cases hrow : (live turn.claimAt db).get? key with
  | none =>
    have hfits : ¬ (live turn.claimAt db).count ≥ maxRelayOutcomes := by omega
    have htransaction : claimTransaction noFaults turn.claimAt key job.expiresAt db =
        .ok (none, (live turn.claimAt db).set key ⟨job.expiresAt, .processing⟩) := by
      simp only [claimTransaction, hexecute, hrow, hfits, if_false, bind, Except.bind, pure,
        Except.pure]
    exact Or.inl ⟨rfl, by simp only [claim, hkey, htransaction, foundAnswer]⟩
  | some row =>
    have htransaction : claimTransaction noFaults turn.claimAt key job.expiresAt db =
        .ok (some row.state, live turn.claimAt db) := by
      simp only [claimTransaction, hexecute, hrow, bind, Except.bind, pure, Except.pure]
    obtain ⟨expiresAt, state⟩ := row
    cases state with
    | processing =>
      exact Or.inr (Or.inl ⟨expiresAt, rfl,
        by simp only [claim, hkey, htransaction, foundAnswer]⟩)
    | completed json =>
      obtain ⟨reply, hreply⟩ := hreadable.filter _ key _ json hrow rfl
      exact Or.inr (Or.inr ⟨expiresAt, json, reply, rfl, hreply,
        by simp only [claim, hkey, htransaction, foundAnswer, hreply, Except.map]⟩)

/-- A completion of a claimed delivery fails only if the reply cannot be stored. -/
theorem complete_answers {row : Outcome} (hkey : signatureHash P job.signature = .ok key)
    (hrow : db.get? key = some row) (now : Int) (reply : Dict) :
    (∃ serialized, serializeReply P reply = .ok serialized ∧
      complete P noFaults now job.signature job.expiresAt reply db =
        (.ok (), (housekept now key db).set key ⟨job.expiresAt, .completed serialized⟩)) ∨
    (∃ e, serializeReply P reply = .error e ∧
      complete P noFaults now job.signature job.expiresAt reply db = (.error e, db)) := by
  cases hserialized : serializeReply P reply with
  | error e => exact Or.inr ⟨e, rfl, by simp only [complete, hserialized]⟩
  | ok serialized =>
    have hcontains : (housekept now key db).contains key = true := by
      simp [KeyedTable.contains, housekept, KeyedTable.get?_filter, hrow]
    have hexecute : ∀ statement,
        execute noFaults (lit "cannot persist relay outcome") statement = .ok () := fun _ => rfl
    refine Or.inl ⟨serialized, rfl, ?_⟩
    simp only [complete, hserialized, hkey, completeTransaction, hexecute, hcontains, if_true, bind,
      Except.bind, pure, Except.pure]

end

/-! ## What is never taken back -/

/-- Nothing that a home had settled is open in a later one. -/
structure Retains (s t : RelayHome) : Prop where
  slot : ∀ name, s.slot.get? name = none → t.slot.get? name = none
  evidence : s.evidence ⊆ t.evidence
  outbox : s.outbox ⊆ t.outbox
  runs : s.runs ⊆ t.runs

theorem Retains.trans {s t u : RelayHome} (h : Retains s t) (h' : Retains t u) : Retains s u :=
  ⟨fun name hs => h'.slot name (h.slot name hs), fun _ hs => h'.evidence (h.evidence hs),
    fun _ hs => h'.outbox (h.outbox hs), fun _ hs => h'.runs (h.runs hs)⟩

/-- Within a loop the dictionary in memory grows as well. -/
structure Follows (s t : RelayHome) : Prop extends Retains s t where
  noted : ∀ key, s.noted.contains key = true → t.noted.contains key = true

theorem Follows.refl (s : RelayHome) : Follows s s :=
  ⟨⟨fun _ h => h, fun _ h => h, fun _ h => h, fun _ h => h⟩, fun _ h => h⟩

theorem Follows.trans {s t u : RelayHome} (h : Follows s t) (h' : Follows t u) : Follows s u :=
  ⟨h.toRetains.trans h'.toRetains, fun key hs => h'.noted key (h.noted key hs)⟩

/-! ## Serving a job -/

/-- The reply with a given text can be made, stored and published. -/
def ReplyFits (P : Platform) (node : RelayNode) (turn : Turn) (job : Job) (answer : PyStr) : Prop :=
  ∃ reply, buildReply P node job.taskId job.sender answer turn.localTime turn.replyAt
      turn.nonceRaw = .ok reply ∧
    (∃ serialized, serializeReply P reply = .ok serialized) ∧
    ∃ payload, envelopePayload P reply = .ok payload

/-- The reply that goes out for a job fits. -/
def AnswerFits (P : Platform) (carrier : Carrier) (node : RelayNode) (turn : Turn) (job : Job)
    (db : Outcomes) : Prop :=
  match rowAt P turn job db with
  | none => ReplyFits P node turn job turn.answer
  | some ⟨_, .processing⟩ => ReplyFits P node turn job (interruptedAnswer carrier)
  | some ⟨_, .completed json⟩ => ∃ reply, cachedReply P json = .ok reply ∧
      ∃ payload, envelopePayload P reply = .ok payload

/-- The file of the reply to a job. -/
def replyPath (P : Platform) (job : Job) : PyStr × PyStr :=
  (job.sender, hex (P.sha256 (encodeUtf8Replace job.taskId)))

/-- A reply to the job was written. -/
def Answered (P : Platform) (job : Job) (home : RelayHome) : Prop :=
  ∃ reply, (replyPath P job, reply) ∈ home.outbox

section
variable {node : RelayNode} {turn : Turn} {job : Job} {home : RelayHome}

theorem publish_ok_iff (reply : Dict) : (publish P job reply home).1 = .ok () ↔
    ∃ payload, envelopePayload P reply = .ok payload := by
  unfold publish
  cases envelopePayload P reply <;> simp

theorem publish_follows (reply : Dict) : Follows home (publish P job reply home).2 := by
  unfold publish
  split
  · exact Follows.refl home
  · exact { Follows.refl home with outbox := List.subset_cons_self _ _ }

theorem publish_outcomes (reply : Dict) : (publish P job reply home).2.outcomes = home.outcomes := by
  unfold publish
  split <;> rfl

theorem publish_answered {reply : Dict} (h : (publish P job reply home).1 = .ok ()) :
    Answered P job (publish P job reply home).2 := by
  obtain ⟨payload, hpayload⟩ := (publish_ok_iff reply).mp h
  unfold publish
  rw [hpayload]
  exact ⟨reply, List.mem_cons_self⟩

theorem publish_runs (reply : Dict) : (publish P job reply home).2.runs = home.runs := by
  unfold publish
  split <;> rfl

theorem conclude_follows (answer : PyStr) : Follows home (conclude P node turn job answer home).2 := by
  unfold conclude
  split
  · exact Follows.refl home
  · split
    · exact { Follows.refl home with }
    · rename_i outcomes _
      have hledger : Follows home { home with outcomes } := { Follows.refl home with }
      exact hledger.trans (publish_follows _)

theorem conclude_runs (answer : PyStr) : (conclude P node turn job answer home).2.runs = home.runs := by
  unfold conclude
  split
  · rfl
  · split
    · rfl
    · exact publish_runs _

theorem conclude_readable (hreadable : Readable P home.outcomes) (answer : PyStr) :
    Readable P (conclude P node turn job answer home).2.outcomes := by
  unfold conclude
  split
  · exact hreadable
  · rename_i reply hreply
    split
    · rename_i e outcomes hcomplete
      rw [complete_error P hcomplete]
      exact hreadable
    · rename_i u outcomes hcomplete
      rw [publish_outcomes]
      obtain ⟨serialized, key, hserialized, _, _, rfl⟩ := complete_ok P hcomplete
      apply (hreadable.filter _).set
      intro json hjson
      obtain rfl := OutcomeState.completed.inj hjson
      exact ⟨reply, cachedReply_serialized P (buildReply_plain hreply) hserialized⟩

/-- A completion overwrites the row of its claim. -/
theorem conclude_count (answer : PyStr) :
    (conclude P node turn job answer home).2.outcomes.count ≤ home.outcomes.count := by
  unfold conclude
  split
  · exact Nat.le_refl _
  · split
    · rename_i e outcomes hcomplete
      rw [complete_error P hcomplete]
    · rename_i u outcomes hcomplete
      rw [publish_outcomes]
      obtain ⟨serialized, key, _, _, ⟨row, hrow⟩, rfl⟩ := complete_ok P hcomplete
      have hcontains : (housekept turn.completeAt key home.outcomes).contains key = true := by
        simp [KeyedTable.contains, hrow]
      rw [set_count, if_pos hcontains]
      exact filter_count_le _ _

theorem conclude_ok_iff {key : PyStr} {row : Outcome} (answer : PyStr)
    (hkey : signatureHash P job.signature = .ok key) (hrow : home.outcomes.get? key = some row) :
    (conclude P node turn job answer home).1 = .ok () ↔ ReplyFits P node turn job answer := by
  unfold conclude ReplyFits
  cases buildReply P node job.taskId job.sender answer turn.localTime turn.replyAt turn.nonceRaw with
  | error e => simp
  | ok reply =>
    rcases complete_answers hkey hrow turn.completeAt reply with
      ⟨serialized, hserialized, hcomplete⟩ | ⟨e, hserialized, hcomplete⟩
    · simp only [hcomplete, publish_ok_iff, Except.ok.injEq, exists_eq_left', hserialized,
        exists_eq', true_and]
    · simp [hcomplete, hserialized]

theorem conclude_answered {answer : PyStr} (h : (conclude P node turn job answer home).1 = .ok ()) :
    Answered P job (conclude P node turn job answer home).2 := by
  unfold conclude at h ⊢
  split
  · rename_i e he
    simp [he] at h
  · rename_i reply hreply
    simp only [hreply] at h
    split
    · rename_i e outcomes hcomplete
      simp [hcomplete] at h
    · rename_i u outcomes hcomplete
      simp only [hcomplete] at h
      exact publish_answered h

theorem serve_ok_iff {carrier : Carrier} {key : PyStr}
    (hkey : signatureHash P job.signature = .ok key) (hreadable : Readable P home.outcomes)
    (hlimit : (live turn.claimAt home.outcomes).count < maxRelayOutcomes) :
    (serve P carrier node turn job home).1 = .ok () ↔
      AnswerFits P carrier node turn job home.outcomes := by
  unfold serve AnswerFits
  rcases claim_answers hkey hreadable hlimit with
    ⟨hrow, hclaim⟩ | ⟨expiresAt, hrow, hclaim⟩ | ⟨expiresAt, json, reply, hrow, hreply, hclaim⟩
  · simp only [hclaim, hrow]
    exact conclude_ok_iff _ hkey (KeyedTable.get?_set_self _ _ _)
  · simp only [hclaim, hrow]
    rw [rowAt_eq hkey] at hrow
    exact conclude_ok_iff _ hkey hrow
  · simp only [hclaim, hrow, publish_ok_iff, hreply, Except.ok.injEq, exists_eq_left']

theorem serve_follows (carrier : Carrier) :
    Follows home (serve P carrier node turn job home).2 := by
  have hledger : ∀ outcomes, Follows home { home with outcomes } :=
    fun _ => { Follows.refl home with }
  unfold serve
  split
  · exact hledger _
  · exact (hledger _).trans (publish_follows _)
  · exact (hledger _).trans (conclude_follows _)
  · rename_i outcomes _
    have hcalled : Follows home { home with outcomes, runs := job :: home.runs } :=
      { Follows.refl home with runs := List.subset_cons_self _ _ }
    exact hcalled.trans (conclude_follows _)

theorem serve_readable {carrier : Carrier} {key : PyStr}
    (hkey : signatureHash P job.signature = .ok key) (hreadable : Readable P home.outcomes) :
    Readable P (serve P carrier node turn job home).2.outcomes := by
  cases hclaim : claim P noFaults turn.claimAt job.signature job.expiresAt home.outcomes with
  | mk answer outcomes =>
    have hclaimed : Readable P outcomes := by
      rcases claim_cases P hkey hclaim with ⟨_, _, rfl⟩ | ⟨rfl, _⟩ | ⟨rfl, _⟩
      · apply (hreadable.filter _).set
        rintro json ⟨⟩
      · exact hreadable.filter _
      · exact hreadable
    unfold serve
    rw [hclaim]
    cases answer with
    | error e => exact hclaimed
    | ok answer =>
      cases answer with
      | new => exact conclude_readable hclaimed _
      | interrupted => exact conclude_readable hclaimed _
      | completed reply =>
        dsimp only
        rw [publish_outcomes]
        exact hclaimed

/-- A served job adds at most its own row. -/
theorem serve_count {carrier : Carrier} {key : PyStr} (hkey : signatureHash P job.signature = .ok key) :
    (serve P carrier node turn job home).2.outcomes.count ≤ home.outcomes.count + 1 := by
  cases hclaim : claim P noFaults turn.claimAt job.signature job.expiresAt home.outcomes with
  | mk answer outcomes =>
    have hlive := filter_count_le home.outcomes fun row => turn.claimAt < row.2.expiresAt
    have hclaimed : outcomes.count ≤ home.outcomes.count + 1 := by
      rcases claim_cases P hkey hclaim with ⟨_, _, rfl⟩ | ⟨rfl, _⟩ | ⟨rfl, _⟩
      · rw [set_count, live]
        split <;> omega
      · exact hlive.trans (Nat.le_succ _)
      · exact Nat.le_succ _
    unfold serve
    rw [hclaim]
    cases answer with
    | error e => exact hclaimed
    | ok answer =>
      cases answer with
      | new => exact (conclude_count _).trans hclaimed
      | interrupted => exact (conclude_count _).trans hclaimed
      | completed reply =>
        dsimp only
        rw [publish_outcomes]
        exact hclaimed

/-- A served job has its reply, and the brain was called now unless a row was found. -/
theorem serve_settles {carrier : Carrier} {key : PyStr}
    (hkey : signatureHash P job.signature = .ok key) (hreadable : Readable P home.outcomes)
    (hlimit : (live turn.claimAt home.outcomes).count < maxRelayOutcomes)
    (hok : (serve P carrier node turn job home).1 = .ok ()) :
    Answered P job (serve P carrier node turn job home).2 ∧
      (job ∈ (serve P carrier node turn job home).2.runs ∨ rowAt P turn job home.outcomes ≠ none) := by
  unfold serve at hok ⊢
  rcases claim_answers hkey hreadable hlimit with
    ⟨hrow, hclaim⟩ | ⟨expiresAt, hrow, hclaim⟩ | ⟨expiresAt, json, reply, hrow, hreply, hclaim⟩
  · simp only [hclaim] at hok ⊢
    exact ⟨conclude_answered hok, Or.inl (by rw [conclude_runs]; exact List.mem_cons_self)⟩
  · simp only [hclaim] at hok ⊢
    exact ⟨conclude_answered hok, Or.inr (by simp [hrow])⟩
  · simp only [hclaim] at hok ⊢
    exact ⟨publish_answered hok, Or.inr (by simp [hrow])⟩

end

/-- What is served has a signature that the ledger can hash. -/
theorem peek_hashable {node : RelayNode} {policy : Policy} {now : Int} {envelope : Value} {job : Job}
    (h : peek P node policy now envelope = .ok job) :
    ∃ key, signatureHash P job.signature = .ok key := by
  simp only [peek, bind_ok, orReject_ok, pure_ok] at h
  obtain ⟨env, henv, _, _, _, _, _, _, _, _, _, _, _, _, _, _, _, _, rfl⟩ := h
  exact (validatedEnvelope_ok henv).signature

/-! ## A turn of the inbox -/

/-- The evidence of a refusal has a name that the file system takes. -/
def NameFits (nameLimit : Nat) (turn : Turn) (file : SlotFile) (home : RelayHome) : Prop :=
  file.2.length ≤ maxRelayEnvelopeBytes →
    nameLength (quarantineName turn file home.quarantine) + 26 ≤ nameLimit

/-- A candidate that its turn can deal with. -/
structure Manageable (P : Platform) (nameLimit : Nat) (node : RelayNode) (turn : Turn)
    (file : SlotFile) (home : RelayHome) : Prop where
  unpoisoned : ¬ malformed P file → ¬ Poisoned P node turn.policy (.dict (readEnvelope P file))
  refused : (malformed P file ∨ ∃ reason, peek P node turn.policy turn.verifyAt
    (.dict (readEnvelope P file)) = .error (.rejected reason)) → NameFits nameLimit turn file home
  answered : ¬ malformed P file → ∀ job,
    peek P node turn.policy turn.verifyAt (.dict (readEnvelope P file)) = .ok job →
    AnswerFits P .inbox node turn job home.outcomes

/-- The surroundings of a turn: readable policy files, a working clock, and a database that is
below its entry limit. -/
structure Working (turn : Turn) (db : Outcomes) : Prop where
  peers : ∃ peers, turn.policy.peers = .ok peers
  revocations : ∃ revoked, turn.policy.revocations = .ok revoked
  clock : ClockReading turn.verifyAt
  below : (live turn.claimAt db).count < maxRelayOutcomes

theorem Working.raises_iff {turn : Turn} {db : Outcomes} (h : Working turn db) (node : RelayNode)
    {envelope : Value} (hprintable : Json.Printable envelope) :
    Raises (peek P node turn.policy turn.verifyAt envelope) ↔ Poisoned P node turn.policy envelope := by
  obtain ⟨peers, hpeers⟩ := h.peers
  obtain ⟨revoked, hrevocations⟩ := h.revocations
  exact peek_raises_iff hprintable h.clock hpeers hrevocations

theorem readEnvelope_printable (P : Platform) (file : SlotFile) :
    Json.Printable (.dict (readEnvelope P file)) := by
  apply (Json.printableMembers_iff _).mpr
  intro item hitem
  unfold readEnvelope at hitem
  split at hitem
  · rename_i items hparse
    rcases Json.dictSet_mem hitem with hmem | rfl
    · unfold parseFile at hparse
      split at hparse
      · cases hparse
      · simp only [bind_ok] at hparse
        obtain ⟨text, _, value, hloads, hparse⟩ := hparse
        split at hparse
        · rw [pure_ok] at hparse
          subst hparse
          exact (Json.printableMembers_iff _).mp (Json.loads_printable hloads) item hmem
        · cases hparse
    · trivial
  · simp only [List.mem_cons, List.not_mem_nil, or_false] at hitem
    rcases hitem with rfl | rfl <;> trivial

section
variable {nameLimit : Nat} {node : RelayNode} {turn : Turn} {file : SlotFile} {home : RelayHome}

theorem quarantine_ok_iff (reason : PyStr) :
    (quarantine P nameLimit turn file reason home).1 = .ok () ↔
      NameFits nameLimit turn file home := by
  unfold quarantine NameFits
  dsimp only
  split
  · rename_i hlarge
    simp only [true_iff]
    omega
  · split
    · simp only [reduceCtorEq, false_iff]
      omega
    · split
      · simp only [reduceCtorEq, false_iff]
        omega
      · simp only [true_iff]
        omega

theorem quarantine_outcomes (reason : PyStr) :
    (quarantine P nameLimit turn file reason home).2.outcomes = home.outcomes := by
  unfold quarantine
  dsimp only
  split
  · rfl
  · split
    · rfl
    · split <;> rfl

theorem slot_erase (s : KeyedTable PyStr Bytes) (name : PyStr) {other : PyStr}
    (h : s.get? other = none) : (s.erase name).get? other = none := by
  rw [KeyedTable.get?_erase]
  split
  · rfl
  · exact h

theorem quarantine_follows (reason : PyStr) :
    Follows home (quarantine P nameLimit turn file reason home).2 := by
  have hmoved : ∀ names, Follows home { home with
      slot := home.slot.erase file.1, evidence := (file, reason) :: home.evidence,
      quarantine := names } := fun _ =>
    { Follows.refl home with
      slot := fun _ h => slot_erase _ _ h
      evidence := List.subset_cons_self _ _ }
  unfold quarantine
  dsimp only
  split
  · exact hmoved _
  · split
    · exact Follows.refl home
    · split
      · exact hmoved _
      · exact hmoved _

theorem quarantine_settles {reason : PyStr}
    (hok : (quarantine P nameLimit turn file reason home).1 = .ok ()) :
    (quarantine P nameLimit turn file reason home).2.slot.get? file.1 = none ∧
      (file, reason) ∈ (quarantine P nameLimit turn file reason home).2.evidence := by
  have herased : (home.slot.erase file.1).get? file.1 = none := by
    rw [KeyedTable.get?_erase, if_pos rfl]
  unfold quarantine at hok ⊢
  dsimp only at hok ⊢
  split at hok
  · rename_i hlarge
    rw [if_pos hlarge]
    exact ⟨herased, List.mem_cons_self⟩
  · rename_i hsmall
    split at hok
    · cases hok
    · rename_i hname
      split at hok
      · cases hok
      · rename_i hlong
        rw [if_neg hsmall, if_neg hname, if_neg hlong]
        exact ⟨herased, List.mem_cons_self⟩

theorem unlink_follows : Follows home (unlink file home).2 :=
  { Follows.refl home with slot := fun _ h => slot_erase _ _ h }

/-- What a turn does: it refuses, raises, or serves and removes. -/
theorem inboxTurn_cases (nameLimit : Nat) (node : RelayNode) (turns : SlotFile → Turn)
    (file : SlotFile) (home : RelayHome) :
    (malformed P file ∧ ∃ reason, inboxTurn P nameLimit node turns file home =
      quarantine P nameLimit (turns file) file reason home) ∨
    (¬ malformed P file ∧ ∃ reason, peek P node (turns file).policy (turns file).verifyAt
        (.dict (readEnvelope P file)) = .error (.rejected reason) ∧
      inboxTurn P nameLimit node turns file home =
        quarantine P nameLimit (turns file) file reason home) ∨
    (¬ malformed P file ∧ ∃ e, peek P node (turns file).policy (turns file).verifyAt
        (.dict (readEnvelope P file)) = .error (.raised e) ∧
      inboxTurn P nameLimit node turns file home = (.error e, home)) ∨
    (¬ malformed P file ∧ ∃ job, peek P node (turns file).policy (turns file).verifyAt
        (.dict (readEnvelope P file)) = .ok job ∧
      inboxTurn P nameLimit node turns file home =
        andThen (serve P .inbox node (turns file) job) (unlink file) home) := by
  unfold inboxTurn
  by_cases hmalformed : malformed P file
  · obtain ⟨text, htext⟩ := pyStr_defined (P := P)
      (getD_printable (readEnvelope_printable P file) (lit "_parse_error") (v := .none) trivial)
    refine Or.inl ⟨hmalformed, lit "invalid JSON envelope: " ++ text, ?_⟩
    dsimp only
    rw [if_pos hmalformed, htext]
  · refine Or.inr ?_
    dsimp only
    rw [if_neg hmalformed]
    cases hpeek : peek P node (turns file).policy (turns file).verifyAt
        (.dict (readEnvelope P file)) with
    | ok job => exact Or.inr (Or.inr ⟨hmalformed, job, rfl, rfl⟩)
    | error stop =>
      cases stop with
      | rejected reason => exact Or.inl ⟨hmalformed, reason, rfl, rfl⟩
      | raised e => exact Or.inr (Or.inl ⟨hmalformed, e, rfl, rfl⟩)

variable {turns : SlotFile → Turn}

theorem inboxTurn_ok_iff (hworking : Working (turns file) home.outcomes)
    (hreadable : Readable P home.outcomes) :
    (inboxTurn P nameLimit node turns file home).1 = .ok () ↔
      Manageable P nameLimit node (turns file) file home := by
  have hraises := hworking.raises_iff (P := P) node (readEnvelope_printable P file)
  rcases inboxTurn_cases (P := P) nameLimit node turns file home with
    ⟨hmalformed, reason, hturn⟩ | ⟨hmalformed, reason, hpeek, hturn⟩ |
      ⟨hmalformed, e, hpeek, hturn⟩ | ⟨hmalformed, job, hpeek, hturn⟩
  · rw [hturn, quarantine_ok_iff]
    exact ⟨fun hname => ⟨absurd hmalformed, fun _ => hname, absurd hmalformed⟩,
      fun h => h.refused (Or.inl hmalformed)⟩
  · rw [hturn, quarantine_ok_iff]
    refine ⟨fun hname => ⟨fun _ hpoisoned => ?_, fun _ => hname, fun _ job hjob => ?_⟩,
      fun h => h.refused (Or.inr ⟨reason, hpeek⟩)⟩
    · obtain ⟨e, he⟩ := hraises.mpr hpoisoned
      simp [hpeek] at he
    · simp [hpeek] at hjob
  · rw [hturn]
    exact ⟨fun h => by simp at h, fun h => absurd (hraises.mp ⟨e, hpeek⟩) (h.unpoisoned hmalformed)⟩
  · obtain ⟨key, hkey⟩ := peek_hashable hpeek
    rw [hturn, andThen_ok_iff, serve_ok_iff hkey hreadable hworking.below]
    constructor
    · rintro ⟨hanswer, _⟩
      refine ⟨fun _ hpoisoned => ?_, ?_, fun _ job' hjob => ?_⟩
      · obtain ⟨e, he⟩ := hraises.mpr hpoisoned
        simp [hpeek] at he
      · rintro (h | ⟨reason, h⟩)
        · exact absurd h hmalformed
        · simp [hpeek] at h
      · obtain rfl := Except.ok.inj (hpeek.symm.trans hjob)
        exact hanswer
    · intro h
      exact ⟨h.answered hmalformed job hpeek, rfl⟩

theorem inboxTurn_follows : Follows home (inboxTurn P nameLimit node turns file home).2 := by
  rcases inboxTurn_cases (P := P) nameLimit node turns file home with
    ⟨_, reason, hturn⟩ | ⟨_, reason, _, hturn⟩ | ⟨_, e, _, hturn⟩ | ⟨_, job, _, hturn⟩
  · rw [hturn]
    exact quarantine_follows reason
  · rw [hturn]
    exact quarantine_follows reason
  · rw [hturn]
    exact Follows.refl home
  · rw [hturn]
    exact andThen_preserves (Follows home) (serve_follows _) fun _ h => h.trans unlink_follows

theorem inboxTurn_readable (hreadable : Readable P home.outcomes) :
    Readable P (inboxTurn P nameLimit node turns file home).2.outcomes := by
  rcases inboxTurn_cases (P := P) nameLimit node turns file home with
    ⟨_, reason, hturn⟩ | ⟨_, reason, _, hturn⟩ | ⟨_, e, _, hturn⟩ | ⟨_, job, hpeek, hturn⟩
  · rw [hturn, quarantine_outcomes]
    exact hreadable
  · rw [hturn, quarantine_outcomes]
    exact hreadable
  · rw [hturn]
    exact hreadable
  · obtain ⟨key, hkey⟩ := peek_hashable hpeek
    rw [hturn]
    exact andThen_preserves (fun s : RelayHome => Readable P s.outcomes) (serve_readable hkey hreadable)
      fun _ h => h

/-- A turn adds at most one row to the ledger. -/
theorem inboxTurn_count :
    (inboxTurn P nameLimit node turns file home).2.outcomes.count ≤ home.outcomes.count + 1 := by
  rcases inboxTurn_cases (P := P) nameLimit node turns file home with
    ⟨_, reason, hturn⟩ | ⟨_, reason, _, hturn⟩ | ⟨_, e, _, hturn⟩ | ⟨_, job, hpeek, hturn⟩
  · rw [hturn, quarantine_outcomes]
    exact Nat.le_succ _
  · rw [hturn, quarantine_outcomes]
    exact Nat.le_succ _
  · rw [hturn]
    exact Nat.le_succ _
  · obtain ⟨key, hkey⟩ := peek_hashable hpeek
    rw [hturn]
    exact andThen_preserves (fun s : RelayHome => s.outcomes.count ≤ home.outcomes.count + 1)
      (serve_count hkey) fun _ h => h

/-- A job whose turn came: its reply is out, and the brain was called unless a row was found. -/
def Delivered (P : Platform) (turn : Turn) (job : Job) (found home : RelayHome) : Prop :=
  Answered P job home ∧ (job ∈ home.runs ∨ rowAt P turn job found.outcomes ≠ none)

theorem Delivered.mono {job : Job} {found s t : RelayHome} (h : Delivered P turn job found s)
    (hretains : Retains s t) : Delivered P turn job found t := by
  obtain ⟨⟨reply, hreply⟩, hrun⟩ := h
  exact ⟨⟨reply, hretains.outbox hreply⟩, hrun.imp_left (hretains.runs ·)⟩

/-- A candidate that was found in one home and is dealt with in another. -/
structure FileSettled (P : Platform) (node : RelayNode) (turn : Turn) (file : SlotFile)
    (found home : RelayHome) : Prop where
  removed : home.slot.get? file.1 = none
  /-- It is in quarantine, or it brought a job that has its reply. -/
  accounted : (∃ reason, (file, reason) ∈ home.evidence) ∨ (¬ malformed P file ∧ ∃ job,
    peek P node turn.policy turn.verifyAt (.dict (readEnvelope P file)) = .ok job ∧
      Answered P job home)
  executed : ¬ malformed P file → ∀ job,
    peek P node turn.policy turn.verifyAt (.dict (readEnvelope P file)) = .ok job →
    Delivered P turn job found home

theorem FileSettled.mono {found s t : RelayHome} (h : FileSettled P node turn file found s)
    (hretains : Retains s t) : FileSettled P node turn file found t where
  removed := hretains.slot _ h.removed
  accounted := by
    rcases h.accounted with ⟨reason, he⟩ | ⟨henvelope, job, hpeek, reply, hreply⟩
    · exact Or.inl ⟨reason, hretains.evidence he⟩
    · exact Or.inr ⟨henvelope, job, hpeek, reply, hretains.outbox hreply⟩
  executed hmalformed job hpeek := (h.executed hmalformed job hpeek).mono hretains

theorem inboxTurn_settles (hworking : Working (turns file) home.outcomes)
    (hreadable : Readable P home.outcomes)
    (hok : (inboxTurn P nameLimit node turns file home).1 = .ok ()) :
    FileSettled P node (turns file) file home (inboxTurn P nameLimit node turns file home).2 := by
  rcases inboxTurn_cases (P := P) nameLimit node turns file home with
    ⟨hmalformed, reason, hturn⟩ | ⟨hmalformed, reason, hpeek, hturn⟩ |
      ⟨hmalformed, e, hpeek, hturn⟩ | ⟨hmalformed, job, hpeek, hturn⟩
  · rw [hturn] at hok ⊢
    obtain ⟨hremoved, hevidence⟩ := quarantine_settles hok
    exact ⟨hremoved, Or.inl ⟨reason, hevidence⟩, absurd hmalformed⟩
  · rw [hturn] at hok ⊢
    obtain ⟨hremoved, hevidence⟩ := quarantine_settles hok
    refine ⟨hremoved, Or.inl ⟨reason, hevidence⟩, fun _ job hjob => ?_⟩
    simp [hpeek] at hjob
  · rw [hturn] at hok
    cases hok
  · obtain ⟨key, hkey⟩ := peek_hashable hpeek
    rw [hturn] at hok ⊢
    obtain ⟨hserved, _⟩ := andThen_ok_iff.mp hok
    have hsettled := serve_settles hkey hreadable hworking.below hserved
    rw [andThen_of_ok hserved]
    have hdelivered : Delivered P (turns file) job home
        (unlink file (serve P .inbox node (turns file) job home).2).2 :=
      Delivered.mono hsettled unlink_follows.toRetains
    refine ⟨?_, Or.inr ⟨hmalformed, job, hpeek, hdelivered.1⟩, fun _ job' hjob => ?_⟩
    · unfold unlink
      dsimp only
      rw [KeyedTable.get?_erase, if_pos rfl]
    · obtain rfl := Except.ok.inj (hpeek.symm.trans hjob)
      exact hdelivered

end

end Rdap.Relay
