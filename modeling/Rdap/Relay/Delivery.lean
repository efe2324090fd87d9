import Rdap.Lib.Machine
import Rdap.Relay.Envelope

/-!
# Delivery at most once

The polls of the inbox and the drains of the mailbox share one table of outcomes. Every copy
of a task is handled by a worker of its own here, so that all overlappings of polls and
drains, of one process or of several, are among the runs; the worker lock only excludes some
of them. A worker may end after each of its steps, and a crash ends them all.
-/

set_option autoImplicit false

namespace Rdap.Relay
open Python Lib Identity Agent

inductive Carrier where
  | inbox | mailbox
  deriving DecidableEq, Repr

/-- The answer to a task whose claim was found without an outcome. -/
def interruptedAnswer : Carrier → PyStr
  | .inbox => lit "relay execution was interrupted before a durable answer; " ++
      lit "it was not automatically retried to avoid duplicate side effects"
  | .mailbox => lit "mailbox execution was interrupted before a durable " ++
      lit "answer; it was not automatically retried"

/-- Where a worker stands with its task. -/
inductive Phase where
  | idle
  | verified (carrier : Carrier) (job : Job)
  /-- `claim` has read the clock. -/
  | clocked (carrier : Carrier) (job : Job) (now : Int)
  /-- The claim is committed and new; the brain has not been called yet. -/
  | claimed (job : Job) (claimedAt : Int)
  | running (job : Job)
  | answered (job : Job) (answer : PyStr)
  /-- The outcome is durable; its reply is not written yet. -/
  | settled (job : Job) (reply : Dict)
  | replied (job : Job)

def Phase.job : Phase → Option Job
  | idle => none
  | verified _ job | clocked _ job _ | claimed job _ | running job | answered job _ | settled job _
  | replied job => some job

/-- A committed claim or completion, and the clock at its transaction. -/
structure Entry where
  signature : PyStr
  madeAt : Int
  op : CellOp Dict

/-- A call of the brain, and when the claim it belongs to was made. -/
structure BrainRun where
  signature : PyStr
  claimedAt : Int

structure RelayState where
  clock : Int
  outcomes : Outcomes
  /-- Replies by sender and digest of the task id. -/
  outbox : KeyedTable (PyStr × PyStr) Dict
  workers : Nat → Phase
  log : List Entry
  runs : List BrainRun

inductive RelayEvent where
  | tick (seconds : Nat)
  | takeUp (i : Nat) (carrier : Carrier) (envelope : Value) (policy : Policy)
  | readClock (i : Nat)
  | claim (i : Nat) (faults : Faults)
  | invoke (i : Nat)
  /-- The brain returns, or raises: then the answer names the exception. -/
  | answer (i : Nat) (text : PyStr)
  | complete (i : Nat) (localTime : PyStr) (nonceRaw : Bytes) (faults : Faults)
  | publish (i : Nat)
  /-- The request is unlinked, or its object noted as seen. -/
  | finish (i : Nat)
  /-- An exception ends the loop the worker is in. -/
  | abort (i : Nat)
  | crash

variable (P : Platform)

namespace RelayState

def set (s : RelayState) (i : Nat) (phase : Phase) : RelayState :=
  { s with workers := Function.update s.workers i phase }

/-- What follows from the answer to a claim. -/
def afterClaim (carrier : Carrier) (job : Job) (now : Int) : Answer Dict → Phase
  | .new => .claimed job now
  | .interrupted => .answered job (interruptedAnswer carrier)
  | .completed reply => .settled job reply

def takeUp (node : RelayNode) (s : RelayState) (i : Nat) (carrier : Carrier) (envelope : Value)
    (policy : Policy) : Option RelayState :=
  match s.workers i, peek P node policy s.clock envelope with
  | .idle, .ok job => some (s.set i (.verified carrier job))
  | .idle, .error _ => some s
  | _, _ => none

def claim (s : RelayState) (i : Nat) (faults : Faults) : Option RelayState :=
  match s.workers i with
  | .clocked carrier job now =>
    match Relay.claim P faults now job.signature job.expiresAt s.outcomes with
    | (.ok answer, outcomes) =>
      some (RelayState.set
        { s with outcomes, log := ⟨job.signature, s.clock, .claim answer⟩ :: s.log } i
        (afterClaim carrier job s.clock answer))
    | (.error _, outcomes) => some (RelayState.set { s with outcomes } i .idle)
  | _ => none

def complete (node : RelayNode) (s : RelayState) (i : Nat) (localTime : PyStr) (nonceRaw : Bytes)
    (faults : Faults) : Option RelayState :=
  match s.workers i with
  | .answered job answer =>
    match buildReply P node job.taskId job.sender answer localTime s.clock nonceRaw with
    | .error _ => some (s.set i .idle)
    | .ok reply =>
      match Relay.complete P faults s.clock job.signature job.expiresAt reply s.outcomes with
      | (.ok _, outcomes) =>
        some (RelayState.set
          { s with outcomes, log := ⟨job.signature, s.clock, .settle reply⟩ :: s.log } i
          (.settled job reply))
      | (.error _, outcomes) => some (RelayState.set { s with outcomes } i .idle)
  | _ => none

end RelayState

def relayStep (node : RelayNode) : Machine RelayState RelayEvent
  | s, .tick seconds => some { s with clock := s.clock + seconds }
  | s, .takeUp i carrier envelope policy => s.takeUp P node i carrier envelope policy
  | s, .readClock i =>
    match s.workers i with
    | .verified carrier job => some (s.set i (.clocked carrier job s.clock))
    | _ => none
  | s, .claim i faults => s.claim P i faults
  | s, .invoke i =>
    match s.workers i with
    | .claimed job claimedAt =>
      some (RelayState.set { s with runs := ⟨job.signature, claimedAt⟩ :: s.runs } i (.running job))
    | _ => none
  | s, .answer i text =>
    match s.workers i with
    | .running job => some (s.set i (.answered job text))
    | _ => none
  | s, .complete i localTime nonceRaw faults => s.complete P node i localTime nonceRaw faults
  | s, .publish i =>
    match s.workers i with
    | .settled job reply =>
      some (RelayState.set
        { s with
          outbox := s.outbox.set (job.sender, hex (P.sha256 (encodeUtf8Replace job.taskId))) reply }
        i (.replied job))
    | _ => none
  | s, .finish i =>
    match s.workers i with
    | .replied _ => some (s.set i .idle)
    | _ => none
  | s, .abort i => some (s.set i .idle)
  | s, .crash => some { s with workers := fun _ => .idle }

/-! ## One delegation -/

/-- The signature is stored under the key. -/
def hasKey (key signature : PyStr) : Bool := (signatureHash P signature).toOption = some key

/-- Claims and completions of a delegation made before its expiry, the last first. -/
def history (key : PyStr) (expiresAt : Int) (log : List Entry) : List (CellOp Dict) :=
  (log.filter fun e => hasKey P key e.signature && e.madeAt < expiresAt).map Entry.op

/-- Calls of the brain for a delegation that belong to claims made before its expiry. -/
def runsOf (key : PyStr) (expiresAt : Int) (runs : List BrainRun) : List BrainRun :=
  runs.filter fun r => hasKey P key r.signature && r.claimedAt < expiresAt

/-- Whatever is verified under the key expires when the delegation does. The expiry is one of
the signed fields, so only a second message under the same signature, or a second signature
of the same digest, could differ. -/
def OneExpiry (node : RelayNode) (key : PyStr) (expiresAt : Int) : RelayState → RelayEvent → Prop
  | s, .takeUp _ _ envelope policy => ∀ job, peek P node policy s.clock envelope = .ok job →
      hasKey P key job.signature = true → job.expiresAt = expiresAt
  | _, _ => True

instance (node : RelayNode) (key : PyStr) (expiresAt : Int) (s : RelayState) (e : RelayEvent) :
    Decidable (OneExpiry P node key expiresAt s e) :=
  match e with
  | .takeUp _ _ envelope policy =>
    match h : peek P node policy s.clock envelope with
    | .error _ => .isTrue (by simp [OneExpiry, h])
    | .ok job => decidable_of_iff (hasKey P key job.signature = true → job.expiresAt = expiresAt)
        (by simp [OneExpiry, h])
  | .tick _ | .readClock _ | .claim _ _ | .invoke _ | .answer _ _ | .complete _ _ _ _ | .publish _
  | .finish _ | .abort _ | .crash => .isTrue trivial

structure RelayState.Fresh (s : RelayState) (key : PyStr) : Prop where
  unclaimed : s.outcomes.get? key = none
  workers : ∀ i, s.workers i = .idle
  log : s.log = []
  runs : s.runs = []

/-- The table has the cell of the delegation as its history makes it, and every call of the
brain is accounted for by a new claim. -/
structure Faithful (key : PyStr) (expiresAt : Int) (s : RelayState) : Prop where
  table : s.clock < expiresAt →
    Represents P s.outcomes key expiresAt (Cell.after (history P key expiresAt s.log))
  consistent : Consistent (history P key expiresAt s.log)
  expiry : ∀ i job, (s.workers i).job = some job → hasKey P key job.signature = true →
    job.expiresAt = expiresAt
  clocked : ∀ i carrier job now, s.workers i = .clocked carrier job now → now ≤ s.clock
  accounted : (runsOf P key expiresAt s.runs).length ≤ newClaims (history P key expiresAt s.log)
  pending : ∀ i job claimedAt, s.workers i = .claimed job claimedAt →
    hasKey P key job.signature = true → claimedAt < expiresAt →
    runsOf P key expiresAt s.runs = [] ∧ 0 < newClaims (history P key expiresAt s.log) ∧
    ∀ j job' claimedAt', s.workers j = .claimed job' claimedAt' →
      hasKey P key job'.signature = true → claimedAt' < expiresAt → j = i

variable {P}

theorem hasKey_iff {key signature : PyStr} :
    hasKey P key signature = true ↔ signatureHash P signature = .ok key := by
  simp [hasKey, toOption_some]

theorem hasKey_false {key signature : PyStr} (h : hasKey P key signature = false) :
    signatureHash P signature ≠ .ok key := by
  intro hkey
  rw [hasKey_iff.mpr hkey] at h
  cases h

@[simp] theorem set_workers_self (s : RelayState) (i : Nat) (phase : Phase) :
    (s.set i phase).workers i = phase := by simp [RelayState.set]

theorem set_workers_ne (s : RelayState) {i j : Nat} (phase : Phase) (h : j ≠ i) :
    (s.set i phase).workers j = s.workers j := by simp [RelayState.set, h]

theorem set_workers_cases (s : RelayState) (i j : Nat) (phase : Phase) :
    (j = i ∧ (s.set i phase).workers j = phase) ∨
      (j ≠ i ∧ (s.set i phase).workers j = s.workers j) := by
  by_cases h : j = i
  · subst h
    exact Or.inl ⟨rfl, set_workers_self s j phase⟩
  · exact Or.inr ⟨h, set_workers_ne s phase h⟩

section
variable {key : PyStr} {expiresAt : Int}

theorem history_cons_of {e : Entry} {log : List Entry} (hkey : hasKey P key e.signature = true)
    (ht : e.madeAt < expiresAt) :
    history P key expiresAt (e :: log) = e.op :: history P key expiresAt log := by
  simp [history, hkey, ht]

theorem history_cons_other {e : Entry} {log : List Entry}
    (h : hasKey P key e.signature = false ∨ expiresAt ≤ e.madeAt) :
    history P key expiresAt (e :: log) = history P key expiresAt log := by
  have hdrop : (hasKey P key e.signature && decide (e.madeAt < expiresAt)) = false := by
    rcases h with h | h
    · simp [h]
    · simp [Int.not_lt.mpr h]
  simp [history, hdrop]

theorem newClaims_pos_of_new {h : List (CellOp Dict)} : 0 < newClaims (.claim .new :: h) := by
  simp [newClaims]

theorem newClaims_cons_le (op : CellOp Dict) (h : List (CellOp Dict)) :
    newClaims h ≤ newClaims (op :: h) := by
  cases op with
  | settle r => exact Nat.le_refl _
  | claim a => cases a <;> simp [newClaims]

/-- A worker may move on in any way that neither brings in a job of unknown expiry, nor reads
the clock wrongly, nor makes a new claim. -/
theorem Faithful.set {s : RelayState} (h : Faithful P key expiresAt s) (i : Nat) {phase : Phase}
    (hjob : ∀ job, phase.job = some job → hasKey P key job.signature = true →
      job.expiresAt = expiresAt)
    (hclocked : ∀ carrier job now, phase = .clocked carrier job now → now ≤ s.clock)
    (hclaimed : ∀ job claimedAt, phase ≠ .claimed job claimedAt) :
    Faithful P key expiresAt (s.set i phase) where
  table := h.table
  consistent := h.consistent
  expiry := by
    intro j job hj hkey
    rcases set_workers_cases s i j phase with ⟨_, heq⟩ | ⟨_, heq⟩
    · rw [heq] at hj
      exact hjob job hj hkey
    · rw [heq] at hj
      exact h.expiry j job hj hkey
  clocked := by
    intro j carrier job now hj
    rcases set_workers_cases s i j phase with ⟨_, heq⟩ | ⟨_, heq⟩
    · exact hclocked carrier job now (heq.symm.trans hj)
    · exact h.clocked j carrier job now (heq.symm.trans hj)
  accounted := h.accounted
  pending := by
    intro j job claimedAt hj hkey ht
    rcases set_workers_cases s i j phase with ⟨_, heq⟩ | ⟨_, heq⟩
    · exact absurd (heq.symm.trans hj) (hclaimed job claimedAt)
    · obtain ⟨hruns, hnew, hunique⟩ := h.pending j job claimedAt (heq.symm.trans hj) hkey ht
      refine ⟨hruns, hnew, ?_⟩
      intro k job' claimedAt' hk hkey' ht'
      rcases set_workers_cases s i k phase with ⟨_, heq'⟩ | ⟨_, heq'⟩
      · exact absurd (heq'.symm.trans hk) (hclaimed job' claimedAt')
      · exact hunique k job' claimedAt' (heq'.symm.trans hk) hkey' ht'

/-- The same for a phase without a job. -/
theorem Faithful.idle {s : RelayState} (h : Faithful P key expiresAt s) (i : Nat) :
    Faithful P key expiresAt (s.set i .idle) :=
  h.set i (fun _ hj => by cases hj) (fun _ _ _ hj => by cases hj) (fun _ _ hj => by cases hj)

/-- The same for a worker that keeps its job. -/
theorem Faithful.keep {s : RelayState} (h : Faithful P key expiresAt s) {i : Nat} (phase : Phase)
    {job : Job} (hold : (s.workers i).job = some job) (hnew : phase.job = some job)
    (hclocked : ∀ carrier job now, phase = .clocked carrier job now → now ≤ s.clock)
    (hclaimed : ∀ job claimedAt, phase ≠ .claimed job claimedAt) :
    Faithful P key expiresAt (s.set i phase) := by
  refine h.set i ?_ hclocked hclaimed
  intro job' hj hkey
  obtain rfl : job = job' := Option.some.inj (hnew.symm.trans hj)
  exact h.expiry i job hold hkey

/-- A failing transaction keeps the cell. -/
theorem Faithful.outcomes {s : RelayState} (h : Faithful P key expiresAt s) {outcomes : Outcomes}
    (hkeep : s.clock < expiresAt →
      Represents P outcomes key expiresAt (Cell.after (history P key expiresAt s.log))) :
    Faithful P key expiresAt { s with outcomes } :=
  ⟨hkeep, h.consistent, h.expiry, h.clocked, h.accounted, h.pending⟩

/-- A committed transaction is entered in the log. -/
theorem Faithful.entry {s : RelayState} (h : Faithful P key expiresAt s) (outcomes : Outcomes)
    (signature : PyStr) (op : CellOp Dict)
    (hours : hasKey P key signature = true → s.clock < expiresAt →
      Consistent (op :: history P key expiresAt s.log) ∧
      Represents P outcomes key expiresAt (Cell.after (op :: history P key expiresAt s.log)))
    (hother : hasKey P key signature = false → s.clock < expiresAt →
      Represents P outcomes key expiresAt (Cell.after (history P key expiresAt s.log))) :
    Faithful P key expiresAt { s with outcomes, log := ⟨signature, s.clock, op⟩ :: s.log } := by
  by_cases hcase : hasKey P key signature = true ∧ s.clock < expiresAt
  · obtain ⟨hkey, ht⟩ := hcase
    obtain ⟨hconsistent, htable⟩ := hours hkey ht
    have hhist : history P key expiresAt (⟨signature, s.clock, op⟩ :: s.log) =
        op :: history P key expiresAt s.log := history_cons_of hkey ht
    have hle := newClaims_cons_le op (history P key expiresAt s.log)
    refine ⟨fun _ => ?_, ?_, h.expiry, h.clocked, ?_, ?_⟩
    · rw [hhist]
      exact htable
    · rw [hhist]
      exact hconsistent
    · rw [hhist]
      exact h.accounted.trans hle
    · intro j job claimedAt hj hjkey hjt
      obtain ⟨hruns, hnew, hunique⟩ := h.pending j job claimedAt hj hjkey hjt
      rw [hhist]
      exact ⟨hruns, Nat.lt_of_lt_of_le hnew hle, hunique⟩
  · have hhist : history P key expiresAt (⟨signature, s.clock, op⟩ :: s.log) =
        history P key expiresAt s.log := by
      apply history_cons_other
      by_cases hkey : hasKey P key signature = true
      · exact Or.inr (Int.not_lt.mp fun ht => hcase ⟨hkey, ht⟩)
      · exact Or.inl (Bool.eq_false_of_not_eq_true hkey)
    refine ⟨fun ht => ?_, ?_, h.expiry, h.clocked, ?_, ?_⟩
    · rw [hhist]
      exact hother (Bool.eq_false_of_not_eq_true fun hkey => hcase ⟨hkey, ht⟩) ht
    · rw [hhist]
      exact h.consistent
    · rw [hhist]
      exact h.accounted
    · rw [hhist]
      exact h.pending

/-- The worker whose claim is new, where no call of the brain and no other new claim is
accounted for. -/
theorem Faithful.claimed {s : RelayState} (h : Faithful P key expiresAt s) {i : Nat} {job : Job}
    {claimedAt : Int} (hold : (s.workers i).job = some job)
    (hfirst : hasKey P key job.signature = true → claimedAt < expiresAt →
      runsOf P key expiresAt s.runs = [] ∧ 0 < newClaims (history P key expiresAt s.log) ∧
      ∀ j job' claimedAt', s.workers j = .claimed job' claimedAt' →
        hasKey P key job'.signature = true → claimedAt' < expiresAt → j = i) :
    Faithful P key expiresAt (s.set i (.claimed job claimedAt)) where
  table := h.table
  consistent := h.consistent
  expiry := by
    intro j job' hj hkey
    rcases set_workers_cases s i j (.claimed job claimedAt) with ⟨_, heq⟩ | ⟨_, heq⟩
    · rw [heq] at hj
      obtain rfl : job = job' := Option.some.inj hj
      exact h.expiry i job hold hkey
    · rw [heq] at hj
      exact h.expiry j job' hj hkey
  clocked := by
    intro j carrier job' now hj
    rcases set_workers_cases s i j (.claimed job claimedAt) with ⟨_, heq⟩ | ⟨_, heq⟩
    · cases heq.symm.trans hj
    · exact h.clocked j carrier job' now (heq.symm.trans hj)
  accounted := h.accounted
  pending := by
    intro j job' claimedAt' hj hkey ht
    rcases set_workers_cases s i j (.claimed job claimedAt) with ⟨rfl, heq⟩ | ⟨hne, heq⟩
    · obtain ⟨rfl, rfl⟩ : job = job' ∧ claimedAt = claimedAt' := by
        simpa using heq.symm.trans hj
      obtain ⟨hruns, hnew, hunique⟩ := hfirst hkey ht
      refine ⟨hruns, hnew, ?_⟩
      intro k job'' claimedAt'' hk hkey'' ht''
      rcases set_workers_cases s j k (.claimed job claimedAt) with ⟨hk', _⟩ | ⟨_, heq'⟩
      · exact hk'
      · exact hunique k job'' claimedAt'' (heq'.symm.trans hk) hkey'' ht''
    · obtain ⟨hruns, hnew, hunique⟩ := h.pending j job' claimedAt' (heq.symm.trans hj) hkey ht
      refine ⟨hruns, hnew, ?_⟩
      intro k job'' claimedAt'' hk hkey'' ht''
      rcases set_workers_cases s i k (.claimed job claimedAt) with ⟨rfl, heq'⟩ | ⟨_, heq'⟩
      · -- the new claim would be another one of the same delegation
        obtain ⟨rfl, rfl⟩ : job = job'' ∧ claimedAt = claimedAt'' := by
          simpa using heq'.symm.trans hk
        exact absurd ((hfirst hkey'' ht'').2.2 j job' claimedAt' (heq.symm.trans hj) hkey ht) hne
      · exact hunique k job'' claimedAt'' (heq'.symm.trans hk) hkey'' ht''

theorem faithful_claim {s t : RelayState} {i : Nat} {faults : Faults}
    (hs : Faithful P key expiresAt s) (h : s.claim P i faults = some t) :
    Faithful P key expiresAt t := by
  unfold RelayState.claim at h
  split at h
  · rename_i carrier job now hworker
    have hnow := hs.clocked i carrier job now hworker
    have hjob : (s.workers i).job = some job := by rw [hworker]; rfl
    split at h
    · rename_i answer outcomes hclaim
      obtain rfl := Option.some.inj h
      have hours : hasKey P key job.signature = true → s.clock < expiresAt →
          Consistent (.claim answer :: history P key expiresAt s.log) ∧
          Represents P outcomes key expiresAt
            (Cell.after (.claim answer :: history P key expiresAt s.log)) := by
        intro hkey ht
        have hexpiry := hs.expiry i job hjob hkey
        rw [hexpiry] at hclaim
        obtain ⟨hanswer, htable⟩ := claim_represents (hasKey_iff.mp hkey)
          (Int.lt_of_le_of_lt hnow ht) (hs.table ht) hclaim
        exact ⟨⟨hanswer, hs.consistent⟩, htable⟩
      have hlogged := hs.entry outcomes job.signature (.claim answer) hours fun hother ht =>
        claim_preserves (Int.lt_of_le_of_lt hnow ht) (hs.table ht)
          (Or.inl (hasKey_false hother)) hclaim
      cases answer with
      | interrupted =>
        exact hlogged.keep _ hjob rfl (fun _ _ _ he => by cases he) (fun _ _ he => by cases he)
      | completed reply =>
        exact hlogged.keep _ hjob rfl (fun _ _ _ he => by cases he) (fun _ _ he => by cases he)
      | new =>
        refine hlogged.claimed hjob ?_
        intro hkey ht
        obtain ⟨hconsistent, _⟩ := hours hkey ht
        have hempty : history P key expiresAt s.log = [] :=
          Cell.after_eq_fresh.mp (Cell.answer_eq_new.mp hconsistent.1.symm)
        have hnone : newClaims (history P key expiresAt s.log) = 0 := by rw [hempty]; rfl
        have hruns : runsOf P key expiresAt s.runs = [] := by
          apply List.eq_nil_of_length_eq_zero
          have := hs.accounted
          omega
        refine ⟨hruns, ?_, ?_⟩
        · rw [history_cons_of hkey ht]
          exact newClaims_pos_of_new
        · intro j job' claimedAt' hj hkey' ht'
          have := (hs.pending j job' claimedAt' hj hkey' ht').2.1
          omega
    · rename_i e outcomes hclaim
      obtain rfl := Option.some.inj h
      refine (hs.outcomes fun ht => ?_).idle i
      exact claim_preserves (Int.lt_of_le_of_lt hnow ht) (hs.table ht) (Or.inr ⟨e, rfl⟩) hclaim
  · cases h

theorem faithful_complete {node : RelayNode} {s t : RelayState} {i : Nat} {localTime : PyStr}
    {nonceRaw : Bytes} {faults : Faults} (hs : Faithful P key expiresAt s)
    (h : s.complete P node i localTime nonceRaw faults = some t) : Faithful P key expiresAt t := by
  unfold RelayState.complete at h
  split at h
  · rename_i job answer hworker
    have hjob : (s.workers i).job = some job := by rw [hworker]; rfl
    split at h
    · obtain rfl := Option.some.inj h
      exact hs.idle i
    · rename_i reply hreply
      split at h
      · rename_i u outcomes hcomplete
        obtain rfl := Option.some.inj h
        have hlogged := hs.entry outcomes job.signature (.settle reply)
          (fun hkey ht => by
            have hexpiry := hs.expiry i job hjob hkey
            rw [hexpiry] at hcomplete
            obtain ⟨hfresh, htable⟩ := complete_represents (hasKey_iff.mp hkey)
              (buildReply_plain hreply) (hs.table ht) hcomplete
            exact ⟨⟨fun hempty => hfresh (Cell.after_eq_fresh.mpr hempty), hs.consistent⟩, htable⟩)
          (fun hother ht => complete_preserves ht (hs.table ht) (Or.inl (hasKey_false hother))
            hcomplete)
        exact hlogged.keep _ hjob rfl (fun _ _ _ he => by cases he) (fun _ _ he => by cases he)
      · rename_i e outcomes hcomplete
        obtain rfl := Option.some.inj h
        refine (hs.outcomes fun ht => ?_).idle i
        exact complete_preserves ht (hs.table ht) (Or.inr ⟨e, rfl⟩) hcomplete
  · cases h

/-- The brain is called on behalf of a new claim, which is then no longer pending. -/
theorem faithful_invoke {s : RelayState} {i : Nat} {job : Job} {claimedAt : Int}
    (hs : Faithful P key expiresAt s) (hworker : s.workers i = .claimed job claimedAt) :
    Faithful P key expiresAt
      (RelayState.set { s with runs := ⟨job.signature, claimedAt⟩ :: s.runs } i (.running job)) := by
  have hjob : (s.workers i).job = some job := by rw [hworker]; rfl
  by_cases hours : hasKey P key job.signature = true ∧ claimedAt < expiresAt
  · obtain ⟨hkey, ht⟩ := hours
    obtain ⟨hruns, hnew, hunique⟩ := hs.pending i job claimedAt hworker hkey ht
    have hcons : runsOf P key expiresAt (⟨job.signature, claimedAt⟩ :: s.runs) =
        ⟨job.signature, claimedAt⟩ :: runsOf P key expiresAt s.runs := by
      simp [runsOf, hkey, ht]
    have hkeep := hs.keep (.running job) hjob rfl (fun _ _ _ he => by cases he)
      (fun _ _ he => by cases he)
    refine ⟨hkeep.table, hkeep.consistent, hkeep.expiry, hkeep.clocked, ?_, ?_⟩
    · simp only [RelayState.set, hcons, hruns, List.length_singleton]
      exact hnew
    · intro j job' claimedAt' hj hkey' ht'
      rcases set_workers_cases s i j (.running job) with ⟨_, heq⟩ | ⟨hne, heq⟩
      · cases heq.symm.trans hj
      · exact absurd (hunique j job' claimedAt' (heq.symm.trans hj) hkey' ht') hne
  · have hcons : runsOf P key expiresAt (⟨job.signature, claimedAt⟩ :: s.runs) =
        runsOf P key expiresAt s.runs := by
      have hdrop : (hasKey P key job.signature && decide (claimedAt < expiresAt)) = false := by
        simpa using hours
      simp [runsOf, hdrop]
    have hkeep := hs.keep (.running job) hjob rfl (fun _ _ _ he => by cases he)
      (fun _ _ he => by cases he)
    refine ⟨hkeep.table, hkeep.consistent, hkeep.expiry, hkeep.clocked, ?_, ?_⟩
    · simp only [RelayState.set, hcons]
      exact hs.accounted
    · simp only [RelayState.set, hcons]
      exact hkeep.pending

theorem faithful_takeUp {node : RelayNode} {s t : RelayState} {i : Nat} {carrier : Carrier}
    {envelope : Value} {policy : Policy}
    (hone : ∀ job, peek P node policy s.clock envelope = .ok job →
      hasKey P key job.signature = true → job.expiresAt = expiresAt)
    (hs : Faithful P key expiresAt s) (h : s.takeUp P node i carrier envelope policy = some t) :
    Faithful P key expiresAt t := by
  unfold RelayState.takeUp at h
  split at h
  · rename_i job _ hpeek
    obtain rfl := Option.some.inj h
    refine hs.set i ?_ (fun _ _ _ he => by cases he) (fun _ _ he => by cases he)
    intro job' hj hkey
    obtain rfl : job = job' := Option.some.inj hj
    exact hone job hpeek hkey
  · obtain rfl := Option.some.inj h
    exact hs
  · cases h

theorem faithful_step {node : RelayNode} {s t : RelayState} {e : RelayEvent}
    (hone : OneExpiry P node key expiresAt s e) (hs : Faithful P key expiresAt s)
    (h : relayStep P node s e = some t) : Faithful P key expiresAt t := by
  cases e with
  | tick seconds =>
    obtain rfl := Option.some.inj h
    refine ⟨fun ht => hs.table ?_, hs.consistent, hs.expiry, ?_, hs.accounted, hs.pending⟩
    · simp only at ht
      omega
    · intro i carrier job now hi
      have := hs.clocked i carrier job now hi
      simp only
      omega
  | takeUp i carrier envelope policy => exact faithful_takeUp hone hs h
  | readClock i =>
    simp only [relayStep] at h
    split at h
    · rename_i carrier job hworker
      obtain rfl := Option.some.inj h
      have hjob : (s.workers i).job = some job := by rw [hworker]; rfl
      refine hs.keep _ hjob rfl ?_ (fun _ _ he => by cases he)
      intro carrier' job' now hphase
      obtain ⟨_, _, rfl⟩ : carrier = carrier' ∧ job = job' ∧ s.clock = now := by simpa using hphase
      exact Int.le_refl _
    · cases h
  | claim i faults => exact faithful_claim hs h
  | invoke i =>
    simp only [relayStep] at h
    split at h
    · rename_i job claimedAt hworker
      obtain rfl := Option.some.inj h
      exact faithful_invoke hs hworker
    · cases h
  | answer i text =>
    simp only [relayStep] at h
    split at h
    · rename_i job hworker
      obtain rfl := Option.some.inj h
      have hjob : (s.workers i).job = some job := by rw [hworker]; rfl
      exact hs.keep _ hjob rfl (fun _ _ _ he => by cases he) (fun _ _ he => by cases he)
    · cases h
  | complete i localTime nonceRaw faults => exact faithful_complete hs h
  | publish i =>
    simp only [relayStep] at h
    split at h
    · rename_i job reply hworker
      obtain rfl := Option.some.inj h
      have hjob : (s.workers i).job = some job := by rw [hworker]; rfl
      have hkeep := hs.keep (.replied job) hjob rfl (fun _ _ _ he => by cases he)
        (fun _ _ he => by cases he)
      exact ⟨hkeep.table, hkeep.consistent, hkeep.expiry, hkeep.clocked, hkeep.accounted,
        hkeep.pending⟩
    · cases h
  | finish i =>
    simp only [relayStep] at h
    split at h
    · obtain rfl := Option.some.inj h
      exact hs.idle i
    · cases h
  | abort i =>
    obtain rfl := Option.some.inj h
    exact hs.idle i
  | crash =>
    obtain rfl := Option.some.inj h
    exact ⟨hs.table, hs.consistent, (fun _ _ hj => by cases hj), (fun _ _ _ _ hj => by cases hj),
      hs.accounted, (fun _ _ _ hj => by cases hj)⟩

theorem RelayState.Fresh.faithful {s : RelayState} (h : s.Fresh key) :
    Faithful P key expiresAt s := by
  have hhist : history P key expiresAt s.log = [] := by rw [h.log]; rfl
  have hruns : runsOf P key expiresAt s.runs = [] := by rw [h.runs]; rfl
  refine ⟨fun _ => ?_, ?_, ?_, ?_, ?_, ?_⟩
  · rw [hhist]
    exact h.unclaimed
  · rw [hhist]
    trivial
  · intro i job hi
    rw [h.workers i] at hi
    cases hi
  · intro i carrier job now hi
    rw [h.workers i] at hi
    cases hi
  · rw [hruns]
    exact Nat.zero_le _
  · intro i job claimedAt hi
    rw [h.workers i] at hi
    cases hi

end

namespace Sample

def platform : Platform := Identity.Sample.platform

def node : RelayNode :=
  ⟨⟨Identity.Sample.nodeKey, Identity.Sample.nodeKey_length, fun _ => List.replicate 64 3⟩, Identity.Sample.cache⟩

def signature : PyStr := b64encode Identity.Sample.delegationSignature

def key : PyStr := (signatureHash platform signature).toOption.getD []

def envelope : Value := .dict [
  (lit "id", .str (lit "t1")),
  (lit "kind", .str (lit "task")),
  (lit "from", .str Identity.Sample.address),
  (lit "to", .str Identity.Sample.nodeAddress),
  (lit "text", .str (lit "hello")),
  (lit "raven", .dict (Identity.Sample.metadata signature))]

def policy : Policy := ⟨.ok Identity.Sample.peers, .ok []⟩

def idleState : RelayState := ⟨1100, .empty, .empty, fun _ => .idle, [], []⟩

def claimCopy (i : Nat) (carrier : Carrier) : List RelayEvent :=
  [.takeUp i carrier envelope policy, .readClock i, .claim i noFaults]

/-- The process dies while the brain runs. A copy in the mailbox is answered as interrupted,
and a third one gets that answer. -/
def crashRun : List RelayEvent :=
  claimCopy 0 .inbox ++ [.invoke 0, .crash] ++ claimCopy 0 .mailbox ++
    [.complete 0 (lit "now") (List.replicate 16 1) noFaults, .publish 0, .finish 0, .tick 30] ++
    claimCopy 1 .inbox

/-- The brain was called, and a reply was stored. -/
def Served (s : RelayState) : Prop :=
  (runsOf platform key 1600 s.runs).length = 1 ∧
    lastReply (history platform key 1600 s.log) ≠ none

instance (s : RelayState) : Decidable (Served s) := inferInstanceAs (Decidable (_ ∧ _))

end Sample

end Rdap.Relay
