import Rdap.Relay.Delivery

/-!
# One node, three carriers

The executor of direct requests consumes a delegation in the replay ledger; the inbox and the
mailbox look at no ledger but claim it in the table of outcomes. The two stores know nothing
of each other.
-/

set_option autoImplicit false

namespace Rdap.Relay
open Python Protocol Lib Identity Agent

structure RavenNode where
  identity : RavenIdentity
  requireSigned : Bool
  replay : ReplayCache

def RavenNode.executor (node : RavenNode) : Executor :=
  ⟨node.requireSigned, some node.identity, node.replay⟩

def RavenNode.relay (node : RavenNode) : RelayNode := ⟨node.identity, node.replay⟩

/-- Where a direct request stands. -/
inductive RequestPhase where
  | idle
  /-- The verifier has read the clock. -/
  | verifying (ctx : RequestContext) (policy : Policy) (now : Int)
  /-- The replay cache has read it too. -/
  | clocked (ctx : RequestContext) (policy : Policy) (now later : Int)
  /-- Authorized, under a signature unless the node is open; the brain has not been called. -/
  | authorized (signature : Option PyStr)
  | running

structure NodeState where
  relay : RelayState
  ledger : Ledger
  requests : Nat → RequestPhase
  /-- Signatures accepted by the executor, the last first. -/
  accepted : List PyStr
  /-- Signatures for which the executor called the brain. -/
  directRuns : List PyStr

inductive NodeEvent where
  /-- A step of the inbox or the mailbox, or a tick of the clock. -/
  | relay (event : RelayEvent)
  | request (i : Nat) (ctx : RequestContext) (policy : Policy)
  | readClock (i : Nat)
  | authorize (i : Nat) (faults : Identity.Faults)
  | invoke (i : Nat)
  /-- The request ends, for whatever reason. -/
  | finish (i : Nat)
  | crash

variable (P : Platform)

/-- The text of the signature a request carries. -/
def presented (ctx : RequestContext) : Option PyStr :=
  if extractRavenMeta ctx = [] then none
  else (getStr P (extractRavenMeta ctx) "signature").toOption

namespace NodeState

def set (s : NodeState) (i : Nat) (phase : RequestPhase) : NodeState :=
  { s with requests := Function.update s.requests i phase }

def authorize (node : RavenNode) (s : NodeState) (i : Nat) (faults : Identity.Faults) :
    Option NodeState :=
  match s.requests i with
  | .clocked ctx policy now later =>
    match Agent.authorize P node.executor policy ctx faults now later s.ledger with
    | ((true, _), ledger) =>
      some (NodeState.set
        { s with ledger, accepted := (presented P ctx).toList ++ s.accepted } i
        (.authorized (presented P ctx)))
    | ((false, _), ledger) => some (NodeState.set { s with ledger } i .idle)
  | _ => none

end NodeState

def nodeStep (node : RavenNode) : Machine NodeState NodeEvent
  | s, .relay event => (relayStep P node.relay s.relay event).map fun relay => { s with relay }
  | s, .request i ctx policy =>
    match s.requests i with
    | .idle => some (s.set i (.verifying ctx policy s.relay.clock))
    | _ => none
  | s, .readClock i =>
    match s.requests i with
    | .verifying ctx policy now => some (s.set i (.clocked ctx policy now s.relay.clock))
    | _ => none
  | s, .authorize i faults => s.authorize P node i faults
  | s, .invoke i =>
    match s.requests i with
    | .authorized signature =>
      some (NodeState.set { s with directRuns := signature.toList ++ s.directRuns } i .running)
    | _ => none
  | s, .finish i => some (s.set i .idle)
  | s, .crash =>
    some
      { s with
        relay := { s.relay with workers := fun _ => .idle }
        requests := fun _ => .idle }

/-! ## One delegation -/

/-- The text decodes to the signature. -/
def spells (raw : Bytes) (text : PyStr) : Bool := (b64decode text).toOption = some raw

/-- The spellings of the signature. -/
def ofSignature (raw : Bytes) (texts : List PyStr) : List PyStr := texts.filter (spells raw)

/-- Every call of the brain for the delegation, by any carrier. -/
def brainRuns (raw : Bytes) (s : NodeState) : Nat :=
  (ofSignature raw s.directRuns).length +
    (ofSignature raw (s.relay.runs.map BrainRun.signature)).length

/-- The signatures stored under the key. -/
def ofKey (key : PyStr) (signatures : List PyStr) : List PyStr := signatures.filter (hasKey P key)

/-- The calls of the brain for what is stored under the key. -/
def keyRuns (key : PyStr) (s : NodeState) : Nat :=
  (ofKey P key s.directRuns).length + (ofKey P key (s.relay.runs.map BrainRun.signature)).length

/-- The inbox or the mailbox has claimed the delegation. -/
def ClaimedByRelay (key : PyStr) (log : List Entry) : Prop :=
  ∃ e ∈ log, hasKey P key e.signature = true ∧ e.op.isClaim = true

instance (key : PyStr) (log : List Entry) : Decidable (ClaimedByRelay P key log) :=
  inferInstanceAs (Decidable (∃ _ ∈ _, _))

/-- The delegation of a request that passes the stateless checks of the executor. -/
def carried (node : RavenNode) (ctx : RequestContext) (policy : Policy) (now : Int) :
    Option (Admitted DelegationFields) :=
  if extractRavenMeta ctx = [] then none
  else
    match policy.peers, policy.revocations with
    | .ok peers, .ok revoked =>
      (checkDelegation P (extractRavenMeta ctx) ctx.userInput peers revoked
        (node.executor.expected P ctx) now).toOption
    | _, _ => none

/-- The condition on a step: a copy of the delegation reaches its store before it expires, and
no carrier of the other kind has had it before. What is verified under the key has one expiry. -/
def OneKind (node : RavenNode) (key : PyStr) (expiresAt : Int) : NodeState → NodeEvent → Prop
  | s, .authorize i _ => ∀ ctx policy now later, s.requests i = .clocked ctx policy now later →
      ∀ a, carried P node ctx policy now = some a → hasKey P key a.signatureB64 = true →
        a.expiresAt = expiresAt ∧ s.relay.clock < expiresAt ∧ ¬ ClaimedByRelay P key s.relay.log
  | s, .relay (.claim i _) => ∀ carrier job now, s.relay.workers i = .clocked carrier job now →
      hasKey P key job.signature = true →
        s.relay.clock < expiresAt ∧ ofKey P key s.accepted = []
  | s, .relay event => OneExpiry P node.relay key expiresAt s.relay event
  | _, _ => True

instance (node : RavenNode) (key : PyStr) (expiresAt : Int) (s : NodeState) (e : NodeEvent) :
    Decidable (OneKind P node key expiresAt s e) :=
  match e with
  | .authorize i _ =>
    match h : s.requests i with
    | .idle | .verifying _ _ _ | .authorized _ | .running => .isTrue (by simp [OneKind, h])
    | .clocked ctx policy now later =>
      match ha : carried P node ctx policy now with
      | none => .isTrue (by
          intro ctx' policy' now' later' h' a ha'
          obtain ⟨rfl, rfl, rfl, rfl⟩ :
              ctx = ctx' ∧ policy = policy' ∧ now = now' ∧ later = later' := by
            simpa using h.symm.trans h'
          rw [ha] at ha'
          cases ha')
      | some a => decidable_of_iff (hasKey P key a.signatureB64 = true →
          a.expiresAt = expiresAt ∧ s.relay.clock < expiresAt ∧
            ¬ ClaimedByRelay P key s.relay.log) (by
          constructor
          · intro hcond ctx' policy' now' later' h' a' ha'
            obtain ⟨rfl, rfl, rfl, rfl⟩ :
                ctx = ctx' ∧ policy = policy' ∧ now = now' ∧ later = later' := by
              simpa using h.symm.trans h'
            obtain rfl := Option.some.inj (ha.symm.trans ha')
            exact hcond
          · intro hcond
            exact hcond ctx policy now later h a ha)
  | .relay (.claim i _) =>
    match h : s.relay.workers i with
    | .idle | .verified _ _ | .claimed _ _ | .running _ | .answered _ _ | .settled _ _
    | .replied _ => .isTrue (by simp [OneKind, h])
    | .clocked carrier job now => decidable_of_iff (hasKey P key job.signature = true →
        s.relay.clock < expiresAt ∧ ofKey P key s.accepted = []) (by simp [OneKind, h])
  | .relay (.takeUp i carrier envelope policy) =>
    inferInstanceAs (Decidable (OneExpiry P node.relay key expiresAt s.relay
      (.takeUp i carrier envelope policy)))
  | .relay (.tick _) | .relay (.readClock _) | .relay (.invoke _) | .relay (.answer _ _)
  | .relay (.complete _ _ _ _) | .relay (.publish _) | .relay (.finish _) | .relay (.abort _)
  | .relay .crash | .request _ _ _ | .readClock _ | .invoke _ | .finish _ | .crash =>
    .isTrue trivial

/-- The condition on a step: what passes verification under the signature spells it with this
text. -/
def OneSpelling (node : RavenNode) (raw : Bytes) (text : PyStr) : NodeState → NodeEvent → Prop
  | s, .authorize i _ => ∀ ctx policy now later, s.requests i = .clocked ctx policy now later →
      ∀ a, carried P node ctx policy now = some a → a.signature = raw → a.signatureB64 = text
  | s, .relay (.takeUp _ _ envelope policy) => ∀ job,
      peek P node.relay policy s.relay.clock envelope = .ok job → spells raw job.signature = true →
        job.signature = text
  | _, _ => True

instance (node : RavenNode) (raw : Bytes) (text : PyStr) (s : NodeState) (e : NodeEvent) :
    Decidable (OneSpelling P node raw text s e) :=
  match e with
  | .authorize i _ =>
    match h : s.requests i with
    | .idle | .verifying _ _ _ | .authorized _ | .running => .isTrue (by simp [OneSpelling, h])
    | .clocked ctx policy now later =>
      match ha : carried P node ctx policy now with
      | none => .isTrue (by
          intro ctx' policy' now' later' h' a ha'
          obtain ⟨rfl, rfl, rfl, rfl⟩ :
              ctx = ctx' ∧ policy = policy' ∧ now = now' ∧ later = later' := by
            simpa using h.symm.trans h'
          rw [ha] at ha'
          cases ha')
      | some a => decidable_of_iff (a.signature = raw → a.signatureB64 = text) (by
          constructor
          · intro hcond ctx' policy' now' later' h' a' ha'
            obtain ⟨rfl, rfl, rfl, rfl⟩ :
                ctx = ctx' ∧ policy = policy' ∧ now = now' ∧ later = later' := by
              simpa using h.symm.trans h'
            obtain rfl := Option.some.inj (ha.symm.trans ha')
            exact hcond
          · intro hcond
            exact hcond ctx policy now later h a ha)
  | .relay (.takeUp _ _ envelope policy) =>
    match h : peek P node.relay policy s.relay.clock envelope with
    | .error _ => .isTrue (by simp [OneSpelling, h])
    | .ok job => decidable_of_iff (spells raw job.signature = true → job.signature = text)
        (by simp [OneSpelling, h])
  | .relay (.tick _) | .relay (.readClock _) | .relay (.claim _ _) | .relay (.invoke _)
  | .relay (.answer _ _) | .relay (.complete _ _ _ _) | .relay (.publish _) | .relay (.finish _)
  | .relay (.abort _) | .relay .crash | .request _ _ _ | .readClock _ | .invoke _ | .finish _
  | .crash => .isTrue trivial

/-- The copies of a delegation that pass verification come by carriers of one kind, in time,
and spell its signature alike. -/
def AlikeCopies (node : RavenNode) (raw : Bytes) (text key : PyStr) (expiresAt : Int)
    (s : NodeState) (e : NodeEvent) : Prop :=
  OneKind P node key expiresAt s e ∧ OneSpelling P node raw text s e

instance (node : RavenNode) (raw : Bytes) (text key : PyStr) (expiresAt : Int) (s : NodeState)
    (e : NodeEvent) : Decidable (AlikeCopies P node raw text key expiresAt s e) :=
  inferInstanceAs (Decidable (_ ∧ _))

structure NodeState.Fresh (s : NodeState) (key : PyStr) : Prop where
  relay : s.relay.Fresh key
  requests : ∀ i, s.requests i = .idle
  accepted : s.accepted = []
  directRuns : s.directRuns = []

variable {P}

/-! ## What a step of the relay can do -/

structure RelayEffect (P : Platform) (node : RelayNode) (s t : RelayState) (event : RelayEvent) :
    Prop where
  clock : s.clock ≤ t.clock
  runs : t.runs = s.runs ∨ ∃ i job claimedAt, s.workers i = .claimed job claimedAt ∧
    t.runs = ⟨job.signature, claimedAt⟩ :: s.runs
  claims : ∀ x ∈ t.log, x.op.isClaim = true → x ∈ s.log ∨
    ∃ i faults carrier job now, event = .claim i faults ∧
      s.workers i = .clocked carrier job now ∧ x.signature = job.signature
  claimed : ∀ j job claimedAt, t.workers j = .claimed job claimedAt →
    s.workers j = .claimed job claimedAt ∨ ∃ faults carrier now, event = .claim j faults ∧
      s.workers j = .clocked carrier job now ∧ claimedAt = s.clock
  jobs : ∀ j job, (t.workers j).job = some job → (s.workers j).job = some job ∨
    ∃ carrier envelope policy, event = .takeUp j carrier envelope policy ∧
      peek P node policy s.clock envelope = .ok job

section
variable {node : RelayNode}

/-- A step that lets one worker move on, without a claim. -/
theorem RelayEffect.set {s u : RelayState} {event : RelayEvent} (i : Nat) {phase : Phase}
    (hclock : u.clock = s.clock) (hruns : u.runs = s.runs) (hlog : u.log = s.log)
    (hworkers : u.workers = s.workers)
    (hclaimed : ∀ job claimedAt, phase ≠ .claimed job claimedAt)
    (hjob : ∀ job, phase.job = some job → (s.workers i).job = some job ∨
      ∃ carrier envelope policy, event = .takeUp i carrier envelope policy ∧
        peek P node policy s.clock envelope = .ok job) :
    RelayEffect P node s (u.set i phase) event where
  clock := Int.le_of_eq hclock.symm
  runs := Or.inl hruns
  claims := fun x hx _ => Or.inl (hlog ▸ hx)
  claimed := by
    intro j job claimedAt hj
    rcases set_workers_cases u i j phase with ⟨_, heq⟩ | ⟨_, heq⟩
    · exact absurd (heq.symm.trans hj) (hclaimed job claimedAt)
    · rw [hworkers] at heq
      exact Or.inl (heq.symm.trans hj)
  jobs := by
    intro j job hj
    rcases set_workers_cases u i j phase with ⟨rfl, heq⟩ | ⟨_, heq⟩
    · rw [heq] at hj
      exact hjob job hj
    · rw [heq, hworkers] at hj
      exact Or.inl hj

/-- A step that ends a worker. -/
theorem RelayEffect.idle {s u : RelayState} {event : RelayEvent} (i : Nat)
    (hclock : u.clock = s.clock) (hruns : u.runs = s.runs) (hlog : u.log = s.log)
    (hworkers : u.workers = s.workers) : RelayEffect P node s (u.set i .idle) event :=
  .set i hclock hruns hlog hworkers (fun _ _ he => by cases he) (fun _ hj => by cases hj)

/-- A step after which a worker has the job it had, without a claim. -/
theorem RelayEffect.keep {s u : RelayState} {event : RelayEvent} (i : Nat) {phase : Phase}
    (hclock : u.clock = s.clock) (hruns : u.runs = s.runs) (hlog : u.log = s.log)
    (hworkers : u.workers = s.workers)
    (hclaimed : ∀ job claimedAt, phase ≠ .claimed job claimedAt)
    (hjob : phase.job = (s.workers i).job) : RelayEffect P node s (u.set i phase) event :=
  .set i hclock hruns hlog hworkers hclaimed fun _ hj => Or.inl (hjob.symm.trans hj)

theorem relayEffect_claim {s t : RelayState} {i : Nat} {faults : Faults}
    (h : s.claim P i faults = some t) : RelayEffect P node s t (.claim i faults) := by
  unfold RelayState.claim at h
  split at h
  · rename_i carrier job now hworker
    split at h
    · rename_i answer outcomes _
      obtain rfl := Option.some.inj h
      refine ⟨Int.le_refl _, Or.inl rfl, ?_, ?_, ?_⟩
      · intro x hx _
        rcases List.mem_cons.mp hx with rfl | hx
        · exact Or.inr ⟨i, faults, carrier, job, now, rfl, hworker, rfl⟩
        · exact Or.inl hx
      · intro j job' claimedAt hj
        rcases set_workers_cases
            { s with outcomes, log := ⟨job.signature, s.clock, .claim answer⟩ :: s.log } i j
            (RelayState.afterClaim carrier job s.clock answer) with ⟨rfl, heq⟩ | ⟨_, heq⟩
        · cases answer with
          | interrupted => cases heq.symm.trans hj
          | completed reply => cases heq.symm.trans hj
          | new =>
            obtain ⟨rfl, rfl⟩ : job = job' ∧ s.clock = claimedAt := by
              simpa [RelayState.afterClaim] using heq.symm.trans hj
            exact Or.inr ⟨faults, carrier, now, rfl, hworker, rfl⟩
        · exact Or.inl (heq.symm.trans hj)
      · intro j job' hj
        rcases set_workers_cases
            { s with outcomes, log := ⟨job.signature, s.clock, .claim answer⟩ :: s.log } i j
            (RelayState.afterClaim carrier job s.clock answer) with ⟨rfl, heq⟩ | ⟨_, heq⟩
        · rw [heq] at hj
          left
          rw [hworker]
          cases answer <;> exact hj
        · rw [heq] at hj
          exact Or.inl hj
    · obtain rfl := Option.some.inj h
      exact .idle i rfl rfl rfl rfl
  · cases h

theorem relayEffect_complete {s t : RelayState} {i : Nat} {localTime : PyStr}
    {nonceRaw : Bytes} {faults : Faults}
    (h : s.complete P node i localTime nonceRaw faults = some t) :
    RelayEffect P node s t (.complete i localTime nonceRaw faults) := by
  unfold RelayState.complete at h
  split at h
  · rename_i job answer hworker
    split at h
    · obtain rfl := Option.some.inj h
      exact .idle i rfl rfl rfl rfl
    · rename_i reply _
      split at h
      · rename_i outcomes _
        obtain rfl := Option.some.inj h
        have hset : RelayEffect P node s
            (RelayState.set { s with outcomes } i (.settled job reply))
            (.complete i localTime nonceRaw faults) :=
          .keep i rfl rfl rfl rfl (fun _ _ he => by cases he) (by rw [hworker]; rfl)
        refine ⟨hset.clock, hset.runs, ?_, hset.claimed, hset.jobs⟩
        intro x hx hop
        rcases List.mem_cons.mp hx with rfl | hx
        · cases hop
        · exact Or.inl hx
      · obtain rfl := Option.some.inj h
        exact .idle i rfl rfl rfl rfl
  · cases h

theorem relayStep_effect {s t : RelayState} {event : RelayEvent}
    (h : relayStep P node s event = some t) : RelayEffect P node s t event := by
  cases event with
  | tick seconds =>
    obtain rfl := Option.some.inj h
    refine ⟨?_, Or.inl rfl, fun x hx _ => Or.inl hx, fun j job claimedAt hj => Or.inl hj,
      fun j job hj => Or.inl hj⟩
    simp only
    omega
  | takeUp i carrier envelope policy =>
    simp only [relayStep, RelayState.takeUp] at h
    split at h
    · rename_i job _ hpeek
      obtain rfl := Option.some.inj h
      refine .set i rfl rfl rfl rfl (fun _ _ he => by cases he) fun job' hj => ?_
      obtain rfl : job = job' := Option.some.inj hj
      exact Or.inr ⟨carrier, envelope, policy, rfl, hpeek⟩
    · obtain rfl := Option.some.inj h
      exact ⟨Int.le_refl _, Or.inl rfl, fun x hx _ => Or.inl hx, fun j job claimedAt hj => Or.inl hj,
        fun j job hj => Or.inl hj⟩
    · cases h
  | readClock i =>
    simp only [relayStep] at h
    split at h
    · rename_i hworker
      obtain rfl := Option.some.inj h
      exact .keep i rfl rfl rfl rfl (fun _ _ he => by cases he) (by rw [hworker]; rfl)
    · cases h
  | claim i faults => exact relayEffect_claim h
  | invoke i =>
    simp only [relayStep] at h
    split at h
    · rename_i job claimedAt hworker
      obtain rfl := Option.some.inj h
      have hset : RelayEffect P node s (s.set i (.running job)) (.invoke i) :=
        .keep i rfl rfl rfl rfl (fun _ _ he => by cases he) (by rw [hworker]; rfl)
      exact ⟨hset.clock, Or.inr ⟨i, job, claimedAt, hworker, rfl⟩, hset.claims, hset.claimed,
        hset.jobs⟩
    · cases h
  | answer i text =>
    simp only [relayStep] at h
    split at h
    · rename_i hworker
      obtain rfl := Option.some.inj h
      exact .keep i rfl rfl rfl rfl (fun _ _ he => by cases he) (by rw [hworker]; rfl)
    · cases h
  | complete i localTime nonceRaw faults => exact relayEffect_complete h
  | publish i =>
    simp only [relayStep] at h
    split at h
    · rename_i job reply hworker
      obtain rfl := Option.some.inj h
      exact .keep (u := { s with outbox := _ }) i rfl rfl rfl rfl (fun _ _ he => by cases he)
        (by rw [hworker]; rfl)
    · cases h
  | finish i =>
    simp only [relayStep] at h
    split at h
    · obtain rfl := Option.some.inj h
      exact .idle i rfl rfl rfl rfl
    · cases h
  | abort i =>
    obtain rfl := Option.some.inj h
    exact .idle i rfl rfl rfl rfl
  | crash =>
    obtain rfl := Option.some.inj h
    exact ⟨Int.le_refl _, Or.inl rfl, fun x hx _ => Or.inl hx, (fun _ _ _ hj => by cases hj),
      (fun _ _ hj => by cases hj)⟩

end

/-! ## At most one call -/

theorem ofKey_cons {key signature : PyStr} {signatures : List PyStr} :
    ofKey P key (signature :: signatures) =
      if hasKey P key signature then signature :: ofKey P key signatures
      else ofKey P key signatures := by
  simp [ofKey, List.filter_cons]

/-- The two stores hash a signature text in the same way. -/
theorem hasKey_ledger {key signature : PyStr} (h : hasKey P key signature = true) :
    Identity.signatureHash P signature = .ok key := by
  have hkey := hasKey_iff.mp h
  unfold signatureHash at hkey
  split at hkey
  · rename_i encoded hencoded
    simpa [Identity.signatureHash, hencoded, Except.map] using hkey
  · cases hkey

theorem hasKey_of_ledger {key signature : PyStr} (h : Identity.signatureHash P signature = .ok key) :
    hasKey P key signature = true := by
  apply hasKey_iff.mpr
  unfold Identity.signatureHash at h
  unfold signatureHash
  cases hencoded : encodeAscii signature with
  | error e => simp [hencoded, Except.map] at h
  | ok encoded => simpa [hencoded, Except.map] using h

/-- What is true of one delegation: the relay serves it faithfully and in time, the ledger
knows it once the executor has accepted it, and only carriers of one kind have had it. -/
structure OneRun (P : Platform) (key : PyStr) (expiresAt : Int) (s : NodeState) : Prop where
  relay : Faithful P key expiresAt s.relay
  runsInTime : ∀ r ∈ s.relay.runs, hasKey P key r.signature = true → r.claimedAt < expiresAt
  claimsInTime : ∀ i job claimedAt, s.relay.workers i = .claimed job claimedAt →
    hasKey P key job.signature = true → claimedAt < expiresAt
  exclusive : ofKey P key s.accepted = [] ∨ ¬ ClaimedByRelay P key s.relay.log
  recorded : s.relay.clock < expiresAt → ofKey P key s.accepted ≠ [] →
    s.ledger.get? key = some expiresAt
  acceptedOnce : (ofKey P key s.accepted).length ≤ 1
  clocked : ∀ i ctx policy now later, s.requests i = .clocked ctx policy now later →
    later ≤ s.relay.clock
  accounted : (ofKey P key s.directRuns).length ≤ (ofKey P key s.accepted).length
  pending : ∀ i signature, s.requests i = .authorized (some signature) →
    hasKey P key signature = true →
    ofKey P key s.directRuns = [] ∧ ofKey P key s.accepted ≠ [] ∧
    ∀ j signature', s.requests j = .authorized (some signature') →
      hasKey P key signature' = true → j = i

section
variable {node : RavenNode} {key : PyStr} {expiresAt : Int}

theorem oneRun_relay {s : NodeState} {event : RelayEvent} {relay : RelayState}
    (hkind : OneKind P node key expiresAt s (.relay event)) (hs : OneRun P key expiresAt s)
    (h : relayStep P node.relay s.relay event = some relay) :
    OneRun P key expiresAt { s with relay } := by
  have heffect := relayStep_effect h
  have hone : OneExpiry P node.relay key expiresAt s.relay event := by
    cases event with
    | takeUp i carrier envelope policy => exact hkind
    | _ => trivial
  have hclaim : ∀ i faults carrier job now, event = .claim i faults →
      s.relay.workers i = .clocked carrier job now → hasKey P key job.signature = true →
      s.relay.clock < expiresAt ∧ ofKey P key s.accepted = [] := by
    rintro i faults carrier job now rfl hworker hkey
    exact hkind carrier job now hworker hkey
  refine
    { relay := faithful_step hone hs.relay h
      runsInTime := ?_
      claimsInTime := ?_
      exclusive := ?_
      recorded := fun ht => hs.recorded (Int.lt_of_le_of_lt heffect.clock ht)
      acceptedOnce := hs.acceptedOnce
      clocked := fun i ctx policy now later hi =>
        (hs.clocked i ctx policy now later hi).trans heffect.clock
      accounted := hs.accounted
      pending := hs.pending }
  · intro r hr hkey
    rcases heffect.runs with heq | ⟨i, job, claimedAt, hworker, heq⟩
    · rw [heq] at hr
      exact hs.runsInTime r hr hkey
    · rw [heq] at hr
      rcases List.mem_cons.mp hr with rfl | hr
      · exact hs.claimsInTime i job claimedAt hworker hkey
      · exact hs.runsInTime r hr hkey
  · intro i job claimedAt hi hkey
    rcases heffect.claimed i job claimedAt hi with hold | ⟨faults, carrier, now, he, hworker, rfl⟩
    · exact hs.claimsInTime i job claimedAt hold hkey
    · exact (hclaim i faults carrier job now he hworker hkey).1
  · rcases hs.exclusive with hnone | hunclaimed
    · exact Or.inl hnone
    · by_cases hnone : ofKey P key s.accepted = []
      · exact Or.inl hnone
      · right
        rintro ⟨x, hx, hkey, hop⟩
        rcases heffect.claims x hx hop with
          hold | ⟨i, faults, carrier, job, now, he, hworker, hsig⟩
        · exact hunclaimed ⟨x, hold, hkey, hop⟩
        · rw [hsig] at hkey
          exact hnone (hclaim i faults carrier job now he hworker hkey).2

theorem requests_cases (s : NodeState) (i j : Nat) (phase : RequestPhase) :
    (j = i ∧ (s.set i phase).requests j = phase) ∨
      (j ≠ i ∧ (s.set i phase).requests j = s.requests j) := by
  by_cases h : j = i
  · subst h
    exact Or.inl ⟨rfl, by simp [NodeState.set]⟩
  · exact Or.inr ⟨h, by simp [NodeState.set, h]⟩

/-- A request may move on in any way that is no authorization of the delegation. -/
theorem OneRun.set {s : NodeState} (hs : OneRun P key expiresAt s) (i : Nat) (phase : RequestPhase)
    (hclocked : ∀ ctx policy now later, phase = .clocked ctx policy now later →
      later ≤ s.relay.clock)
    (hauthorized : ∀ signature, phase = .authorized (some signature) →
      hasKey P key signature = false) :
    OneRun P key expiresAt (s.set i phase) where
  relay := hs.relay
  runsInTime := hs.runsInTime
  claimsInTime := hs.claimsInTime
  exclusive := hs.exclusive
  recorded := hs.recorded
  acceptedOnce := hs.acceptedOnce
  clocked := by
    intro j ctx policy now later hj
    rcases requests_cases s i j phase with ⟨_, heq⟩ | ⟨_, heq⟩
    · exact hclocked ctx policy now later (heq.symm.trans hj)
    · exact hs.clocked j ctx policy now later (heq.symm.trans hj)
  accounted := hs.accounted
  pending := by
    intro j signature hj hkey
    rcases requests_cases s i j phase with ⟨_, heq⟩ | ⟨_, heq⟩
    · rw [hauthorized signature (heq.symm.trans hj)] at hkey
      cases hkey
    · obtain ⟨hruns, haccepted, hunique⟩ := hs.pending j signature (heq.symm.trans hj) hkey
      refine ⟨hruns, haccepted, ?_⟩
      intro k signature' hk hkey'
      rcases requests_cases s i k phase with ⟨_, heq'⟩ | ⟨_, heq'⟩
      · rw [hauthorized signature' (heq'.symm.trans hk)] at hkey'
        cases hkey'
      · exact hunique k signature' (heq'.symm.trans hk) hkey'

theorem oneRun_invoke {s : NodeState} {i : Nat} {signature : Option PyStr}
    (hs : OneRun P key expiresAt s) (hphase : s.requests i = .authorized signature) :
    OneRun P key expiresAt
      (NodeState.set { s with directRuns := signature.toList ++ s.directRuns } i .running) := by
  have hmoved := hs.set i .running (fun _ _ _ _ he => by cases he)
    (fun _ he => by cases he)
  by_cases hours : ∃ text, signature = some text ∧ hasKey P key text = true
  · obtain ⟨text, rfl, hkey⟩ := hours
    obtain ⟨hruns, haccepted, hunique⟩ := hs.pending i text hphase hkey
    have hcons : ofKey P key ((some text).toList ++ s.directRuns) = [text] := by
      simp [ofKey_cons, hkey, hruns]
    refine
      { hmoved with
        accounted := ?_
        pending := ?_ }
    · simp only [NodeState.set, hcons, List.length_singleton]
      exact List.length_pos_of_ne_nil haccepted
    · intro j text' hj hkey'
      rcases requests_cases s i j .running with ⟨_, heq⟩ | ⟨hne, heq⟩
      · cases heq.symm.trans hj
      · exact absurd (hunique j text' (heq.symm.trans hj) hkey') hne
  · have hsame : ofKey P key (signature.toList ++ s.directRuns) = ofKey P key s.directRuns := by
      cases signature with
      | none => rfl
      | some text =>
        have hno : hasKey P key text = false :=
          Bool.eq_false_of_not_eq_true fun hkey => hours ⟨text, rfl, hkey⟩
        simp [ofKey_cons, hno]
    refine
      { hmoved with
        accounted := ?_
        pending := ?_ }
    · simp only [NodeState.set, hsame]
      exact hs.accounted
    · simp only [NodeState.set, hsame]
      exact hmoved.pending

/-- Without metadata no ledger is looked at. -/
theorem authorize_unsigned {ex : Executor} {policy : Policy} {ctx : RequestContext}
    {faults : Identity.Faults} {now later : Int} {db db' : Ledger} {answer : Bool × PyStr}
    (hmeta : extractRavenMeta ctx = [])
    (h : Agent.authorize P ex policy ctx faults now later db = (answer, db')) : db' = db := by
  have hledger : (Agent.authorize P ex policy ctx faults now later db).2 = db := by
    unfold Agent.authorize
    simp only [hmeta, if_true]
    split
    · rfl
    · split
      · simp [verifyDelegation]
      · rfl
  rw [h] at hledger
  exact hledger

/-- An authorization for another delegation, or for none. -/
theorem oneRun_authorizeOther {s : NodeState} {i : Nat} {ledger : Ledger}
    {signature : Option PyStr} (hs : OneRun P key expiresAt s)
    (hother : ∀ text, signature = some text → hasKey P key text = false)
    (hledger : s.relay.clock < expiresAt → s.ledger.get? key = some expiresAt →
      ledger.get? key = some expiresAt) :
    OneRun P key expiresAt (NodeState.set
      { s with ledger, accepted := signature.toList ++ s.accepted } i (.authorized signature)) := by
  have hsame : ofKey P key (signature.toList ++ s.accepted) = ofKey P key s.accepted := by
    cases signature with
    | none => rfl
    | some text => simp [ofKey_cons, hother text rfl]
  have hmoved := hs.set i (.authorized signature) (fun _ _ _ _ he => by cases he)
    (fun text he => hother text (by simpa using he))
  refine
    { hmoved with
      exclusive := ?_
      recorded := ?_
      acceptedOnce := ?_
      accounted := ?_
      pending := ?_ }
  · simp only [NodeState.set, hsame]
    exact hs.exclusive
  · simp only [NodeState.set, hsame]
    exact fun ht haccepted => hledger ht (hs.recorded ht haccepted)
  · simp only [NodeState.set, hsame]
    exact hs.acceptedOnce
  · simp only [NodeState.set, hsame]
    exact hs.accounted
  · simp only [NodeState.set, hsame]
    exact hmoved.pending

/-- An authorization for the delegation, which was not in the ledger and not with the relay. -/
theorem oneRun_authorizeOurs {s : NodeState} {i : Nat} {ledger : Ledger} {text : PyStr}
    (hs : OneRun P key expiresAt s) (hkey : hasKey P key text = true)
    (hfirst : ofKey P key s.accepted = []) (hunclaimed : ¬ ClaimedByRelay P key s.relay.log)
    (hledger : ledger.get? key = some expiresAt) :
    OneRun P key expiresAt (NodeState.set
      { s with ledger, accepted := (some text).toList ++ s.accepted } i
      (.authorized (some text))) := by
  have hcons : ofKey P key ((some text).toList ++ s.accepted) = [text] := by
    simp [ofKey_cons, hkey, hfirst]
  have hruns : ofKey P key s.directRuns = [] := by
    apply List.eq_nil_of_length_eq_zero
    have := hs.accounted
    rw [hfirst] at this
    simpa using this
  refine
    { relay := hs.relay
      runsInTime := hs.runsInTime
      claimsInTime := hs.claimsInTime
      exclusive := Or.inr hunclaimed
      recorded := fun _ _ => hledger
      acceptedOnce := ?_
      clocked := ?_
      accounted := ?_
      pending := ?_ }
  · simp only [NodeState.set, hcons, List.length_singleton]
    exact Nat.le_refl 1
  · intro j ctx policy now later hj
    rcases requests_cases s i j (.authorized (some text)) with ⟨_, heq⟩ | ⟨_, heq⟩
    · cases heq.symm.trans hj
    · exact hs.clocked j ctx policy now later (heq.symm.trans hj)
  · simp only [NodeState.set, hruns, List.length_nil]
    exact Nat.zero_le _
  · have hnone : ∀ k text', s.requests k = .authorized (some text') →
        hasKey P key text' = true → False := fun k text' hk hkey' =>
      (hs.pending k text' hk hkey').2.1 hfirst
    intro j text' hj hkey'
    refine ⟨hruns, by simp only [NodeState.set, hcons]; simp, ?_⟩
    intro k text'' hk hkey''
    rcases requests_cases s i k (.authorized (some text)) with ⟨hki, _⟩ | ⟨_, heq⟩
    · rcases requests_cases s i j (.authorized (some text)) with ⟨hji, _⟩ | ⟨_, heq'⟩
      · rw [hki, hji]
      · exact (hnone j text' (heq'.symm.trans hj) hkey').elim
    · exact (hnone k text'' (heq.symm.trans hk) hkey'').elim

theorem oneRun_authorize {s t : NodeState} {i : Nat} {faults : Identity.Faults}
    (hkind : OneKind P node key expiresAt s (.authorize i faults)) (hs : OneRun P key expiresAt s)
    (h : s.authorize P node i faults = some t) : OneRun P key expiresAt t := by
  unfold NodeState.authorize at h
  split at h
  · rename_i ctx policy now later hphase
    have hlater := hs.clocked i ctx policy now later hphase
    split at h
    · rename_i reason ledger hauthorize
      obtain rfl := Option.some.inj h
      by_cases hmeta : extractRavenMeta ctx = []
      · obtain rfl := authorize_unsigned hmeta hauthorize
        have hnone : presented P ctx = none := by simp [presented, hmeta]
        rw [hnone]
        exact oneRun_authorizeOther hs (fun _ he => by cases he) fun _ hrow => hrow
      · obtain ⟨peers, revoked, a, hpeers, hrevoked, hcheck, _, hfirst⟩ :=
          authorize_accepts hmeta hauthorize
        have hchecked := checkDelegation_ok P hcheck
        have htext : presented P ctx = some a.signatureB64 := by
          simp [presented, hmeta, hchecked.signatureText, Except.toOption]
        rw [htext]
        by_cases hkey : hasKey P key a.signatureB64 = true
        · have hcarried : carried P node ctx policy now = some a := by
            simp [carried, hmeta, hpeers, hrevoked, hcheck, Except.toOption]
          obtain ⟨hexpiry, ht, hunclaimed⟩ := hkind ctx policy now later hphase a hcarried hkey
          obtain ⟨hfresh, hledger⟩ := firstTime_accepts P (hasKey_ledger hkey) hfirst
          rw [hexpiry] at hledger
          refine oneRun_authorizeOurs hs hkey ?_ hunclaimed ?_
          · by_contra haccepted
            exact hfresh ⟨expiresAt, hs.recorded ht haccepted, Int.lt_of_le_of_lt hlater ht⟩
          · rw [hledger]
            exact get?_admitted_self later expiresAt key s.ledger
        · have hno := Bool.eq_false_of_not_eq_true hkey
          obtain ⟨other, hother⟩ := signatureHash_of_decoded (P := P) hchecked.signature
          obtain ⟨_, hledger⟩ := firstTime_accepts P hother hfirst
          refine oneRun_authorizeOther hs ?_ ?_
          · rintro text he
            obtain rfl := Option.some.inj he
            exact hno
          · intro ht hrow
            rw [hledger]
            refine get?_admitted_of_live hrow (Int.lt_of_le_of_lt hlater ht) ?_
            rintro rfl
            exact hkey (hasKey_of_ledger hother)
    · rename_i reason ledger hauthorize
      obtain rfl := Option.some.inj h
      obtain rfl := authorize_refuses hauthorize
      exact hs.set i _ (fun _ _ _ _ he => by cases he) (fun _ he => by cases he)
  · cases h

theorem oneRun_step {s t : NodeState} {e : NodeEvent}
    (hkind : OneKind P node key expiresAt s e) (hs : OneRun P key expiresAt s)
    (h : nodeStep P node s e = some t) : OneRun P key expiresAt t := by
  cases e with
  | relay event =>
    obtain ⟨relay, hrelay, rfl⟩ := Option.map_eq_some_iff.mp h
    exact oneRun_relay hkind hs hrelay
  | request i ctx policy =>
    simp only [nodeStep] at h
    split at h
    · obtain rfl := Option.some.inj h
      exact hs.set i _ (fun _ _ _ _ he => by cases he) (fun _ he => by cases he)
    · cases h
  | readClock i =>
    simp only [nodeStep] at h
    split at h
    · rename_i ctx policy now _
      obtain rfl := Option.some.inj h
      refine hs.set i _ ?_ (fun _ he => by cases he)
      intro ctx' policy' now' later hphase
      obtain ⟨_, _, _, rfl⟩ : ctx = ctx' ∧ policy = policy' ∧ now = now' ∧ s.relay.clock = later := by
        simpa using hphase
      exact Int.le_refl _
    · cases h
  | authorize i faults => exact oneRun_authorize hkind hs h
  | invoke i =>
    simp only [nodeStep] at h
    split at h
    · rename_i signature hphase
      obtain rfl := Option.some.inj h
      exact oneRun_invoke hs hphase
    · cases h
  | finish i =>
    obtain rfl := Option.some.inj h
    exact hs.set i _ (fun _ _ _ _ he => by cases he) (fun _ he => by cases he)
  | crash =>
    obtain rfl := Option.some.inj h
    exact
      { hs with
        relay := ⟨hs.relay.table, hs.relay.consistent, (fun _ _ hj => by cases hj),
          (fun _ _ _ _ hj => by cases hj), hs.relay.accounted, (fun _ _ _ hj => by cases hj)⟩
        claimsInTime := fun _ _ _ hj => by cases hj
        clocked := fun _ _ _ _ _ hj => by cases hj
        pending := fun _ _ hj => by cases hj }

theorem NodeState.Fresh.oneRun {s : NodeState} (h : s.Fresh key) : OneRun P key expiresAt s := by
  have hnone : ofKey P key s.accepted = [] := by rw [h.accepted]; rfl
  refine
    { relay := h.relay.faithful
      runsInTime := ?_
      claimsInTime := ?_
      exclusive := Or.inl hnone
      recorded := fun _ haccepted => absurd hnone haccepted
      acceptedOnce := ?_
      clocked := ?_
      accounted := ?_
      pending := ?_ }
  · rw [h.relay.runs]
    intro r hr
    cases hr
  · intro i job claimedAt hi
    rw [h.relay.workers i] at hi
    cases hi
  · rw [hnone]
    exact Nat.zero_le 1
  · intro i ctx policy now later hi
    rw [h.requests i] at hi
    cases hi
  · rw [h.directRuns]
    exact Nat.zero_le _
  · intro i signature hi
    rw [h.requests i] at hi
    cases hi

/-- Calls of the brain that all belong to claims in time are all in the history. -/
theorem relayRuns_eq {runs : List BrainRun}
    (h : ∀ r ∈ runs, hasKey P key r.signature = true → r.claimedAt < expiresAt) :
    (ofKey P key (runs.map BrainRun.signature)).length = (runsOf P key expiresAt runs).length := by
  have hfilter : runsOf P key expiresAt runs = runs.filter fun r => hasKey P key r.signature := by
    apply List.filter_congr
    intro r hr
    cases hkey : hasKey P key r.signature with
    | false => rfl
    | true => simp [h r hr hkey]
  rw [hfilter, ofKey, List.filter_map, List.length_map]
  rfl

theorem OneRun.keyRuns_le {s : NodeState} (hs : OneRun P key expiresAt s) :
    keyRuns P key s ≤ 1 := by
  have hrelay := hs.relay.accounted
  have hnew := hs.relay.consistent.newClaims_le
  have hdirect := hs.accounted
  have honce := hs.acceptedOnce
  unfold keyRuns
  rw [relayRuns_eq hs.runsInTime]
  rcases hs.exclusive with hnone | hunclaimed
  · rw [hnone, List.length_nil] at hdirect
    omega
  · have hzero : newClaims (history P key expiresAt s.relay.log) = 0 := by
      apply newClaims_eq_zero
      intro op hop
      obtain ⟨x, hx, rfl⟩ := List.mem_map.mp hop
      obtain ⟨hmem, hfilter⟩ := List.mem_filter.mp hx
      exact Bool.eq_false_of_not_eq_true fun hclaim =>
        hunclaimed ⟨x, hmem, (Bool.and_eq_true_iff.mp hfilter).1, hclaim⟩
    omega

end

/-! ## One spelling -/

/-- Whatever has passed verification under the signature spells it with the text. -/
structure Spelled (raw : Bytes) (text : PyStr) (s : NodeState) : Prop where
  jobs : ∀ i job, (s.relay.workers i).job = some job → spells raw job.signature = true →
    job.signature = text
  relayRuns : ∀ r ∈ s.relay.runs, spells raw r.signature = true → r.signature = text
  requests : ∀ i signature, s.requests i = .authorized (some signature) →
    spells raw signature = true → signature = text
  directRuns : ∀ signature ∈ s.directRuns, spells raw signature = true → signature = text

section
variable {node : RavenNode} {raw : Bytes} {text : PyStr}

theorem Spelled.set {s : NodeState} (hs : Spelled raw text s) (i : Nat) (phase : RequestPhase)
    (hphase : ∀ signature, phase = .authorized (some signature) → spells raw signature = true →
      signature = text) :
    Spelled raw text (s.set i phase) where
  jobs := hs.jobs
  relayRuns := hs.relayRuns
  requests := by
    intro j signature hj hspells
    rcases requests_cases s i j phase with ⟨_, heq⟩ | ⟨_, heq⟩
    · exact hphase signature (heq.symm.trans hj) hspells
    · exact hs.requests j signature (heq.symm.trans hj) hspells
  directRuns := hs.directRuns

theorem spelled_relay {s : NodeState} {event : RelayEvent} {relay : RelayState}
    (hone : OneSpelling P node raw text s (.relay event)) (hs : Spelled raw text s)
    (h : relayStep P node.relay s.relay event = some relay) : Spelled raw text { s with relay } where
  jobs := by
    intro i job hi hspells
    rcases (relayStep_effect h).jobs i job hi with hold | ⟨carrier, envelope, policy, rfl, hpeek⟩
    · exact hs.jobs i job hold hspells
    · exact hone job hpeek hspells
  relayRuns := by
    intro r hr hspells
    rcases (relayStep_effect h).runs with heq | ⟨i, job, claimedAt, hworker, heq⟩
    · rw [heq] at hr
      exact hs.relayRuns r hr hspells
    · rw [heq] at hr
      rcases List.mem_cons.mp hr with rfl | hr
      · exact hs.jobs i job (by rw [hworker]; rfl) hspells
      · exact hs.relayRuns r hr hspells
  requests := hs.requests
  directRuns := hs.directRuns

theorem spelled_authorize {s t : NodeState} {i : Nat} {faults : Identity.Faults}
    (hone : OneSpelling P node raw text s (.authorize i faults)) (hs : Spelled raw text s)
    (h : s.authorize P node i faults = some t) : Spelled raw text t := by
  unfold NodeState.authorize at h
  split at h
  · rename_i ctx policy now later hphase
    split at h
    · rename_i reason ledger hauthorize
      obtain rfl := Option.some.inj h
      have hours : ∀ signature, presented P ctx = some signature → spells raw signature = true →
          signature = text := by
        intro signature hsignature hspells
        by_cases hmeta : extractRavenMeta ctx = []
        · simp [presented, hmeta] at hsignature
        · obtain ⟨peers, revoked, a, hpeers, hrevoked, hcheck, _, _⟩ :=
            authorize_accepts hmeta hauthorize
          have hchecked := checkDelegation_ok P hcheck
          have hcarried : carried P node ctx policy now = some a := by
            simp [carried, hmeta, hpeers, hrevoked, hcheck, Except.toOption]
          obtain rfl : a.signatureB64 = signature := by
            simpa [presented, hmeta, hchecked.signatureText, Except.toOption] using hsignature
          have hraw : a.signature = raw := by
            simpa [spells, hchecked.signature, Except.toOption] using hspells
          exact hone ctx policy now later hphase a hcarried hraw
      have hmoved := hs.set i (.authorized (presented P ctx)) fun signature he =>
        hours signature (by simpa using he)
      exact ⟨hmoved.jobs, hmoved.relayRuns, hmoved.requests, hmoved.directRuns⟩
    · obtain rfl := Option.some.inj h
      have hmoved := hs.set i .idle fun _ he => by cases he
      exact ⟨hmoved.jobs, hmoved.relayRuns, hmoved.requests, hmoved.directRuns⟩
  · cases h

theorem spelled_step {s t : NodeState} {e : NodeEvent}
    (hone : OneSpelling P node raw text s e) (hs : Spelled raw text s)
    (h : nodeStep P node s e = some t) : Spelled raw text t := by
  cases e with
  | relay event =>
    obtain ⟨relay, hrelay, rfl⟩ := Option.map_eq_some_iff.mp h
    exact spelled_relay hone hs hrelay
  | request i ctx policy =>
    simp only [nodeStep] at h
    split at h
    · obtain rfl := Option.some.inj h
      exact hs.set i _ fun _ he => by cases he
    · cases h
  | readClock i =>
    simp only [nodeStep] at h
    split at h
    · obtain rfl := Option.some.inj h
      exact hs.set i _ fun _ he => by cases he
    · cases h
  | authorize i faults => exact spelled_authorize hone hs h
  | invoke i =>
    simp only [nodeStep] at h
    split at h
    · rename_i signature hphase
      obtain rfl := Option.some.inj h
      have hmoved := hs.set i .running fun _ he => by cases he
      refine ⟨hmoved.jobs, hmoved.relayRuns, hmoved.requests, ?_⟩
      intro other hother hspells
      rcases List.mem_append.mp hother with hother | hother
      · obtain rfl := Option.mem_toList.mp hother
        exact hs.requests i other hphase hspells
      · exact hs.directRuns other hother hspells
    · cases h
  | finish i =>
    obtain rfl := Option.some.inj h
    exact hs.set i _ fun _ he => by cases he
  | crash =>
    obtain rfl := Option.some.inj h
    exact
      { hs with
        jobs := fun _ _ hj => by cases hj
        requests := fun _ _ hj => by cases hj }

theorem NodeState.Fresh.spelled {key : PyStr} {s : NodeState} (h : s.Fresh key) :
    Spelled raw text s := by
  refine ⟨?_, ?_, ?_, ?_⟩
  · intro i job hi
    rw [h.relay.workers i] at hi
    cases hi
  · intro r hr
    rw [h.relay.runs] at hr
    cases hr
  · intro i signature hi
    rw [h.requests i] at hi
    cases hi
  · intro signature hsignature
    rw [h.directRuns] at hsignature
    cases hsignature

theorem ofSignature_le {key : PyStr} {texts : List PyStr} (hkey : hasKey P key text = true)
    (h : ∀ t ∈ texts, spells raw t = true → t = text) :
    (ofSignature raw texts).length ≤ (ofKey P key texts).length := by
  unfold ofSignature ofKey
  rw [← List.countP_eq_length_filter, ← List.countP_eq_length_filter]
  apply List.countP_mono_left
  intro t ht hspells
  rw [h t ht hspells]
  exact hkey

/-- With one spelling, the calls for the delegation are among those under its key. -/
theorem Spelled.brainRuns_le {key : PyStr} {s : NodeState} (hs : Spelled raw text s)
    (hkey : hasKey P key text = true) : brainRuns raw s ≤ keyRuns P key s := by
  apply Nat.add_le_add (ofSignature_le hkey hs.directRuns)
  apply ofSignature_le hkey
  intro t ht
  obtain ⟨r, hr, rfl⟩ := List.mem_map.mp ht
  exact hs.relayRuns r hr

end

/-- A delegation whose copies all come by carriers of one kind, reach its store before it
expires and spell the signature alike leads to at most one call of the brain. -/
theorem one_kind_runs_once {node : RavenNode} {raw : Bytes} {text key : PyStr} {expiresAt : Int}
    {s t : NodeState} {events : List NodeEvent} (hkey : signatureHash P text = .ok key)
    (hfresh : s.Fresh key)
    (halike : (nodeStep P node).Along (AlikeCopies P node raw text key expiresAt) s events)
    (hrun : (nodeStep P node).run s events = some t) : brainRuns raw t ≤ 1 := by
  obtain ⟨hone, hspelled⟩ :=
    Machine.invariant_along (I := fun u => OneRun P key expiresAt u ∧ Spelled raw text u)
      (fun hcond hu hstep => ⟨oneRun_step hcond.1 hu.1 hstep, spelled_step hcond.2 hu.2 hstep⟩)
      halike ⟨hfresh.oneRun, hfresh.spelled⟩ hrun
  exact (hspelled.brainRuns_le (hasKey_iff.mpr hkey)).trans hone.keyRuns_le

namespace Sample

def ravenNode : RavenNode := ⟨node.identity, true, Identity.Sample.cache⟩

def freshNode : NodeState := ⟨idleState, .empty, fun _ => .idle, [], []⟩

/-- The delegation as a direct request of its sender. -/
def direct : List NodeEvent :=
  [.request 0 (Agent.Sample.request Identity.Sample.address) Agent.Sample.policy, .readClock 0,
    .authorize 0 Identity.noFaults, .invoke 0]

/-- The same delegation from the inbox. -/
def stored : List NodeEvent := (claimCopy 0 .inbox ++ [RelayEvent.invoke 0]).map .relay

/-- The same 64 bytes in another spelling. -/
def respelled : PyStr := signature.take 85 ++ lit "R=="

def respelledEnvelope : Value := .dict [
  (lit "id", .str (lit "t1")),
  (lit "kind", .str (lit "task")),
  (lit "from", .str Identity.Sample.address),
  (lit "to", .str Identity.Sample.nodeAddress),
  (lit "text", .str (lit "hello")),
  (lit "raven", .dict (Identity.Sample.metadata respelled))]

/-- A copy from the inbox whose signature is spelled otherwise. -/
def storedRespelled : List NodeEvent :=
  [.relay (.takeUp 1 .inbox respelledEnvelope policy), .relay (.readClock 1),
    .relay (.claim 1 noFaults), .relay (.invoke 1)]

/-- A copy by each of the carriers that share the table of outcomes, with a crash between. -/
def storedTwice : List NodeEvent :=
  stored ++ [.crash] ++ (claimCopy 0 .mailbox).map .relay

def RunsTwice (s : NodeState) : Prop := brainRuns Identity.Sample.delegationSignature s = 2

instance (s : NodeState) : Decidable (RunsTwice s) := inferInstanceAs (Decidable (_ = _))

end Sample

theorem two_carriers_run_twice :
    (∃ t, (nodeStep Sample.platform Sample.ravenNode).run Sample.freshNode
      (Sample.direct ++ Sample.stored) = some t ∧ Sample.RunsTwice t) ∧
    ∃ t, (nodeStep Sample.platform Sample.ravenNode).run Sample.freshNode
      (Sample.stored ++ Sample.storedRespelled) = some t ∧ Sample.RunsTwice t :=
  ⟨exists_of_any (by decide +kernel), exists_of_any (by decide +kernel)⟩

theorem one_kind_runs_once_sample :
    ∃ t, (nodeStep Sample.platform Sample.ravenNode).run Sample.freshNode Sample.storedTwice =
      some t ∧ brainRuns Identity.Sample.delegationSignature t ≤ 1 := by
  obtain ⟨t, hrun, _⟩ := exists_of_any (p := fun _ => True)
    (x := (nodeStep Sample.platform Sample.ravenNode).run Sample.freshNode Sample.storedTwice)
    (by decide +kernel)
  have hkey : signatureHash Sample.platform Sample.signature = .ok Sample.key := by
    decide +kernel
  have hfresh : Sample.freshNode.Fresh Sample.key :=
    ⟨⟨rfl, fun _ => rfl, rfl, rfl⟩, fun _ => rfl, rfl, rfl⟩
  have halike : (nodeStep Sample.platform Sample.ravenNode).Along
      (AlikeCopies Sample.platform Sample.ravenNode Identity.Sample.delegationSignature
        Sample.signature Sample.key 1600) Sample.freshNode Sample.storedTwice := by
    decide +kernel
  exact ⟨t, hrun, one_kind_runs_once hkey hfresh halike hrun⟩

end Rdap.Relay
