import Mathlib.Data.List.Basic
import Rdap.Python.Text

/-!
# Committing a received message

The steps from a candidate to a cleared journal, in the order that a crash at any time leaves recoverable: no
head is final before the receipt is committed, and a new epoch is promoted only with the head.
-/

set_option autoImplicit false

namespace Rdap.Protocol.ReceiveCommit
open Python

inductive Stage where
  | idle
  | candidate
  | derived
  | aeadOk
  | pending
  | sqlCommitted
  | skippedPersisted
  | finalized
  | cleared
  deriving DecidableEq

inductive CommitAction where
  | cloneCandidate
  | deriveKeysOnCandidate
  | aeadOk
  | writePendingInbound
  | sqlCommitReceiptDedup
  | persistMkskipped
  | finalizeHead
  | promoteSckaEpochOnCandidate
  | commitEpochWithFinalize
  | clearPending
  | finalizeBeforeSql
  | promoteEpochBeforeSql
  | other (text : PyStr)
  deriving DecidableEq

@[ext] structure ReceiveCommitMachine where
  state : Stage := .idle
  durableMutation : Bool := false
  skippedPersisted : Bool := false
  epochPromoted : Bool := false
  epochOnCandidate : Bool := false
  generation : Nat := 0
  deriving DecidableEq

/-- The machine goes on, or a `CrashMachineError` with a text. -/
def ReceiveCommitMachine.apply (m : ReceiveCommitMachine) : CommitAction → Except PyStr ReceiveCommitMachine
  | .cloneCandidate =>
    if m.state ≠ .idle then .error (lit "bad") else .ok { m with state := .candidate }
  | .deriveKeysOnCandidate =>
    if m.state ≠ .candidate then .error (lit "bad") else .ok { m with state := .derived }
  | .aeadOk =>
    if m.state ≠ .derived then .error (lit "bad") else .ok { m with state := .aeadOk }
  | .writePendingInbound =>
    if m.state ≠ .aeadOk then .error (lit "bad") else .ok { m with state := .pending }
  | .sqlCommitReceiptDedup =>
    if m.state ≠ .pending then .error (lit "bad")
    else .ok { m with state := .sqlCommitted, durableMutation := true }
  | .persistMkskipped =>
    if m.state ≠ .sqlCommitted then .error (lit "bad")
    else .ok { m with skippedPersisted := true, state := .skippedPersisted }
  | .finalizeHead =>
    if m.state ≠ .sqlCommitted ∧ m.state ≠ .skippedPersisted then .error (lit "finalize_requires_sql")
    else if m.epochOnCandidate = true then .error (lit "use_commit_epoch_with_finalize")
    else .ok { m with generation := m.generation + 1, state := .finalized }
  | .promoteSckaEpochOnCandidate =>
    if m.state ≠ .derived ∧ m.state ≠ .aeadOk then .error (lit "bad")
    else .ok { m with epochOnCandidate := true }
  | .commitEpochWithFinalize =>
    if m.state ≠ .sqlCommitted ∧ m.state ≠ .skippedPersisted then .error (lit "epoch_requires_sql")
    else if m.epochOnCandidate = false then .error (lit "epoch_requires_pending")
    else if m.durableMutation = false then .error (lit "epoch_requires_sql")
    else .ok { m with epochPromoted := true, generation := m.generation + 1, state := .finalized }
  | .clearPending =>
    if m.state ≠ .finalized then .error (lit "bad") else .ok { m with state := .cleared }
  | .finalizeBeforeSql => .error (lit "finalize_before_sql_forbidden")
  | .promoteEpochBeforeSql => .error (lit "epoch_before_sql_forbidden")
  | .other text => .error (lit "unknown:" ++ text)

def ReceiveCommitMachine.applyAll (m : ReceiveCommitMachine) (actions : List CommitAction) :
    Except PyStr ReceiveCommitMachine :=
  actions.foldlM ReceiveCommitMachine.apply m

/-- An action that is refused leaves the machine as it was. -/
def ReceiveCommitMachine.attempt (m : ReceiveCommitMachine) (action : CommitAction) : ReceiveCommitMachine :=
  match m.apply action with
  | .ok next => next
  | .error _ => m

/-! ## Scripts -/

/-- What has been done at a stage: the epoch is promoted so many times before the opening and after it, and the
skipped keys are persisted or not. -/
structure Plan where
  early : Nat
  late : Nat
  persist : Bool

namespace Plan

/-- The receiver's ratchet has moved to a new epoch. -/
def promotes (p : Plan) : Bool := 0 < p.early + p.late

def final (p : Plan) : CommitAction := if p.promotes then .commitEpochWithFinalize else .finalizeHead

def opened (p : Plan) : List CommitAction :=
  .cloneCandidate :: .deriveKeysOnCandidate :: List.replicate p.early .promoteSckaEpochOnCandidate ++
    .aeadOk :: List.replicate p.late .promoteSckaEpochOnCandidate

def committed (p : Plan) : List CommitAction := p.opened ++ [.writePendingInbound, .sqlCommitReceiptDedup]

def persisted (p : Plan) : List CommitAction := p.committed ++ if p.persist then [.persistMkskipped] else []

/-- The actions up to a stage. -/
def script (p : Plan) : Stage → List CommitAction
  | .idle => []
  | .candidate => [.cloneCandidate]
  | .derived => .cloneCandidate :: .deriveKeysOnCandidate :: List.replicate p.early .promoteSckaEpochOnCandidate
  | .aeadOk => p.opened
  | .pending => p.opened ++ [.writePendingInbound]
  | .sqlCommitted => p.committed
  | .skippedPersisted => p.committed ++ [.persistMkskipped]
  | .finalized => p.persisted ++ [p.final]
  | .cleared => p.persisted ++ [p.final, .clearPending]

/-- The machine at a stage. -/
def machine (p : Plan) : Stage → ReceiveCommitMachine
  | .idle => {}
  | .candidate => { state := .candidate }
  | .derived => { state := .derived, epochOnCandidate := 0 < p.early }
  | .aeadOk => { state := .aeadOk, epochOnCandidate := p.promotes }
  | .pending => { state := .pending, epochOnCandidate := p.promotes }
  | .sqlCommitted => { state := .sqlCommitted, durableMutation := true, epochOnCandidate := p.promotes }
  | .skippedPersisted =>
    { state := .skippedPersisted, durableMutation := true, skippedPersisted := true, epochOnCandidate := p.promotes }
  | .finalized =>
    { state := .finalized, durableMutation := true, skippedPersisted := p.persist, epochPromoted := p.promotes,
      epochOnCandidate := p.promotes, generation := 1 }
  | .cleared =>
    { state := .cleared, durableMutation := true, skippedPersisted := p.persist, epochPromoted := p.promotes,
      epochOnCandidate := p.promotes, generation := 1 }

variable {p : Plan} {stage : Stage} {m : ReceiveCommitMachine}

@[simp] theorem machine_state (p : Plan) (stage : Stage) : (p.machine stage).state = stage := by
  cases stage <;> rfl

/-! ### One action -/

theorem refused_or {c : Prop} [Decidable c] {text : PyStr} {x : Except PyStr ReceiveCommitMachine} :
    (if c then .error text else x) = .ok m ↔ ¬c ∧ x = .ok m := by
  split
  · rename_i hc
    constructor
    · intro h
      cases h
    · exact fun h => absurd hc h.1
  · rename_i hc
    exact ⟨fun h => ⟨hc, h⟩, And.right⟩

theorem machine_epochOnCandidate (hstage : stage = .sqlCommitted ∨ stage = .skippedPersisted) :
    (p.machine stage).epochOnCandidate = p.promotes := by
  rcases hstage with rfl | rfl <;> rfl

/-- The head is finalized by the action that fits the plan. -/
theorem reaches_finalized {c : Bool} {a : CommitAction} (hc : p.promotes = c) (ha : p.final = a)
    (hstage : stage = .sqlCommitted ∨ stage = .skippedPersisted)
    (hm : m = { p.machine stage with epochPromoted := c, generation := 1, state := .finalized }) :
    ∃ q next, p.script stage ++ [a] = Plan.script q next ∧ m = Plan.machine q next := by
  subst hc ha hm
  rcases hstage with rfl | rfl
  · refine ⟨{ p with persist := false }, .finalized, ?_, rfl⟩
    exact congrArg (· ++ [p.final]) (List.append_nil p.committed).symm
  · exact ⟨{ p with persist := true }, .finalized, rfl, rfl⟩

/-- An action that is taken at a stage leads to a stage, of this plan or of one that agrees with it so far. -/
theorem apply_reaches {a : CommitAction} (h : (p.machine stage).apply a = .ok m) :
    ∃ q next, p.script stage ++ [a] = Plan.script q next ∧ m = Plan.machine q next := by
  cases a with
  | cloneCandidate =>
    obtain ⟨hstage, hm⟩ := refused_or.mp h
    rw [machine_state, not_not] at hstage
    subst hstage
    exact ⟨p, .candidate, rfl, (Except.ok.inj hm).symm⟩
  | deriveKeysOnCandidate =>
    obtain ⟨hstage, hm⟩ := refused_or.mp h
    rw [machine_state, not_not] at hstage
    subst hstage
    exact ⟨{ p with early := 0 }, .derived, rfl, (Except.ok.inj hm).symm⟩
  | aeadOk =>
    obtain ⟨hstage, hm⟩ := refused_or.mp h
    rw [machine_state, not_not] at hstage
    subst hstage
    exact ⟨{ p with late := 0 }, .aeadOk, rfl, (Except.ok.inj hm).symm⟩
  | writePendingInbound =>
    obtain ⟨hstage, hm⟩ := refused_or.mp h
    rw [machine_state, not_not] at hstage
    subst hstage
    exact ⟨p, .pending, rfl, (Except.ok.inj hm).symm⟩
  | sqlCommitReceiptDedup =>
    obtain ⟨hstage, hm⟩ := refused_or.mp h
    rw [machine_state, not_not] at hstage
    subst hstage
    exact ⟨p, .sqlCommitted, List.append_assoc _ _ _, (Except.ok.inj hm).symm⟩
  | persistMkskipped =>
    obtain ⟨hstage, hm⟩ := refused_or.mp h
    rw [machine_state, not_not] at hstage
    subst hstage
    exact ⟨p, .skippedPersisted, rfl, (Except.ok.inj hm).symm⟩
  | finalizeHead =>
    obtain ⟨hstage, hm⟩ := refused_or.mp h
    obtain ⟨hcandidate, hm⟩ := refused_or.mp hm
    rw [machine_state, not_and_or, not_not, not_not] at hstage
    rw [machine_epochOnCandidate hstage] at hcandidate
    apply reaches_finalized (Bool.eq_false_of_not_eq_true hcandidate) (if_neg hcandidate) hstage
    rw [← Except.ok.inj hm]
    rcases hstage with rfl | rfl <;> rfl
  | promoteSckaEpochOnCandidate =>
    obtain ⟨hstage, hm⟩ := refused_or.mp h
    rw [machine_state, not_and_or, not_not, not_not] at hstage
    rcases hstage with rfl | rfl
    · refine ⟨{ p with early := p.early + 1 }, .derived, ?_, ?_⟩
      · simp only [script, List.replicate_succ', List.cons_append]
      · rw [← Except.ok.inj hm]
        simp [machine]
    · refine ⟨{ p with late := p.late + 1 }, .aeadOk, ?_, ?_⟩
      · simp only [script, opened, List.replicate_succ', List.cons_append, List.append_assoc]
      · rw [← Except.ok.inj hm]
        simp [machine, promotes]
  | commitEpochWithFinalize =>
    obtain ⟨hstage, hm⟩ := refused_or.mp h
    obtain ⟨hcandidate, hm⟩ := refused_or.mp hm
    obtain ⟨-, hm⟩ := refused_or.mp hm
    rw [machine_state, not_and_or, not_not, not_not] at hstage
    rw [machine_epochOnCandidate hstage] at hcandidate
    have hpromotes := Bool.eq_true_of_not_eq_false hcandidate
    apply reaches_finalized hpromotes (if_pos hpromotes) hstage
    rw [← Except.ok.inj hm]
    rcases hstage with rfl | rfl <;> rfl
  | clearPending =>
    obtain ⟨hstage, hm⟩ := refused_or.mp h
    rw [machine_state, not_not] at hstage
    subst hstage
    exact ⟨p, .cleared, List.append_assoc _ _ _, (Except.ok.inj hm).symm⟩
  | finalizeBeforeSql => cases h
  | promoteEpochBeforeSql => cases h
  | other text => cases h

/-! ### Whole scripts -/

theorem applyAll_append {s t : ReceiveCommitMachine} {before after : List CommitAction}
    (h : s.applyAll before = .ok t) : s.applyAll (before ++ after) = t.applyAll after := by
  unfold ReceiveCommitMachine.applyAll at h ⊢
  rw [List.foldlM_append, h]
  rfl

theorem applyAll_promote {s : ReceiveCommitMachine} (hstage : s.state = .derived ∨ s.state = .aeadOk) (n : Nat) :
    s.applyAll (List.replicate n .promoteSckaEpochOnCandidate) =
      .ok { s with epochOnCandidate := s.epochOnCandidate || decide (0 < n) } := by
  induction n generalizing s with
  | zero => simp [ReceiveCommitMachine.applyAll, pure, Except.pure]
  | succ n ih =>
    have hstep : s.apply .promoteSckaEpochOnCandidate = .ok { s with epochOnCandidate := true } := by
      rcases hstage with hstage | hstage <;> simp [ReceiveCommitMachine.apply, hstage]
    rw [List.replicate_succ, ← List.singleton_append,
      applyAll_append (t := { s with epochOnCandidate := true }), ih]
    · simp
    · exact hstage
    · unfold ReceiveCommitMachine.applyAll
      rw [List.foldlM_cons, hstep]
      rfl

theorem derived_accepted (p : Plan) :
    ReceiveCommitMachine.applyAll {} (p.script .derived) = .ok (p.machine .derived) := by
  have hfirst : ReceiveCommitMachine.applyAll {} [.cloneCandidate, .deriveKeysOnCandidate] =
      .ok { state := .derived } := rfl
  have hrest := applyAll_promote (s := { state := .derived }) (Or.inl rfl) p.early
  rw [Bool.false_or] at hrest
  exact (applyAll_append hfirst).trans hrest

theorem opened_accepted (p : Plan) : ReceiveCommitMachine.applyAll {} p.opened = .ok (p.machine .aeadOk) := by
  have hopen : (p.machine .derived).applyAll [.aeadOk] = .ok { p.machine .derived with state := .aeadOk } := rfl
  have hrest := applyAll_promote (s := { p.machine .derived with state := .aeadOk }) (Or.inr rfl) p.late
  have hpromotes : (decide (0 < p.early) || decide (0 < p.late)) = p.promotes := by
    rw [Bool.eq_iff_iff]
    simp [promotes]
  rw [show (p.machine .derived).epochOnCandidate = decide (0 < p.early) from rfl, hpromotes] at hrest
  exact (applyAll_append (derived_accepted p)).trans ((applyAll_append hopen).trans hrest)

theorem committed_accepted (p : Plan) :
    ReceiveCommitMachine.applyAll {} p.committed = .ok (p.machine .sqlCommitted) :=
  applyAll_append (opened_accepted p)

theorem persisted_accepted (p : Plan) : ReceiveCommitMachine.applyAll {} p.persisted =
    .ok (p.machine (if p.persist then .skippedPersisted else .sqlCommitted)) := by
  refine (applyAll_append (committed_accepted p)).trans ?_
  cases p.persist <;> rfl

theorem finalized_accepted (p : Plan) :
    ReceiveCommitMachine.applyAll {} (p.script .finalized) = .ok (p.machine .finalized) := by
  have hfinal : ∀ b c : Bool, ReceiveCommitMachine.applyAll
      { state := if b then .skippedPersisted else .sqlCommitted, durableMutation := true, skippedPersisted := b,
        epochOnCandidate := c }
      [if c then .commitEpochWithFinalize else .finalizeHead] =
        .ok { state := .finalized, durableMutation := true, skippedPersisted := b, epochPromoted := c,
              epochOnCandidate := c, generation := 1 } := by
    intro b c
    cases b <;> cases c <;> rfl
  refine (applyAll_append (persisted_accepted p)).trans ?_
  obtain ⟨early, late, persist⟩ := p
  cases persist
  · exact hfinal false _
  · exact hfinal true _

/-- Every script is taken from its first action to its last. -/
theorem script_accepted (p : Plan) (stage : Stage) :
    ReceiveCommitMachine.applyAll {} (p.script stage) = .ok (p.machine stage) := by
  cases stage with
  | idle => rfl
  | candidate => rfl
  | derived => exact derived_accepted p
  | aeadOk => exact opened_accepted p
  | pending => exact applyAll_append (opened_accepted p)
  | sqlCommitted => exact committed_accepted p
  | skippedPersisted => exact applyAll_append (committed_accepted p)
  | finalized => exact finalized_accepted p
  | cleared =>
    have hscript : p.script .cleared = p.script .finalized ++ [.clearPending] := (List.append_assoc _ [_] [_]).symm
    rw [hscript]
    exact applyAll_append (finalized_accepted p)

/-- What is taken, to the last action, is a script. -/
theorem taken_iff {actions : List CommitAction} : ReceiveCommitMachine.applyAll {} actions = .ok m ↔
    ∃ p stage, actions = Plan.script p stage ∧ m = Plan.machine p stage := by
  constructor
  · intro h
    induction actions using List.reverseRecOn generalizing m with
    | nil => exact ⟨⟨0, 0, false⟩, .idle, rfl, (Except.ok.inj h).symm⟩
    | append_singleton before a ih =>
      unfold ReceiveCommitMachine.applyAll at h
      rw [List.foldlM_append] at h
      cases hbefore : List.foldlM ReceiveCommitMachine.apply {} before with
      | error e =>
        rw [hbefore] at h
        cases h
      | ok reached =>
        obtain ⟨p, stage, rfl, rfl⟩ := ih hbefore
        rw [hbefore] at h
        have hlast : (p.machine stage).apply a = .ok m := by
          cases ha : (p.machine stage).apply a with
          | error e =>
            simp [ha, bind, Except.bind] at h
          | ok next =>
            simpa [ha, bind, Except.bind, pure, Except.pure] using h
        exact apply_reaches hlast
  · rintro ⟨p, stage, rfl, rfl⟩
    exact script_accepted p stage

/-- A head is final only with the receipt, once, and with the epoch that the candidate had; nothing else becomes
durable before the receipt. -/
theorem machine_safe (p : Plan) (stage : Stage) : (p.machine stage).generation ≤ 1 ∧
    ((p.machine stage).durableMutation = false → (p.machine stage).generation = 0 ∧
      (p.machine stage).skippedPersisted = false ∧ (p.machine stage).epochPromoted = false) ∧
    ((p.machine stage).generation = 0 → (p.machine stage).epochPromoted = false) ∧
    ((p.machine stage).generation = 1 → (p.machine stage).epochPromoted = (p.machine stage).epochOnCandidate) := by
  cases stage <;> simp [machine]

end Plan

/-- The machine after attempts, refused ones among them. -/
def attempts (attempted : List CommitAction) : ReceiveCommitMachine :=
  attempted.foldl ReceiveCommitMachine.attempt {}

/-- Actions that are refused leave no trace: the others, in their order, are taken by themselves. -/
theorem attempts_taken (attempted : List CommitAction) : ∃ actions, List.Sublist actions attempted ∧
    ReceiveCommitMachine.applyAll {} actions = .ok (attempts attempted) := by
  induction attempted using List.reverseRecOn with
  | nil => exact ⟨[], .refl _, rfl⟩
  | append_singleton before a ih =>
    obtain ⟨actions, hsublist, htaken⟩ := ih
    have hlast : attempts (before ++ [a]) = (attempts before).attempt a := by
      unfold attempts
      rw [List.foldl_append, List.foldl_cons, List.foldl_nil]
    rw [hlast, ReceiveCommitMachine.attempt]
    cases ha : (attempts before).apply a with
    | error e => exact ⟨actions, hsublist.trans (List.sublist_append_left _ _), htaken⟩
    | ok next =>
      refine ⟨actions ++ [a], hsublist.append (.refl _), ?_⟩
      rw [Plan.applyAll_append htaken]
      unfold ReceiveCommitMachine.applyAll
      rw [List.foldlM_cons, ha]
      rfl

/-- The runs of the machine are the beginnings of a receive commit in its one order, and each of them can be
run. Whatever is attempted, in whatever order, it is at every moment at such a beginning: the head is final at
most once, only with the receipt, and with the epoch that the candidate had. -/
theorem receive_commit_runs :
    (∀ actions m, ReceiveCommitMachine.applyAll {} actions = .ok m ↔
      ∃ p stage, actions = Plan.script p stage ∧ m = Plan.machine p stage) ∧
    ∀ attempted,
      (∃ p stage, List.Sublist (Plan.script p stage) attempted ∧ attempts attempted = Plan.machine p stage) ∧
      (attempts attempted).generation ≤ 1 ∧
      ((attempts attempted).durableMutation = false → (attempts attempted).generation = 0 ∧
        (attempts attempted).skippedPersisted = false ∧ (attempts attempted).epochPromoted = false) ∧
      ((attempts attempted).generation = 0 → (attempts attempted).epochPromoted = false) ∧
      ((attempts attempted).generation = 1 →
        (attempts attempted).epochPromoted = (attempts attempted).epochOnCandidate) := by
  refine ⟨fun _ _ => Plan.taken_iff, fun attempted => ?_⟩
  obtain ⟨actions, hsublist, htaken⟩ := attempts_taken attempted
  obtain ⟨p, stage, rfl, hm⟩ := Plan.taken_iff.mp htaken
  rw [hm]
  exact ⟨⟨p, stage, hsublist, rfl⟩, Plan.machine_safe p stage⟩

end Rdap.Protocol.ReceiveCommit
