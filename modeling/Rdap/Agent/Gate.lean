import Rdap.Agent.Execute

/-!
# The gate before the work

Up to the verdict of the authorization a run of `execute` only reads. A refusal is one event,
and a text reaches the brain only if the verdict cleared exactly this text.
-/

set_option autoImplicit false

namespace Rdap.Agent
open Python Protocol Lib Identity Server

variable {P : Platform}

/-! ## What stands before the authorization -/

/-- The operations of the run so far, with their answers. -/
abbrev History := List (Program.Event Operation Operation.Answer)

/-- How the authorization came to its verdict. -/
inductive Reached (P : Platform) (ex : Executor) (r : Incoming) (es : History) :
    Except Raised Verdict → Prop where
  /-- Reading the request or starting the thread raised. -/
  | raised : Reached P ex r es (.ok (.denied unavailable))
  | judged {wireText : PyStr} {metadata : Dict} {au : Authority}
      (hread : r.read = .ok (wireText, metadata)) (hmem : ⟨.authorize, .ok au⟩ ∈ es) :
      Reached P ex r es (.ok (r.judge P ex wireText metadata au))
  | cancelled (hmem : ⟨.authorize, .error .cancelled⟩ ∈ es) :
      Reached P ex r es (.error .cancelled)

theorem reached_of_runs {ex : Executor} {r : Incoming} {es : History}
    {verdict : Except Raised Verdict}
    (h : Program.Runs (r.authorization P ex) es (.done verdict)) : Reached P ex r es verdict := by
  unfold Incoming.authorization at h
  split at h
  · obtain ⟨_, hdone⟩ := Program.runs_done.mp h
    obtain rfl := Program.done.inj hdone
    exact .raised
  · rename_i wireText metadata hread
    rcases Program.runs_call.mp h with ⟨_, hstop⟩ | ⟨answer, rest, rfl, hrest⟩
    · cases hstop
    · have hmem : (⟨.authorize, answer⟩ : Program.Event Operation Operation.Answer) ∈
          ⟨.authorize, answer⟩ :: rest := List.mem_cons_self
      match answer with
      | .ok au =>
        obtain ⟨_, hdone⟩ := Program.runs_done.mp hrest
        obtain rfl := Program.done.inj hdone
        exact .judged hread hmem
      | .error (.exception _) =>
        obtain ⟨_, hdone⟩ := Program.runs_done.mp hrest
        obtain rfl := Program.done.inj hdone
        exact .raised
      | .error .cancelled =>
        obtain ⟨_, hdone⟩ := Program.runs_done.mp hrest
        obtain rfl := Program.done.inj hdone
        exact .cancelled hmem

theorem Reached.mono {ex : Executor} {r : Incoming} {es fs : History}
    {verdict : Except Raised Verdict} (h : Reached P ex r es verdict) (hsub : es ⊆ fs) :
    Reached P ex r fs verdict := by
  cases h with
  | raised => exact .raised
  | judged hread hmem => exact .judged hread (hsub hmem)
  | cancelled hmem => exact .cancelled (hsub hmem)

/-- Up to the verdict a run only reads. -/
theorem execute_runs {ex : Executor} {r : Incoming} {es : History}
    {q : Script (Except Raised Unit)} (h : Program.Runs (r.execute P ex) es q) :
    ((∃ op k, q = .call op k) ∧ ∀ event ∈ es, event.1.reads = true) ∨
      ∃ taskId contextId verdict first rest, es = first ++ rest ∧
        (∀ event ∈ first, event.1.reads = true) ∧ Reached P ex r first verdict ∧
        Program.Runs (r.settle P ex taskId contextId verdict) rest q := by
  have hreads : ∀ {α : Type} {p p' : Script α} {es : History}, Program.Runs p es p' →
      p.Calls (fun op => op.reads = true) → ∀ event ∈ es, event.1.reads = true :=
    fun hrun hcalls => hrun.calls hcalls
  unfold Incoming.execute at h
  rcases Program.runs_bind h with ⟨op, k, hfirst, rfl⟩ | ⟨taskId, first, rest, rfl, hfirst, h⟩
  · exact Or.inl ⟨⟨op, _, rfl⟩, hreads hfirst (calls_chooseTaskId r rfl)⟩
  have hread₁ := hreads hfirst (calls_chooseTaskId r rfl)
  rcases Program.runs_bind h with ⟨op, k, hsecond, rfl⟩ | ⟨contextId, second, rest, rfl, hsecond, h⟩
  · refine Or.inl ⟨⟨op, _, rfl⟩, ?_⟩
    exact List.forall_mem_append.mpr ⟨hread₁, hreads hsecond (calls_chooseContextId r rfl)⟩
  have hread₂ := hreads hsecond (calls_chooseContextId r rfl)
  rcases Program.runs_bind h with ⟨op, k, hthird, rfl⟩ | ⟨verdict, third, rest, rfl, hthird, h⟩
  · refine Or.inl ⟨⟨op, _, rfl⟩, ?_⟩
    have hread₃ := hreads hthird (calls_authorization (P := P) ex r rfl)
    exact List.forall_mem_append.mpr ⟨hread₁, List.forall_mem_append.mpr ⟨hread₂, hread₃⟩⟩
  have hread₃ := hreads hthird (calls_authorization (P := P) ex r rfl)
  refine Or.inr ⟨taskId, contextId, verdict, first ++ (second ++ third), rest, by simp, ?_, ?_, h⟩
  · exact List.forall_mem_append.mpr ⟨hread₁, List.forall_mem_append.mpr ⟨hread₂, hread₃⟩⟩
  · refine (reached_of_runs hthird).mono fun event hmem => ?_
    exact List.mem_append_right _ (List.mem_append_right _ hmem)

theorem mutations_of_reads {es : History} (h : ∀ event ∈ es, event.1.reads = true) :
    mutations es = [] := by
  apply List.filter_eq_nil_iff.mpr
  intro op hop
  obtain ⟨event, hmem, rfl⟩ := List.mem_map.mp hop
  simp [h event hmem]

theorem mutations_append (first rest : History) :
    mutations (first ++ rest) = mutations first ++ mutations rest := by
  simp [mutations]

/-! ## The gate -/

/-- The worker thread found the request authorized. -/
def Granted (P : Platform) (ex : Executor) (r : Incoming) (es : History) : Prop :=
  ∃ wireText metadata au owner md, r.read = .ok (wireText, metadata) ∧
    ⟨.authorize, .ok au⟩ ∈ es ∧ r.judge P ex wireText metadata au = .granted owner wireText md

/-- Texts of the request that may be worked on, by what the authorization found: a delegation
over exactly this text for this node and this message, or no delegation where none is required. -/
inductive Cleared (P : Platform) (ex : Executor) (r : Incoming) (es : History) : PyStr → Prop where
  | signed {wireText owner : PyStr} {metadata : Dict} {au : Authority} {peers : Peers}
      {revoked : List PyStr} {a : Admitted DelegationFields}
      (hread : r.read = .ok (wireText, metadata)) (hmem : ⟨.authorize, .ok au⟩ ∈ es)
      (hpeers : au.policy.peers = .ok peers) (hrevoked : au.policy.revocations = .ok revoked)
      (hchecked : DelegationChecked P (extractRavenMeta (r.requestContext owner wireText metadata))
        wireText peers revoked ⟨ex.address P, r.messageId, lit "task"⟩ au.now a)
      (hsender : r.userName = .ok a.sender) : Cleared P ex r es wireText
  | unsigned {wireText owner : PyStr} {metadata : Dict} {au : Authority}
      (hread : r.read = .ok (wireText, metadata)) (hmem : ⟨.authorize, .ok au⟩ ∈ es)
      (hrequired : ex.requireSigned = false)
      (hnone : extractRavenMeta (r.requestContext owner wireText metadata) = []) :
      Cleared P ex r es wireText

theorem judge_granted {ex : Executor} {r : Incoming} {wireText owner text : PyStr}
    {metadata md : Dict} {au : Authority}
    (h : r.judge P ex wireText metadata au = .granted owner text md) :
    r.userName = .ok owner ∧ text = wireText ∧
      ∃ reason, (Agent.authorize P ex au.policy (r.requestContext owner wireText metadata)
        au.faults au.now au.later au.ledger).1 = (true, reason) := by
  unfold Incoming.judge at h
  split at h
  · cases h
  · rename_i owner' howner
    simp only at h
    split at h
    · rename_i reason hverdict
      obtain ⟨rfl, rfl, _⟩ := Verdict.granted.inj h
      exact ⟨howner, rfl, reason, hverdict⟩
    · cases h

/-- Without metadata the request is authorized only where none is required. -/
theorem authorize_unsigned {ex : Executor} {policy : Policy} {ctx : RequestContext}
    {faults : Faults} {now later : Int} {db : Ledger} {reason : PyStr}
    (hnone : extractRavenMeta ctx = [])
    (h : (Agent.authorize P ex policy ctx faults now later db).1 = (true, reason)) :
    ex.requireSigned = false := by
  unfold Agent.authorize at h
  simp only [hnone, if_true, ne_eq, not_true_eq_false, if_false, verifyDelegation] at h
  split at h
  · simpa using congrArg Prod.fst h
  · simp at h

theorem Granted.cleared {ex : Executor} {r : Incoming} {es : History} {wireText owner : PyStr}
    {metadata md : Dict} {au : Authority} (hread : r.read = .ok (wireText, metadata))
    (hmem : ⟨.authorize, .ok au⟩ ∈ es)
    (h : r.judge P ex wireText metadata au = .granted owner wireText md) :
    Cleared P ex r es wireText := by
  obtain ⟨howner, _, reason, hverdict⟩ := judge_granted h
  by_cases hnone : extractRavenMeta (r.requestContext owner wireText metadata) = []
  · exact .unsigned hread hmem (authorize_unsigned hnone hverdict) hnone
  · obtain ⟨peers, revoked, a, hpeers, hrevoked, hchecks, hsender, _⟩ :=
      authorize_accepts hnone (Prod.ext hverdict rfl)
    obtain rfl : owner = a.sender := hsender
    exact .signed hread hmem hpeers hrevoked (checkDelegation_ok P hchecks) howner

theorem Cleared.mono {ex : Executor} {r : Incoming} {es fs : History} {text : PyStr}
    (h : Cleared P ex r es text) (hsub : es ⊆ fs) : Cleared P ex r fs text := by
  cases h with
  | signed hread hmem hpeers hrevoked hchecked hsender =>
    exact .signed hread (hsub hmem) hpeers hrevoked hchecked hsender
  | unsigned hread hmem hrequired hnone => exact .unsigned hread (hsub hmem) hrequired hnone

/-- A verdict that grants names the text that was read. -/
theorem Reached.granted {ex : Executor} {r : Incoming} {es : History} {owner text : PyStr}
    {md : Dict} (h : Reached P ex r es (.ok (.granted owner text md))) :
    Granted P ex r es ∧ Cleared P ex r es text := by
  generalize hverdict : Except.ok (Verdict.granted owner text md) = verdict at h
  cases h with
  | raised => cases hverdict
  | cancelled => cases hverdict
  | judged hread hmem =>
    have hjudge := (Except.ok.inj hverdict).symm
    obtain ⟨_, rfl, _⟩ := judge_granted hjudge
    exact ⟨⟨_, _, _, _, _, hread, hmem, hjudge⟩, Granted.cleared hread hmem hjudge⟩

/-- A refused request leads to one event. -/
theorem runs_refusal {event : TaskEvent} {es : History} {q : Script (Except Raised Unit)}
    (h : Program.Runs (enqueue event).run es q) :
    mutations es <+: [.enqueue event] ∧
      (∀ outcome, q = .done outcome → mutations es = [.enqueue event]) ∧
      ∀ op ∈ es.map Sigma.fst, op = .enqueue event := by
  rcases Program.runs_call.mp h with ⟨rfl, rfl⟩ | ⟨answer, rest, rfl, hrest⟩
  · exact ⟨List.nil_prefix, fun _ hq => (by cases hq), by simp⟩
  · obtain ⟨rfl, _⟩ := Program.runs_done.mp hrest
    exact ⟨List.prefix_rfl, fun _ _ => rfl, by simp⟩

/-- A request that is not authorized ends in one rejection and nothing else, and the brain only
works on cleared texts, wherever the run stops. -/
theorem execute_gated (P : Platform) (ex : Executor) (r : Incoming) (es : History)
    (q : Script (Except Raised Unit)) (h : Program.Runs (r.execute P ex) es q) :
    (¬ Granted P ex r es → ∃ taskId contextId reason,
      mutations es <+: [.enqueue (rejection taskId contextId reason)] ∧
      (∀ outcome, q = .done outcome → ⟨.authorize, .error .cancelled⟩ ∉ es →
        mutations es = [.enqueue (rejection taskId contextId reason)])) ∧
    ∀ event ∈ es, ∀ text, event.1 = .runBrain text →
      ∃ wireText, text = strip wireText ∧ Cleared P ex r es wireText := by
  rcases execute_runs h with ⟨⟨op, k, rfl⟩, hreads⟩ |
    ⟨taskId, contextId, verdict, first, rest, rfl, hreads, hreached, hsettle⟩
  · constructor
    · intro _
      refine ⟨[], [], [], ?_, fun _ hq => by cases hq⟩
      rw [mutations_of_reads hreads]
      exact List.nil_prefix
    · intro event hmem text htext
      have hread := hreads event hmem
      rw [htext] at hread
      cases hread
  have hfirst : mutations first = [] := mutations_of_reads hreads
  have hsub : first ⊆ first ++ rest := List.subset_append_left first rest
  have hquiet : ∀ event ∈ first, ∀ text, event.1 ≠ .runBrain text := by
    intro event hmem text htext
    have hread := hreads event hmem
    rw [htext] at hread
    cases hread
  rw [mutations_append, hfirst, List.nil_append]
  match verdict with
  | .error raised =>
    obtain ⟨rfl, _⟩ := Program.runs_done.mp hsettle
    constructor
    · intro _
      refine ⟨[], [], [], List.nil_prefix, fun _ _ hlive => ?_⟩
      cases hreached with
      | cancelled hmem => exact absurd (hsub hmem) hlive
    · intro event hmem text htext
      rw [List.append_nil] at hmem
      exact absurd htext (hquiet event hmem text)
  | .ok (.denied reason) =>
    obtain ⟨hstart, hdone, honly⟩ := runs_refusal hsettle
    refine ⟨fun _ => ⟨taskId, contextId, reason, hstart, fun o hq _ => hdone o hq⟩, ?_⟩
    intro event hmem text htext
    rcases List.mem_append.mp hmem with hmem | hmem
    · exact absurd htext (hquiet event hmem text)
    · have := honly _ (List.mem_map_of_mem hmem)
      rw [htext] at this
      cases this
  | .ok (.granted owner wireText md) =>
    obtain ⟨⟨w, m, au, o, d, hread, hmem, hjudge⟩, hcleared⟩ := hreached.granted
    constructor
    · intro hnot
      exact absurd ⟨w, m, au, o, d, hread, hsub hmem, hjudge⟩ hnot
    · intro event hevent text htext
      rcases List.mem_append.mp hevent with hevent | hevent
      · exact absurd htext (hquiet event hevent text)
      · have honly := hsettle.calls (calls_perform (P := P) ex r taskId contextId owner wireText md
          (Q := fun op => ∀ text, op = .runBrain text → text = strip wireText) fun _ h => h)
        exact ⟨wireText, honly event hevent text htext, hcleared.mono hsub⟩

namespace Sample
open Identity.Sample

/-- The sample delegation as a request with ids of its own. -/
def incoming : Incoming where
  taskId := lit "id"
  contextId := lit "context"
  currentTask := none
  messageId := lit "t1"
  userInput := .ok (.str delegation.text)
  metadata := .ok (request address).metadata
  userName := .ok address
  isAuthenticated := true

def authority : Authority := ⟨policy, noFaults, 1100, 1100, .empty⟩

/-- From the authorization to the brain. -/
def history : History :=
  [⟨.authorize, .ok authority⟩,
    ⟨.enqueue (.task (lit "id") (lit "context") .submitted none), .ok ()⟩,
    ⟨.register address (lit "id") (lit "t1"), ()⟩,
    ⟨.enqueue (.status .submitted none), .ok ()⟩,
    ⟨.enqueue (.status .working none), .ok ()⟩,
    ⟨.logEvent (lit "incoming task: " ++ lit "hello"), .ok ()⟩,
    ⟨.logEvent (lit "delegation verified: " ++ address), .ok ()⟩,
    ⟨.enqueue (.status .working (some (lit "delegation verified — running brain…"))), .ok ()⟩,
    ⟨.runBrain (lit "hello"), .error .cancelled⟩]

theorem incoming_granted :
    incoming.judge platform executor delegation.text (request address).metadata authority =
      .granted address delegation.text (extractRavenMeta (request address)) := by
  have hverdict : (Agent.authorize platform executor policy (request address) noFaults 1100 1100
      .empty).1 = (true, lit "verified " ++ address) := by decide +kernel
  have hcontext : incoming.requestContext address delegation.text (request address).metadata =
      request address := rfl
  unfold Incoming.judge
  rw [show incoming.userName = .ok address from rfl]
  simp only [hcontext]
  rw [show (Agent.authorize platform executor authority.policy (request address) authority.faults
    authority.now authority.later authority.ledger).1 = _ from hverdict]

theorem history_runs :
    ∃ q, Program.Runs (incoming.execute platform executor) history q := by
  have hauthorized : Program.Runs (incoming.authorization platform executor)
      [⟨.authorize, .ok authority⟩]
      (.done (.ok (.granted address delegation.text (extractRavenMeta (request address))))) := by
    rw [← incoming_granted]
    exact .step _ _ _ (.stop _)
  have hsettled : ∃ q, Program.Runs (incoming.settle platform executor (lit "id") (lit "context")
      (.ok (.granted address delegation.text (extractRavenMeta (request address)))))
      history.tail q :=
    ⟨_, .step _ _ _ (.step _ _ _ (.step _ _ _ (.step _ _ _ (.step _ _ _ (.step _ _ _
      (.step _ _ _ (.step _ _ _ (.stop _))))))))⟩
  obtain ⟨q, hsettled⟩ := hsettled
  exact ⟨q, hauthorized.bind hsettled⟩

end Sample

/-- The sample request up to the brain. -/
theorem execute_gated_sample : ∃ q,
    Program.Runs (Sample.incoming.execute Identity.Sample.platform Sample.executor) Sample.history q ∧
    ∃ wireText, lit "hello" = strip wireText ∧
      Cleared Identity.Sample.platform Sample.executor Sample.incoming Sample.history wireText := by
  obtain ⟨q, hruns⟩ := Sample.history_runs
  refine ⟨q, hruns, ?_⟩
  exact (execute_gated _ _ _ _ _ hruns).2 ⟨.runBrain (lit "hello"), .error .cancelled⟩
    (by simp [Sample.history]) _ rfl

end Rdap.Agent
