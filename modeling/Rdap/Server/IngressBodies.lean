import Rdap.Server.IngressRuns

/-!
# What gets through the ingress

The history of a call decides whether the application was called, with which body, and whether the
request was refused for its size.
-/

set_option autoImplicit false

namespace Rdap.Server
open Python Protocol Lib Identity Agent

/-! ## Histories -/

def receivedIn (wakes : List Wake) : List ReceiveEvent :=
  wakes.filterMap fun wake =>
    match wake with
    | .received event => some event
    | _ => none

theorem receivedIn_append (wakes more : List Wake) :
    receivedIn (wakes ++ more) = receivedIn wakes ++ receivedIn more := List.filterMap_append

theorem receivedIn_map (events : List ReceiveEvent) : receivedIn (events.map .received) = events := by
  induction events with
  | nil => rfl
  | cons event events ih => exact congrArg (event :: ·) ih

section
variable (P : Platform) (m : RpcIngressLimitMiddleware) (scope : Scope)

/-- The length check. -/
def DeclaredFits : Prop :=
  ∃ declared, declaredLength P scope = .ok declared ∧ declared.any (fun n => (m.maxBodyBytes : Int) < n) = false

/-- The call got a slot, then these events, and then the rest. -/
def Heard (wakes : List Wake) (events : List ReceiveEvent) (rest : List Wake) : Prop :=
  wakes = .acquired :: (events.map .received ++ rest)

/-- The authentication check, on what comes after the body, and the scope the application sees. -/
def AuthPasses (body : Bytes) (rest : List Wake) (seen : Scope) : Prop :=
  match m.ravenAuthenticator with
  | none => seen = scope
  | some auth => ∃ arrival db tail owner, rest = .authenticated arrival db :: tail ∧
      (identify P m auth scope body arrival db).1 = .ok owner ∧ seen = { scope with ravenOwner := some owner }

/-- The request passes the length, size and authentication checks. -/
def Passes (wakes : List Wake) (body : Bytes) (later : List ReceiveEvent) (seen : Scope) : Prop :=
  DeclaredFits P m scope ∧ ∃ events rest, Heard wakes events rest ∧ later = receivedIn rest ∧
    Carries events body [] ∧ body.length ≤ m.maxBodyBytes ∧ AuthPasses P m scope body rest seen

def RpcCall.Fresh (c : RpcCall) : Prop := c.entered = [] ∧ c.handed = [] ∧ c.refusals = []

/-- The application got the body once, and after it what the client sent later. -/
def RpcCall.Handed (c : RpcCall) (body : Bytes) (later : List ReceiveEvent) : Prop :=
  (c.handed = [] ∧ later = []) ∨ c.handed = .request body false :: later

/-- Why the application was not called: the size, or something else. -/
def StopReason (wakes : List Wake) (refusals : List Refusal) : Prop :=
  (tooLarge ∈ refusals ∧ ((∃ declared, declaredLength P scope = .ok declared ∧
      declared.any (fun n => (m.maxBodyBytes : Int) < n) = true) ∨
    ∃ events rest, Heard wakes events rest ∧ collect m.maxBodyBytes [] events = .tooLarge)) ∨
  (tooLarge ∉ refusals ∧ ((∃ e, declaredLength P scope = .error e) ∨ (∃ wake ∈ wakes, wake.Failure) ∨
    ∃ events rest, Heard wakes events rest ∧ collect m.maxBodyBytes [] events ≠ .timeout ∧
      collect m.maxBodyBytes [] events ≠ .tooLarge))

/-- The states of a call for the RPC route, with the histories that lead there. -/
inductive RpcTrace : List Wake → RpcCall → Prop where
  | queued {c : RpcCall} (hphase : c.phase = .queued) (hfresh : c.Fresh) (hfits : DeclaredFits P m scope) :
    RpcTrace [] c
  | reading {c : RpcCall} (chunks : List Bytes) (hphase : c.phase = .holding (.reading chunks.flatten))
    (hfresh : c.Fresh) (hfits : DeclaredFits P m scope) (hsize : chunks.flatten.length ≤ m.maxBodyBytes)
    {wakes : List Wake} (hheard : Heard wakes (chunks.map (.request · true)) []) : RpcTrace wakes c
  | judging {c : RpcCall} {body : Bytes} {target : PyStr} {auth : RavenRequestAuthenticator}
    {events : List ReceiveEvent} {wakes : List Wake} (hphase : c.phase = .holding (.authenticating body target))
    (hfresh : c.Fresh) (hfits : DeclaredFits P m scope) (hauth : m.ravenAuthenticator = some auth)
    (honce : (rawHeaders .empty false scope.headers).2 = false) (htarget : requestTarget scope = .ok target)
    (hcarries : Carries events body []) (hsize : body.length ≤ m.maxBodyBytes) (hheard : Heard wakes events []) :
    RpcTrace wakes c
  | entered {c : RpcCall} {body : Bytes} {later : List ReceiveEvent} {seen : Scope} {wakes : List Wake}
    (hphase : (c.phase = .holding (.running body false) ∧ c.handed = [] ∧ later = []) ∨
      (c.phase = .holding (.running body true) ∧ c.handed = .request body false :: later) ∨
      ((∃ ending, c.phase = .finished ending) ∧ c.Handed body later))
    (hentered : c.entered = [seen]) (hrefusals : c.refusals = [])
    (hpasses : Passes P m scope wakes body later seen) :
    RpcTrace wakes c
  | stopped {c : RpcCall} {wakes : List Wake}
    (hphase : (∃ r, c.phase = .refusing r) ∨ (∃ r, c.phase = .holding (.refusing r)) ∨
      ∃ ending, c.phase = .finished ending)
    (hentered : c.entered = []) (hhanded : c.handed = []) (hreason : StopReason P m scope wakes c.refusals) :
    RpcTrace wakes c

end

section
variable {P : Platform} {m : RpcIngressLimitMiddleware} {scope : Scope}

theorem Heard.append {wakes rest : List Wake} {events : List ReceiveEvent} (h : Heard wakes events rest)
    (wake : Wake) : Heard (wakes ++ [wake]) events (rest ++ [wake]) := by
  unfold Heard at h ⊢
  rw [h, List.cons_append, List.append_assoc]

theorem Heard.event {wakes : List Wake} {events : List ReceiveEvent} (h : Heard wakes events [])
    (event : ReceiveEvent) : Heard (wakes ++ [.received event]) (events ++ [event]) [] := by
  unfold Heard at h ⊢
  rw [h, List.append_nil, List.append_nil, List.map_append, List.cons_append]
  rfl

theorem Heard.received {wakes rest : List Wake} {events : List ReceiveEvent} (h : Heard wakes events rest) :
    receivedIn wakes = events ++ receivedIn rest := by
  rw [h]
  exact (receivedIn_append _ _).trans (congrArg (· ++ receivedIn rest) (receivedIn_map events))

theorem AuthPasses.append {body : Bytes} {rest : List Wake} {seen : Scope}
    (h : AuthPasses P m scope body rest seen)
    (wake : Wake) : AuthPasses P m scope body (rest ++ [wake]) seen := by
  unfold AuthPasses at h ⊢
  split at h
  · exact h
  · obtain ⟨arrival, db, tail, owner, rfl, hidentify, hseen⟩ := h
    exact ⟨arrival, db, tail ++ [wake], owner, rfl, hidentify, hseen⟩

theorem Passes.append {wakes : List Wake} {body : Bytes} {later : List ReceiveEvent} {seen : Scope}
    (h : Passes P m scope wakes body later seen) (wake : Wake) :
    Passes P m scope (wakes ++ [wake]) body (later ++ receivedIn [wake]) seen := by
  obtain ⟨hfits, events, rest, hheard, rfl, hcarries, hsize, hadmitted⟩ := h
  exact ⟨hfits, events, rest ++ [wake], hheard.append wake, (receivedIn_append _ _).symm, hcarries, hsize,
    hadmitted.append wake⟩

theorem StopReason.append {wakes : List Wake} {refusals : List Refusal} (h : StopReason P m scope wakes refusals)
    (wake : Wake) : StopReason P m scope (wakes ++ [wake]) refusals := by
  rcases h with ⟨hlarge, hdeclared | ⟨events, rest, hheard, hcollect⟩⟩ |
    ⟨hsmall, herror | ⟨failed, hmem, hfailed⟩ | ⟨events, rest, hheard, hcollect⟩⟩
  · exact Or.inl ⟨hlarge, Or.inl hdeclared⟩
  · exact Or.inl ⟨hlarge, Or.inr ⟨events, _, hheard.append wake, hcollect⟩⟩
  · exact Or.inr ⟨hsmall, Or.inl herror⟩
  · exact Or.inr ⟨hsmall, Or.inr (Or.inl ⟨failed, List.mem_append_left _ hmem, hfailed⟩)⟩
  · exact Or.inr ⟨hsmall, Or.inr (Or.inr ⟨events, _, hheard.append wake, hcollect⟩)⟩

theorem StopReason.failure {wakes : List Wake} {wake : Wake} {refusals : List Refusal}
    (hsmall : tooLarge ∉ refusals)
    (h : wake.Failure) : StopReason P m scope (wakes ++ [wake]) refusals :=
  Or.inr ⟨hsmall, Or.inr (Or.inl ⟨wake, List.mem_append_right _ List.mem_cons_self, h⟩)⟩

/-! ## Awaits inside the block -/

theorem inside_reading {c : RpcCall} {body : Bytes} {wake : Wake} {b : BlockStep}
    (h : c.inside P m scope (.reading body) wake = some b) :
    (∃ event, wake = .received event ∧ b = c.chunk m scope body event) ∨
    (wake.Failure ∧ ((∃ ending, b = (c, .inr ending)) ∨ ∃ r, r ≠ tooLarge ∧ b = c.refuse r)) := by
  cases wake with
  | received event => exact Or.inl ⟨event, rfl, (Option.some.inj h).symm⟩
  | bodyTimeout => exact Or.inr ⟨trivial, Or.inr ⟨_, by simp [tooLarge], (Option.some.inj h).symm⟩⟩
  | cancelled => exact Or.inr ⟨trivial, Or.inl ⟨_, (Option.some.inj h).symm⟩⟩
  | raised e =>
    refine Or.inr ⟨trivial, ?_⟩
    obtain rfl := Option.some.inj h
    split
    · exact Or.inr ⟨_, by simp [tooLarge], rfl⟩
    · exact Or.inl ⟨_, rfl⟩
  | _ => cases h

theorem inside_authenticating {c : RpcCall} {body : Bytes} {target : PyStr} {wake : Wake} {b : BlockStep}
    (h : c.inside P m scope (.authenticating body target) wake = some b) :
    (∃ arrival db auth, wake = .authenticated arrival db ∧ m.ravenAuthenticator = some auth ∧
      b = c.judged m scope body (auth.authenticate P (rawHeaders .empty false scope.headers).1 scope.method target
        body arrival.policy arrival.faults arrival.now arrival.later db).1) ∨
    (wake.Failure ∧ ∃ ending, b = (c, .inr ending)) := by
  cases wake with
  | authenticated arrival db =>
    obtain ⟨auth, hauth, rfl⟩ := Option.map_eq_some_iff.mp h
    exact Or.inl ⟨arrival, db, auth, rfl, hauth, rfl⟩
  | cancelled => exact Or.inr ⟨trivial, _, (Option.some.inj h).symm⟩
  | raised e => exact Or.inr ⟨trivial, _, (Option.some.inj h).symm⟩
  | _ => cases h

theorem inside_refusing {c : RpcCall} {r : Refusal} {wake : Wake} {b : BlockStep}
    (h : c.inside P m scope (.refusing r) wake = some b) : ∃ ending, b = (c, .inr ending) := by
  cases wake with
  | sent => exact ⟨_, (Option.some.inj h).symm⟩
  | cancelled => exact ⟨_, (Option.some.inj h).symm⟩
  | raised e => exact ⟨_, (Option.some.inj h).symm⟩
  | _ => cases h

theorem inside_running {c : RpcCall} {body : Bytes} {delivered : Bool} {wake : Wake} {b : BlockStep}
    (h : c.inside P m scope (.running body delivered) wake = some b) :
    (receivedIn [wake] = [] ∧ ∃ ending, b = (c, .inr ending)) ∨
    (delivered = false ∧ receivedIn [wake] = [] ∧
      b = ({ c with handed := c.handed ++ [.request body false] }, .inl (.running body true))) ∨
    (delivered = true ∧ ∃ event, wake = .received event ∧
      b = ({ c with handed := c.handed ++ [event] }, .inl (.running body true))) := by
  cases wake with
  | returned => cases delivered <;> exact Or.inl ⟨rfl, _, (Option.some.inj h).symm⟩
  | cancelled => exact Or.inl ⟨rfl, _, (Option.some.inj h).symm⟩
  | raised e => cases delivered <;> exact Or.inl ⟨rfl, _, (Option.some.inj h).symm⟩
  | replayed =>
    cases delivered with
    | false => exact Or.inr (Or.inl ⟨rfl, rfl, (Option.some.inj h).symm⟩)
    | true => cases h
  | received event =>
    cases delivered with
    | false => cases h
    | true => exact Or.inr (Or.inr ⟨rfl, event, rfl, (Option.some.inj h).symm⟩)
  | _ => cases delivered <;> cases h

/-! ## Steps -/

theorem leave_ending {c d : RpcCall} {ending : Ending} {use : SlotUse} (h : leave (c, .inr ending) = (d, use)) :
    d.phase = .finished ending ∧ d.entered = c.entered ∧ d.handed = c.handed ∧ d.refusals = c.refusals := by
  obtain ⟨rfl, -⟩ := Prod.mk.inj h
  exact ⟨rfl, rfl, rfl, rfl⟩

theorem leave_refuse {c d : RpcCall} {r : Refusal} {use : SlotUse} (h : leave (c.refuse r) = (d, use)) :
    d.phase = .holding (.refusing r) ∧ d.entered = c.entered ∧ d.handed = c.handed ∧
      d.refusals = c.refusals ++ [r] := by
  obtain ⟨rfl, -⟩ := Prod.mk.inj h
  exact ⟨rfl, rfl, rfl, rfl⟩

/-- The block ends, or an error is sent, before the application was called. -/
theorem trace_stopped {wakes : List Wake} {c d : RpcCall} {b : BlockStep} {use : SlotUse} (hfresh : c.Fresh)
    (hleave : leave b = (d, use)) (hb : (∃ ending, b = (c, .inr ending)) ∨ ∃ r, r ≠ tooLarge ∧ b = c.refuse r)
    (hreason : ∀ refusals, tooLarge ∉ refusals → StopReason P m scope wakes refusals) :
    RpcTrace P m scope wakes d := by
  obtain ⟨hentered, hhanded, hrefusals⟩ := hfresh
  rcases hb with ⟨ending, rfl⟩ | ⟨r, hr, rfl⟩
  · obtain ⟨hphase, he, hh, hr⟩ := leave_ending hleave
    refine .stopped (Or.inr (Or.inr ⟨ending, hphase⟩)) (he.trans hentered) (hh.trans hhanded) (hreason _ ?_)
    rw [hr, hrefusals]
    exact List.not_mem_nil
  · obtain ⟨hphase, he, hh, hr'⟩ := leave_refuse hleave
    refine .stopped (Or.inr (Or.inl ⟨r, hphase⟩)) (he.trans hentered) (hh.trans hhanded) (hreason _ ?_)
    rw [hr', hrefusals, List.nil_append, List.mem_singleton]
    exact Ne.symm hr

/-- The application is called. -/
theorem trace_enter {wakes rest : List Wake} {events : List ReceiveEvent} {c d : RpcCall} {body : Bytes}
    {seen : Scope} {use : SlotUse} (hfresh : c.Fresh) (hleave : leave (c.enter seen body) = (d, use))
    (hfits : DeclaredFits P m scope) (hheard : Heard wakes events rest) (hnone : receivedIn rest = [])
    (hcarries : Carries events body []) (hsize : body.length ≤ m.maxBodyBytes)
    (hadmitted : AuthPasses P m scope body rest seen) : RpcTrace P m scope wakes d := by
  obtain ⟨hentered, hhanded, hrefusals⟩ := hfresh
  obtain ⟨rfl, -⟩ := Prod.mk.inj hleave
  have hpasses : Passes P m scope wakes body [] seen :=
    ⟨hfits, events, rest, hheard, hnone.symm, hcarries, hsize, hadmitted⟩
  refine .entered (Or.inl ⟨rfl, hhanded, rfl⟩) ?_ hrefusals hpasses
  dsimp only
  rw [hentered]
  rfl

theorem collect_complete_of_carries {events : List ReceiveEvent} {body : Bytes} (h : Carries events body [])
    (hsize : body.length ≤ m.maxBodyBytes) : collect m.maxBodyBytes [] events = .complete body [] := by
  rw [collect_carries h, if_neg (by simpa using hsize)]
  rfl

/-- The reason is that something other than the length was wrong. -/
theorem reason_complete {wakes rest : List Wake} {events : List ReceiveEvent} {body : Bytes}
    (hheard : Heard wakes events rest) (h : Carries events body []) (hsize : body.length ≤ m.maxBodyBytes)
    (refusals : List Refusal) (hsmall : tooLarge ∉ refusals) : StopReason P m scope wakes refusals := by
  have hcollect := collect_complete_of_carries h hsize
  refine Or.inr ⟨hsmall, Or.inr (Or.inr ⟨events, rest, hheard, ?_, ?_⟩)⟩ <;> rw [hcollect] <;> simp

theorem authorizationFailed_ne : authorizationFailed ≠ tooLarge := by simp [authorizationFailed, tooLarge]

theorem trace_collected {wakes : List Wake} {events : List ReceiveEvent} {c d : RpcCall} {body : Bytes}
    {use : SlotUse} (hfresh : c.Fresh) (hleave : leave (c.collected m scope body) = (d, use)) (hfits : DeclaredFits P m scope)
    (hheard : Heard wakes events []) (hcarries : Carries events body []) (hsize : body.length ≤ m.maxBodyBytes) :
    RpcTrace P m scope wakes d := by
  unfold RpcCall.collected at hleave
  split at hleave
  · rename_i hauth
    refine trace_enter hfresh hleave hfits hheard rfl hcarries hsize ?_
    unfold AuthPasses
    rw [hauth]
  · rename_i auth hauth
    split at hleave
    · exact trace_stopped hfresh hleave (Or.inr ⟨_, authorizationFailed_ne, rfl⟩)
        (reason_complete hheard hcarries hsize)
    · rename_i honce
      split at hleave
      · exact trace_stopped hfresh hleave (Or.inr ⟨_, by simp [tooLarge], rfl⟩)
          (reason_complete hheard hcarries hsize)
      · rename_i target htarget
        obtain ⟨rfl, -⟩ := Prod.mk.inj hleave
        exact .judging rfl hfresh hfits hauth (Bool.eq_false_of_not_eq_true honce) htarget hcarries hsize hheard

/-- An event while the body is read. -/
theorem trace_chunk {wakes : List Wake} {chunks : List Bytes} {c d : RpcCall} {event : ReceiveEvent}
    {use : SlotUse}
    (hfresh : c.Fresh) (hleave : leave (c.chunk m scope chunks.flatten event) = (d, use))
    (hfits : DeclaredFits P m scope) (hheard : Heard wakes (chunks.map (.request · true)) [])
    (hsize : chunks.flatten.length ≤ m.maxBodyBytes) : RpcTrace P m scope (wakes ++ [.received event]) d := by
  have hcollect : collect m.maxBodyBytes [] (chunks.map (.request · true) ++ [event]) =
      collect m.maxBodyBytes chunks.flatten [event] := by
    rw [collect_chunks chunks [event] [] (by simpa using hsize)]
    rfl
  have hnext := hheard.event event
  cases event with
  | disconnect =>
    refine trace_stopped hfresh hleave (Or.inl ⟨_, rfl⟩) fun refusals hsmall => ?_
    refine Or.inr ⟨hsmall, Or.inr (Or.inr ⟨_, [], hnext, ?_, ?_⟩)⟩ <;> rw [hcollect] <;> simp [collect]
  | other =>
    refine trace_stopped hfresh hleave (Or.inr ⟨_, by simp [tooLarge], rfl⟩) fun refusals hsmall => ?_
    refine Or.inr ⟨hsmall, Or.inr (Or.inr ⟨_, [], hnext, ?_, ?_⟩)⟩ <;> rw [hcollect] <;> simp [collect]
  | request chunk moreBody =>
    unfold RpcCall.chunk at hleave
    dsimp only at hleave
    by_cases hroom : m.maxBodyBytes < chunks.flatten.length + chunk.length
    · rw [if_pos hroom] at hleave
      obtain ⟨hentered, hhanded, hrefusals⟩ := hfresh
      obtain ⟨hphase, he, hh, hr⟩ := leave_refuse hleave
      refine .stopped (Or.inr (Or.inl ⟨_, hphase⟩)) (he.trans hentered) (hh.trans hhanded) ?_
      refine Or.inl ⟨?_, Or.inr ⟨_, [], hnext, ?_⟩⟩
      · rw [hr]
        exact List.mem_append_right _ List.mem_cons_self
      · rw [hcollect, collect, if_pos hroom]
    · rw [if_neg hroom] at hleave
      have hfit : (chunks.flatten ++ chunk).length ≤ m.maxBodyBytes := by
        rw [List.length_append]
        omega
      cases moreBody with
      | true =>
        obtain ⟨rfl, -⟩ := Prod.mk.inj hleave
        have hflatten : (chunks ++ [chunk]).flatten = chunks.flatten ++ chunk := by simp
        rw [← hflatten] at hfit ⊢
        refine .reading (c := { c with phase := .holding (.reading (chunks ++ [chunk]).flatten) })
          (chunks ++ [chunk]) rfl hfresh hfits hfit ?_
        rw [List.map_append]
        exact hnext
      | false =>
        have hcarries : Carries (chunks.map (.request · true) ++ [.request chunk false])
            (chunks.flatten ++ chunk) [] := ⟨chunks, chunk, rfl, rfl⟩
        exact trace_collected hfresh hleave hfits hnext hcarries hfit

/-- What the block answers after the authenticator is what `identify` answers. -/
theorem trace_judged {wakes : List Wake} {events : List ReceiveEvent} {c d : RpcCall} {body : Bytes}
    {target : PyStr} {auth : RavenRequestAuthenticator} {arrival : Arrival} {db : Ledger} {use : SlotUse}
    (hfresh : c.Fresh)
    (hleave : leave (c.judged m scope body (auth.authenticate P (rawHeaders .empty false scope.headers).1
      scope.method target body arrival.policy arrival.faults arrival.now arrival.later db).1) = (d, use))
    (hfits : DeclaredFits P m scope) (hauth : m.ravenAuthenticator = some auth)
    (honce : (rawHeaders .empty false scope.headers).2 = false) (htarget : requestTarget scope = .ok target)
    (hcarries : Carries events body []) (hsize : body.length ≤ m.maxBodyBytes) (hheard : Heard wakes events []) :
    RpcTrace P m scope (wakes ++ [.authenticated arrival db]) d := by
  have hnext := hheard.append (.authenticated arrival db)
  have hidentify : (identify P m auth scope body arrival db).1 =
      match (auth.authenticate P (rawHeaders .empty false scope.headers).1 scope.method target body arrival.policy
        arrival.faults arrival.now arrival.later db).1 with
      | .error e => .error (.raised e)
      | .ok answer =>
        if answer.2.2 = [] ∧ (m.requireRavenAuth ∨ answer.1) then .error authorizationFailed
        else .ok (if answer.2.2 = [] then openOwner scope else answer.2.2) := by
    unfold identify
    simp only [honce, htarget, Bool.false_eq_true, if_false]
    generalize auth.authenticate P (rawHeaders .empty false scope.headers).1 scope.method target body
      arrival.policy arrival.faults arrival.now arrival.later db = x
    obtain ⟨answer, db'⟩ := x
    cases answer with
    | error e => rfl
    | ok answer =>
      obtain ⟨present, why, owner⟩ := answer
      dsimp only
      split <;> rfl
  generalize (auth.authenticate P (rawHeaders .empty false scope.headers).1 scope.method target body arrival.policy
    arrival.faults arrival.now arrival.later db).1 = answer at hleave hidentify
  unfold RpcCall.judged at hleave
  split at hleave
  · exact trace_stopped hfresh hleave (Or.inl ⟨_, rfl⟩) (reason_complete hnext hcarries hsize)
  · rename_i present why owner
    dsimp only at hidentify
    split at hleave
    · exact trace_stopped hfresh hleave (Or.inr ⟨_, authorizationFailed_ne, rfl⟩)
        (reason_complete hnext hcarries hsize)
    · rename_i hallowed
      rw [if_neg hallowed] at hidentify
      refine trace_enter hfresh hleave hfits hnext rfl hcarries hsize ?_
      unfold AuthPasses
      rw [hauth]
      exact ⟨arrival, db, [], _, rfl, hidentify, rfl⟩

theorem trace_queued {c d : RpcCall} {wake : Wake} {use : SlotUse} (hphase : c.phase = .queued)
    (hfresh : c.Fresh) (hfits : DeclaredFits P m scope) (hstep : c.step P m scope wake = some (d, use)) :
    RpcTrace P m scope [wake] d := by
  obtain ⟨hentered, hhanded, hrefusals⟩ := hfresh
  rcases step_cases hstep with ⟨inside, b, hphase', -⟩ | ⟨-, rfl, -, rfl⟩ | ⟨-, hfailure, -, hd⟩ |
    ⟨refusal, ending, hphase', -⟩ | ⟨phase, handed, hphase', -⟩
  · rw [hphase] at hphase'
    cases hphase'
  · exact .reading (c := { c with phase := .holding (.reading []), acquired := c.acquired + 1 }) [] rfl
      ⟨hentered, hhanded, hrefusals⟩ hfits (Nat.zero_le _) rfl
  · have hreason : ∀ refusals, tooLarge ∉ refusals → StopReason P m scope ([] ++ [wake]) refusals :=
      fun refusals hsmall => StopReason.failure hsmall hfailure
    rcases hd with rfl | ⟨ending, rfl⟩
    · refine .stopped (Or.inl ⟨_, rfl⟩) hentered hhanded (hreason _ ?_)
      rw [hrefusals]
      simp [tooLarge]
    · refine .stopped (Or.inr (Or.inr ⟨ending, rfl⟩)) hentered hhanded (hreason _ ?_)
      rw [hrefusals]
      exact List.not_mem_nil
  · rw [hphase] at hphase'
    cases hphase'
  · rw [hphase] at hphase'
    cases hphase'

/-- A call that holds a slot steps inside the block. -/
theorem step_holding {c d : RpcCall} {inside : Inside} {wake : Wake} {use : SlotUse}
    (hphase : c.phase = .holding inside) (h : c.step P m scope wake = some (d, use)) :
    ∃ b, c.inside P m scope inside wake = some b ∧ leave b = (d, use) := by
  unfold RpcCall.step at h
  rw [hphase] at h
  exact Option.map_eq_some_iff.mp h

theorem step_finished {c : RpcCall} {ending : Ending} {wake : Wake} (hphase : c.phase = .finished ending) :
    c.step P m scope wake = none := by
  unfold RpcCall.step
  rw [hphase]

theorem step_refusing {c d : RpcCall} {r : Refusal} {wake : Wake} {use : SlotUse}
    (hphase : c.phase = .refusing r) (h : c.step P m scope wake = some (d, use)) :
    ∃ ending, d = { c with phase := .finished ending } := by
  rcases step_cases h with ⟨inside, b, hphase', -⟩ | ⟨hphase', -⟩ | ⟨hphase', -⟩ | ⟨-, ending, -, -, rfl⟩ |
    ⟨phase, handed, hphase', -⟩
  · rw [hphase] at hphase'
    cases hphase'
  · rw [hphase] at hphase'
    cases hphase'
  · rw [hphase] at hphase'
    cases hphase'
  · exact ⟨ending, rfl⟩
  · rw [hphase] at hphase'
    cases hphase'

theorem trace_running {wakes : List Wake} {c d : RpcCall} {body : Bytes} {later : List ReceiveEvent} {seen : Scope}
    {delivered : Bool} {wake : Wake} {use : SlotUse} (hphase : c.phase = .holding (.running body delivered))
    (hhanded : if delivered then c.handed = .request body false :: later else c.handed = [] ∧ later = [])
    (hentered : c.entered = [seen]) (hrefusals : c.refusals = [])
    (hpasses : Passes P m scope wakes body later seen)
    (hstep : c.step P m scope wake = some (d, use)) : RpcTrace P m scope (wakes ++ [wake]) d := by
  obtain ⟨b, hb, hleave⟩ := step_holding hphase hstep
  have hnext := hpasses.append wake
  rcases inside_running hb with ⟨hnone, ending, rfl⟩ | ⟨rfl, hnone, rfl⟩ | ⟨rfl, event, rfl, rfl⟩
  · obtain ⟨hphase', he, hh, hr⟩ := leave_ending hleave
    rw [hnone, List.append_nil] at hnext
    refine .entered (Or.inr (Or.inr ⟨⟨ending, hphase'⟩, ?_⟩)) (he.trans hentered) (hr.trans hrefusals) hnext
    unfold RpcCall.Handed
    rw [hh]
    cases delivered with
    | false => exact Or.inl hhanded
    | true => exact Or.inr hhanded
  · obtain ⟨hempty, rfl⟩ := hhanded
    rw [hnone, List.append_nil] at hnext
    obtain ⟨rfl, -⟩ := Prod.mk.inj hleave
    refine .entered (Or.inr (Or.inl ⟨rfl, ?_⟩)) hentered hrefusals hnext
    dsimp only
    rw [hempty]
    rfl
  · obtain ⟨rfl, -⟩ := Prod.mk.inj hleave
    refine .entered (Or.inr (Or.inl ⟨rfl, ?_⟩)) hentered hrefusals hnext
    have hlater : c.handed = .request body false :: later := hhanded
    dsimp only
    rw [hlater]
    rfl

theorem trace_step {wakes : List Wake} {c d : RpcCall} {wake : Wake} {use : SlotUse}
    (h : RpcTrace P m scope wakes c) (hstep : c.step P m scope wake = some (d, use)) :
    RpcTrace P m scope (wakes ++ [wake]) d := by
  cases h with
  | queued hphase hfresh hfits => exact trace_queued hphase hfresh hfits hstep
  | reading chunks hphase hfresh hfits hsize hheard =>
    obtain ⟨b, hb, hleave⟩ := step_holding hphase hstep
    rcases inside_reading hb with ⟨event, rfl, rfl⟩ | ⟨hfailure, hb'⟩
    · exact trace_chunk hfresh hleave hfits hheard hsize
    · exact trace_stopped hfresh hleave hb' fun refusals hsmall => .failure hsmall hfailure
  | judging hphase hfresh hfits hauth honce htarget hcarries hsize hheard =>
    obtain ⟨b, hb, hleave⟩ := step_holding hphase hstep
    rcases inside_authenticating hb with ⟨arrival, db, auth', rfl, hauth', rfl⟩ | ⟨hfailure, hb'⟩
    · exact trace_judged hfresh hleave hfits hauth' honce htarget hcarries hsize hheard
    · exact trace_stopped hfresh hleave (Or.inl hb') fun refusals hsmall => .failure hsmall hfailure
  | entered hphase hentered hrefusals hpasses =>
    rcases hphase with ⟨hphase, hhanded⟩ | ⟨hphase, hhanded⟩ | ⟨⟨ending, hphase⟩, -⟩
    · exact trace_running hphase hhanded hentered hrefusals hpasses hstep
    · exact trace_running hphase hhanded hentered hrefusals hpasses hstep
    · rw [step_finished hphase] at hstep
      cases hstep
  | stopped hphase hentered hhanded hreason =>
    have hnext := hreason.append wake
    rcases hphase with ⟨r, hphase⟩ | ⟨r, hphase⟩ | ⟨ending, hphase⟩
    · obtain ⟨ending, rfl⟩ := step_refusing hphase hstep
      exact .stopped (Or.inr (Or.inr ⟨ending, rfl⟩)) hentered hhanded hnext
    · obtain ⟨b, hb, hleave⟩ := step_holding hphase hstep
      obtain ⟨ending, rfl⟩ := inside_refusing hb
      obtain ⟨hphase', he, hh, hr⟩ := leave_ending hleave
      refine .stopped (Or.inr (Or.inr ⟨ending, hphase'⟩)) (he.trans hentered) (hh.trans hhanded) ?_
      rw [hr]
      exact hnext
    · rw [step_finished hphase] at hstep
      cases hstep

theorem trace_start (hrpc : scope.isRpc P) : RpcTrace P m scope [] (.start P m scope) := by
  unfold RpcCall.start
  rw [if_neg (not_not_intro hrpc)]
  split
  · rename_i e herror
    refine .stopped (Or.inl ⟨_, rfl⟩) rfl rfl (Or.inr ⟨?_, Or.inl ⟨e, herror⟩⟩)
    simp [tooLarge]
  · rename_i declared hdeclared
    dsimp only
    split
    · rename_i hlarge
      exact .stopped (Or.inl ⟨_, rfl⟩) rfl rfl
        (Or.inl ⟨List.mem_cons_self, Or.inl ⟨declared, hdeclared, hlarge⟩⟩)
    · rename_i hfits
      exact .queued rfl ⟨rfl, rfl, rfl⟩ ⟨declared, hdeclared, Bool.eq_false_of_not_eq_true hfits⟩

theorem run_trace (hrpc : scope.isRpc P) {wakes : List Wake} {c : RpcCall}
    (hrun : (callMachine P m scope).run (.start P m scope) wakes = some c) : RpcTrace P m scope wakes c := by
  refine Machine.invariant_history (trace_start hrpc) ?_ hrun
  intro es a wake b ha hstep
  obtain ⟨⟨d, use⟩, hd, rfl⟩ := Option.map_eq_some_iff.mp hstep
  exact trace_step ha hd

/-! ## Who passes is let in -/

theorem run_reading (chunks : List Bytes) (last acc : Bytes) {c : RpcCall}
    (hphase : c.phase = .holding (.reading acc)) (hfresh : c.Fresh)
    (hsize : acc.length + (chunks.flatten ++ last).length ≤ m.maxBodyBytes) :
    ∃ a : RpcCall, a.Fresh ∧ (callMachine P m scope).run c
      ((chunks.map (ReceiveEvent.request · true) ++ [ReceiveEvent.request last false]).map Wake.received) =
        some (leave (a.collected m scope (acc ++ (chunks.flatten ++ last)))).1 := by
  induction chunks generalizing acc c with
  | nil =>
    refine ⟨c, hfresh, ?_⟩
    have hroom : ¬m.maxBodyBytes < acc.length + last.length := by
      simp only [List.flatten_nil, List.nil_append] at hsize
      omega
    refine (Machine.run_cons _).mpr ⟨_, ?_, rfl⟩
    simp only [callMachine, RpcCall.step, hphase, RpcCall.inside, RpcCall.chunk, if_neg hroom, Option.map_some]
    rfl
  | cons chunk chunks ih =>
    simp only [List.flatten_cons, List.length_append] at hsize
    have hroom : ¬m.maxBodyBytes < acc.length + chunk.length := by omega
    obtain ⟨a, ha, hrun⟩ := ih (acc ++ chunk) (c := { c with phase := .holding (.reading (acc ++ chunk)) })
      rfl hfresh (by simp only [List.length_append]; omega)
    refine ⟨a, ha, ?_⟩
    rw [List.flatten_cons, List.append_assoc]
    rw [List.append_assoc] at hrun
    refine (Machine.run_cons _).mpr ⟨_, ?_, hrun⟩
    simp only [callMachine, RpcCall.step, hphase, RpcCall.inside, RpcCall.chunk, if_neg hroom, Option.map_some]
    rfl

/-- What `identify` answered is what the block will do. -/
theorem identify_steps {auth : RavenRequestAuthenticator} {body : Bytes} {arrival : Arrival} {db : Ledger}
    {owner : PyStr} (h : (identify P m auth scope body arrival db).1 = .ok owner) :
    (rawHeaders .empty false scope.headers).2 = false ∧ ∃ target, requestTarget scope = .ok target ∧
      ∀ c : RpcCall, c.judged m scope body (auth.authenticate P (rawHeaders .empty false scope.headers).1
        scope.method target body arrival.policy arrival.faults arrival.now arrival.later db).1 =
          c.enter { scope with ravenOwner := some owner } body := by
  unfold identify at h
  dsimp only at h
  split at h
  · cases h
  · rename_i honce
    refine ⟨Bool.eq_false_of_not_eq_true honce, ?_⟩
    split at h
    · cases h
    · rename_i target htarget
      refine ⟨target, htarget, fun c => ?_⟩
      split at h
      · cases h
      · rename_i present why answered db' hauth
        rw [hauth]
        unfold RpcCall.judged
        dsimp only
        split at h
        · cases h
        · rename_i hallowed
          obtain rfl := Except.ok.inj h
          rw [if_neg hallowed]

theorem run_enters (hrpc : scope.isRpc P) {wakes : List Wake} {body : Bytes} {later : List ReceiveEvent}
    {seen : Scope} (h : Passes P m scope wakes body later seen) :
    ∃ first rest a, wakes = first ++ rest ∧
      (callMachine P m scope).run (.start P m scope) first = some a ∧ a.entered ≠ [] := by
  obtain ⟨⟨declared, hdeclared, hfits⟩, events, rest, hheard, -, ⟨chunks, last, rfl, rfl⟩, hsize, hauth⟩ := h
  have hstart : RpcCall.start P m scope = { phase := .queued } := by
    unfold RpcCall.start
    rw [if_neg (not_not_intro hrpc), hdeclared]
    dsimp only
    rw [hfits]
    rfl
  obtain ⟨a, hfresh, hread⟩ : ∃ a : RpcCall, a.Fresh ∧ (callMachine P m scope).run
      { phase := .holding (.reading []), acquired := 1 }
      ((chunks.map (ReceiveEvent.request · true) ++ [ReceiveEvent.request last false]).map Wake.received) =
        some (leave (a.collected m scope ([] ++ (chunks.flatten ++ last)))).1 :=
    run_reading chunks last [] rfl ⟨rfl, rfl, rfl⟩ (by simpa using hsize)
  have hbody : (callMachine P m scope).run (.start P m scope) (.acquired ::
      (chunks.map (ReceiveEvent.request · true) ++ [ReceiveEvent.request last false]).map Wake.received) =
        some (leave (a.collected m scope (chunks.flatten ++ last))).1 := by
    rw [hstart]
    exact (Machine.run_cons _).mpr ⟨_, rfl, hread⟩
  have hsplit : wakes = (.acquired ::
      (chunks.map (ReceiveEvent.request · true) ++ [ReceiveEvent.request last false]).map Wake.received) ++ rest :=
    hheard
  unfold AuthPasses at hauth
  split at hauth
  · rename_i hnone
    refine ⟨_, rest, _, hsplit, hbody, ?_⟩
    simp [RpcCall.collected, hnone, RpcCall.enter, leave]
  · rename_i auth hsome
    obtain ⟨arrival, db, tail, owner, rfl, hidentify, hseen⟩ := hauth
    obtain ⟨honce, target, htarget, hjudged⟩ := identify_steps hidentify
    have hcollected : a.collected m scope (chunks.flatten ++ last) =
        (a, .inl (.authenticating (chunks.flatten ++ last) target)) := by
      simp only [RpcCall.collected, hsome, honce, htarget, Bool.false_eq_true, if_false]
    rw [hcollected] at hbody
    have hjudge : (callMachine P m scope).run (leave (a, .inl (.authenticating (chunks.flatten ++ last) target))).1
        [.authenticated arrival db] =
          some (leave (({ a with phase := .holding (.authenticating (chunks.flatten ++ last) target) } :
            RpcCall).enter { scope with ravenOwner := some owner } (chunks.flatten ++ last))).1 := by
      refine (Machine.run_cons _).mpr ⟨_, ?_, rfl⟩
      simp only [callMachine, leave, RpcCall.step, RpcCall.inside, hsome, Option.map_some, hjudged]
    refine ⟨_, tail, _, hsplit.trans (List.append_cons _ _ _), (Machine.run_append _).mpr ⟨_, hbody, hjudge⟩, ?_⟩
    simp [RpcCall.enter, leave]

theorem collected_entered (c : RpcCall) (body : Bytes) :
    c.entered <+: (c.collected m scope body).1.entered := by
  unfold RpcCall.collected
  split
  · exact List.prefix_append _ _
  · split
    · exact List.prefix_rfl
    · split <;> exact List.prefix_rfl

theorem inside_entered {c : RpcCall} {inside : Inside} {wake : Wake} {b : BlockStep}
    (h : c.inside P m scope inside wake = some b) : c.entered <+: b.1.entered := by
  cases inside with
  | reading body =>
    rcases inside_reading h with ⟨event, -, rfl⟩ | ⟨-, ⟨ending, rfl⟩ | ⟨r, -, rfl⟩⟩
    · cases event with
      | disconnect => exact List.prefix_rfl
      | other => exact List.prefix_rfl
      | request chunk moreBody =>
        unfold RpcCall.chunk
        dsimp only
        split
        · exact List.prefix_rfl
        · split
          · exact List.prefix_rfl
          · exact collected_entered c _
    · exact List.prefix_rfl
    · exact List.prefix_rfl
  | authenticating body target =>
    rcases inside_authenticating h with ⟨arrival, db, auth, -, -, rfl⟩ | ⟨-, ending, rfl⟩
    · unfold RpcCall.judged
      split
      · exact List.prefix_rfl
      · split
        · exact List.prefix_rfl
        · exact List.prefix_append _ _
    · exact List.prefix_rfl
  | refusing r =>
    obtain ⟨ending, rfl⟩ := inside_refusing h
    exact List.prefix_rfl
  | running body delivered =>
    rcases inside_running h with ⟨-, ending, rfl⟩ | ⟨-, -, rfl⟩ | ⟨-, event, -, rfl⟩ <;> exact List.prefix_rfl

theorem step_entered {c d : RpcCall} {wake : Wake} {use : SlotUse} (h : c.step P m scope wake = some (d, use)) :
    c.entered <+: d.entered := by
  rcases step_cases h with ⟨inside, ⟨e, next⟩, hphase, hb, hleave⟩ | ⟨hphase, -, -, rfl⟩ | ⟨hphase, -, -, hd⟩ |
    ⟨refusal, ending, hphase, -, rfl⟩ | ⟨phase, handed, hphase, -, hnext, rfl⟩
  · have hentered := inside_entered hb
    cases next <;> obtain ⟨rfl, -⟩ := Prod.mk.inj hleave <;> exact hentered
  · exact List.prefix_rfl
  · rcases hd with rfl | ⟨ending, rfl⟩ <;> exact List.prefix_rfl
  · exact List.prefix_rfl
  · exact List.prefix_rfl

theorem Carries.extend {events : List ReceiveEvent} {body : Bytes} (h : Carries events body [])
    (more : List ReceiveEvent) : Carries (events ++ more) body more := by
  obtain ⟨chunks, last, rfl, rfl⟩ := h
  exact ⟨chunks, last, by simp, rfl⟩

/-- A history has at most one body, and at most one scope for the application. -/
theorem Passes.unique {wakes : List Wake} {body body' : Bytes} {later later' : List ReceiveEvent}
    {seen seen' : Scope}
    (h : Passes P m scope wakes body later seen) (h' : Passes P m scope wakes body' later' seen') :
    body = body' ∧ later = later' ∧ seen = seen' := by
  obtain ⟨-, events, rest, hheard, rfl, hcarries, -, hauth⟩ := h
  obtain ⟨-, events', rest', hheard', rfl, hcarries', -, hauth'⟩ := h'
  have hsame : events ++ receivedIn rest = events' ++ receivedIn rest' :=
    hheard.received.symm.trans hheard'.received
  obtain ⟨rfl, hlater⟩ := (hcarries.extend (receivedIn rest)).unique
    (hsame ▸ hcarries'.extend (receivedIn rest'))
  rw [hlater] at hsame
  obtain rfl := List.append_cancel_right hsame
  have hrest : rest = rest' := List.append_cancel_left (List.cons.inj (hheard.symm.trans hheard')).2
  subst hrest
  refine ⟨rfl, rfl, ?_⟩
  cases hsome : m.ravenAuthenticator with
  | none =>
    simp only [AuthPasses, hsome] at hauth hauth'
    exact hauth.trans hauth'.symm
  | some auth =>
    simp only [AuthPasses, hsome] at hauth hauth'
    obtain ⟨arrival, db, tail, owner, rfl, hidentify, rfl⟩ := hauth
    obtain ⟨arrival', db', tail', owner', htail, hidentify', rfl⟩ := hauth'
    obtain ⟨hwake, -⟩ := List.cons.inj htail
    obtain ⟨rfl, rfl⟩ := Wake.authenticated.inj hwake
    rw [Except.ok.inj (hidentify.symm.trans hidentify')]

/-- The application is called for the requests that pass, with the body, once. -/
theorem run_entered (hrpc : scope.isRpc P) {wakes : List Wake} {c : RpcCall}
    (hrun : (callMachine P m scope).run (.start P m scope) wakes = some c) :
    (c.entered ≠ [] ↔ ∃ body later seen, Passes P m scope wakes body later seen) ∧
    ∀ body later seen, Passes P m scope wakes body later seen → c.entered = [seen] ∧ c.Handed body later := by
  have htrace := run_trace hrpc hrun
  have hin : ∀ {body later seen}, Passes P m scope wakes body later seen → c.entered ≠ [] := by
    intro body later seen hpasses
    obtain ⟨first, rest, a, hwakes, hfirst, hentered⟩ := run_enters hrpc hpasses
    rw [hwakes] at hrun
    obtain ⟨a', ha', hrest⟩ := (Machine.run_append _).mp hrun
    obtain rfl := Option.some.inj (hfirst.symm.trans ha')
    have hle : a.entered <+: c.entered := Machine.run_rel (R := fun x y : RpcCall => x.entered <+: y.entered)
      (fun _ => List.prefix_rfl) (fun h₁ h₂ => h₁.trans h₂) (fun hstep => by
        obtain ⟨⟨d, use⟩, hd, rfl⟩ := Option.map_eq_some_iff.mp hstep
        exact step_entered hd) hrest
    intro hempty
    rw [hempty] at hle
    exact hentered (List.prefix_nil.mp hle)
  have hout : c.entered ≠ [] → ∃ body later seen, Passes P m scope wakes body later seen ∧ c.entered = [seen] ∧
      c.Handed body later := by
    intro hne
    cases htrace with
    | queued hphase hfresh => exact absurd hfresh.1 hne
    | reading chunks hphase hfresh => exact absurd hfresh.1 hne
    | judging hphase hfresh => exact absurd hfresh.1 hne
    | stopped hphase hentered => exact absurd hentered hne
    | entered hphase hentered hrefusals hpasses =>
      refine ⟨_, _, _, hpasses, hentered, ?_⟩
      rcases hphase with ⟨-, hhanded⟩ | ⟨-, hhanded⟩ | ⟨-, hhanded⟩
      · exact Or.inl hhanded
      · exact Or.inr hhanded
      · exact hhanded
  constructor
  · constructor
    · intro hne
      obtain ⟨body, later, seen, hpasses, -⟩ := hout hne
      exact ⟨body, later, seen, hpasses⟩
    · rintro ⟨body, later, seen, hpasses⟩
      exact hin hpasses
  · intro body later seen hpasses
    obtain ⟨body', later', seen', hpasses', hentered, hhanded⟩ := hout (hin hpasses)
    obtain ⟨rfl, rfl, rfl⟩ := hpasses.unique hpasses'
    exact ⟨hentered, hhanded⟩

/-! ## The size -/

/-- What was decided on the first events is what all of them come to. -/
theorem collect_isPrefix {maxBodyBytes : Nat} {events full : List ReceiveEvent} (h : events <+: full)
    (hdecided : collect maxBodyBytes [] events ≠ .timeout) :
    collect maxBodyBytes [] full = .tooLarge ↔ collect maxBodyBytes [] events = .tooLarge := by
  obtain ⟨more, rfl⟩ := h
  rw [collect_append hdecided]
  split
  · rename_i body rest hcollect
    rw [hcollect]
    simp
  · exact Iff.rfl

theorem collect_tooLarge_iff {maxBodyBytes : Nat} {full rest : List ReceiveEvent} {body : Bytes}
    (h : Carries full body rest) : collect maxBodyBytes [] full = .tooLarge ↔ maxBodyBytes < body.length := by
  rw [collect_carries h, List.length_nil, Nat.zero_add]
  split <;> simp_all

theorem heard_isPrefix {wakes rest : List Wake} {events full : List ReceiveEvent} (h : Heard wakes events rest)
    (hfull : receivedIn wakes <+: full) : events <+: full := by
  rw [h.received] at hfull
  exact (List.prefix_append events _).trans hfull

/-- A body that was heard whole is the body of the stream. -/
theorem heard_body {wakes rest : List Wake} {events full after : List ReceiveEvent} {body body' : Bytes}
    (h : Heard wakes events rest) (hcarries : Carries events body' []) (hfull : Carries full body after)
    (hoffered : receivedIn wakes <+: full) : body' = body := by
  obtain ⟨more, rfl⟩ := heard_isPrefix h hoffered
  exact ((hcarries.extend more).unique hfull).1

theorem trace_size {wakes : List Wake} {c : RpcCall} (h : RpcTrace P m scope wakes c)
    {full after : List ReceiveEvent} {body : Bytes} (hfull : Carries full body after)
    (hoffered : receivedIn wakes <+: full)
    (hdeclared : declaredLength P scope = .ok none ∨ declaredLength P scope = .ok (some body.length)) :
    (tooLarge ∈ c.refusals → m.maxBodyBytes < body.length) ∧
    (m.maxBodyBytes < body.length → c.phase ≠ .queued → (∀ b, c.phase ≠ .holding (.reading b)) →
      (∀ wake ∈ wakes, ¬wake.Failure) → tooLarge ∈ c.refusals) := by
  have hlarge : collect m.maxBodyBytes [] full = .tooLarge ↔ m.maxBodyBytes < body.length :=
    collect_tooLarge_iff hfull
  cases h with
  | queued hphase hfresh =>
    rw [hfresh.2.2]
    exact ⟨fun hmem => absurd hmem List.not_mem_nil, fun _ hnot => absurd hphase hnot⟩
  | reading chunks hphase hfresh =>
    rw [hfresh.2.2]
    exact ⟨fun hmem => absurd hmem List.not_mem_nil, fun _ _ hnot => absurd hphase (hnot _)⟩
  | judging hphase hfresh hfits hauth honce htarget hcarries hsize hheard =>
    obtain rfl := heard_body hheard hcarries hfull hoffered
    rw [hfresh.2.2]
    exact ⟨fun hmem => absurd hmem List.not_mem_nil, fun hlt => absurd hlt (Nat.not_lt.mpr hsize)⟩
  | entered hphase hentered hrefusals hpasses =>
    obtain ⟨-, events, rest, hheard, -, hcarries, hsize, -⟩ := hpasses
    obtain rfl := heard_body hheard hcarries hfull hoffered
    rw [hrefusals]
    exact ⟨fun hmem => absurd hmem List.not_mem_nil, fun hlt => absurd hlt (Nat.not_lt.mpr hsize)⟩
  | stopped hphase hentered hhanded hreason =>
    rcases hreason with ⟨hmem, hcause⟩ | ⟨hnot, hcause⟩
    · refine ⟨fun _ => ?_, fun _ _ _ _ => hmem⟩
      rcases hcause with ⟨declared, hvalue, hany⟩ | ⟨events, rest, hheard, hcollect⟩
      · rcases hdeclared with hnone | hsome
        · obtain rfl := Except.ok.inj (hvalue.symm.trans hnone)
          cases hany
        · obtain rfl := Except.ok.inj (hvalue.symm.trans hsome)
          simp only [Option.any_some, decide_eq_true_eq] at hany
          omega
      · have hdecided : collect m.maxBodyBytes [] events ≠ .timeout := by
          rw [hcollect]
          simp
        exact hlarge.mp ((collect_isPrefix (heard_isPrefix hheard hoffered) hdecided).mpr hcollect)
    · refine ⟨fun hmem => absurd hmem hnot, fun hlt _ _ hclean => ?_⟩
      exfalso
      rcases hcause with ⟨e, herror⟩ | ⟨wake, hwake, hfailure⟩ | ⟨events, rest, hheard, hdecided, hsmall⟩
      · rcases hdeclared with hnone | hsome
        · cases herror.symm.trans hnone
        · cases herror.symm.trans hsome
      · exact hclean wake hwake hfailure
      · exact hsmall ((collect_isPrefix (heard_isPrefix hheard hoffered) hdecided).mp (hlarge.mpr hlt))

end

/-! ## All calls -/

theorem start_counted (P : Platform) (m : RpcIngressLimitMiddleware) (scope : Scope) :
    (RpcCall.start P m scope).Counted ∧ ¬(RpcCall.start P m scope).Holds := by
  have hnone : ∀ c : RpcCall, c.acquired = 0 → c.released = 0 → (∀ inside, c.phase ≠ .holding inside) →
      c.Counted ∧ ¬c.Holds := by
    intro c hacquired hreleased hphase
    have hnot := not_holds hphase
    exact ⟨⟨by omega, fun h => absurd h hnot, fun _ => by omega, fun _ => hacquired⟩, hnot⟩
  unfold RpcCall.start
  split
  · exact hnone _ rfl rfl (by simp)
  · split
    · exact hnone _ rfl rfl (by simp)
    · dsimp only
      split
      · exact hnone _ rfl rfl (by simp)
      · exact hnone _ rfl rfl (by simp)

theorem run_counted {P : Platform} {m : RpcIngressLimitMiddleware} {scope : Scope} {wakes : List Wake}
    {c : RpcCall}
    (hrun : (callMachine P m scope).run (.start P m scope) wakes = some c) : c.Counted := by
  refine Machine.invariant ?_ (start_counted P m scope).1 hrun
  intro a wake b ha hstep
  obtain ⟨⟨d, use⟩, hd, rfl⟩ := Option.map_eq_some_iff.mp hstep
  exact step_counted ha hd

/-- Of the requests for the RPC route just those that pass all checks reach the application, with their
body in one piece; a body is refused for its size alone; and no slot is lost or given back twice. -/
theorem ingress_accounting (P : Platform) (m : RpcIngressLimitMiddleware) (maxConcurrent : Nat)
    (scopes : Nat → Scope) {wakes : List (Nat × Wake)} {s : SlotPool Nat RpcCall}
    (hrun : (ingress P m scopes).run (ingressStart P m maxConcurrent scopes) wakes = some s) :
    SlotPool.Balanced RpcCall.Holds maxConcurrent s ∧
    (∀ ids : Finset Nat, (∀ i ∈ ids, (s.party i).Holds) → ids.card ≤ maxConcurrent) ∧
    (∀ i, (s.party i).acquired ≤ 1 ∧ ((s.party i).Holds → (s.party i).acquired = 1 ∧ (s.party i).released = 0) ∧
      (¬(s.party i).Holds → (s.party i).released = (s.party i).acquired)) ∧
    ∀ i, (scopes i).isRpc P →
      ((s.party i).entered ≠ [] ↔
        ∃ body later seen, Passes P m (scopes i) (SlotPool.own i wakes) body later seen) ∧
      (∀ body later seen, Passes P m (scopes i) (SlotPool.own i wakes) body later seen →
        (s.party i).entered = [seen] ∧ (s.party i).Handed body later) ∧
      ∀ full body after, Carries full body after → receivedIn (SlotPool.own i wakes) <+: full →
        (declaredLength P (scopes i) = .ok none ∨ declaredLength P (scopes i) = .ok (some body.length)) →
        (tooLarge ∈ (s.party i).refusals → m.maxBodyBytes < body.length) ∧
        (m.maxBodyBytes < body.length → (s.party i).entered = []) ∧
        ((s.party i).phase ≠ .queued → (∀ b, (s.party i).phase ≠ .holding (.reading b)) →
          (∀ wake ∈ SlotPool.own i wakes, ¬wake.Failure) →
          (tooLarge ∈ (s.party i).refusals ↔ m.maxBodyBytes < body.length)) := by
  have hbalanced : SlotPool.Balanced RpcCall.Holds maxConcurrent (ingressStart P m maxConcurrent scopes) := by
    refine ⟨∅, fun i => ?_, rfl⟩
    exact iff_of_false (Finset.notMem_empty i) (start_counted P m (scopes i)).2
  have hend := SlotPool.run_balanced (step_honest P m scopes) hbalanced hrun
  have hown : ∀ i, (callMachine P m (scopes i)).run (.start P m (scopes i)) (SlotPool.own i wakes) =
      some (s.party i) := fun i => SlotPool.run_own hrun i
  refine ⟨hend, fun ids hids => hend.card_le hids, fun i => ?_, fun i hrpc => ?_⟩
  · obtain ⟨hle, hheld, hout, -⟩ := run_counted (hown i)
    exact ⟨hle, hheld, hout⟩
  · obtain ⟨hiff, hbody⟩ := run_entered hrpc (hown i)
    refine ⟨hiff, hbody, fun full body after hfull hoffered hdeclared => ?_⟩
    obtain ⟨hsmall, hlarge⟩ := trace_size (run_trace hrpc (hown i)) hfull hoffered hdeclared
    refine ⟨hsmall, fun hlt => ?_, fun hqueued hreading hclean => ?_⟩
    · by_contra hne
      obtain ⟨body', later, seen, -, events, rest, hheard, -, hcarries, hsize, -⟩ := hiff.mp hne
      obtain rfl := heard_body hheard hcarries hfull hoffered
      omega
    · exact ⟨hsmall, fun hlt => hlarge hlt hqueued hreading hclean⟩

namespace Sample

def openMiddleware : RpcIngressLimitMiddleware := ⟨4, by decide, none, false⟩

/-- Two requests for one slot: the second waits until the first is through. -/
def twoCalls : List (Nat × Wake) :=
  [(0, .acquired), (0, .received (.request [123] true)), (0, .received (.request [125] false)), (0, .replayed),
    (0, .returned), (1, .acquired), (1, .received (.request [1, 2, 3, 4, 5] false))]

end Sample

theorem second_call_kept_out : ∃ s, (ingress Identity.Sample.platform Sample.openMiddleware
      fun _ => Sample.scope).run (ingressStart Identity.Sample.platform Sample.openMiddleware 1
        fun _ => Sample.scope) Sample.twoCalls = some s ∧
    (s.party 0).entered = [Sample.scope] ∧ (s.party 1).entered = [] := by
  obtain ⟨s, hs⟩ := Option.isSome_iff_exists.mp (show ((ingress Identity.Sample.platform Sample.openMiddleware
      fun _ => Sample.scope).run (ingressStart Identity.Sample.platform Sample.openMiddleware 1
        fun _ => Sample.scope) Sample.twoCalls).isSome = true from by decide +kernel)
  have hrpc : Sample.scope.isRpc Identity.Sample.platform := by decide +kernel
  have hdeclared : declaredLength Identity.Sample.platform Sample.scope = .ok none := rfl
  obtain ⟨-, -, -, hcalls⟩ := ingress_accounting _ _ _ _ hs
  refine ⟨s, hs, ?_, ?_⟩
  · obtain ⟨-, hbody, -⟩ := hcalls 0 hrpc
    exact (hbody [123, 125] [] Sample.scope ⟨⟨none, hdeclared, rfl⟩, [.request [123] true, .request [125] false],
      [.replayed, .returned], rfl, rfl, ⟨[[123]], [125], rfl, rfl⟩, by decide, rfl⟩).1
  · obtain ⟨-, -, hsize⟩ := hcalls 1 hrpc
    have hlong := hsize [.request [1, 2, 3, 4, 5] false] [1, 2, 3, 4, 5] [] (.single _ [])
      (List.prefix_rfl) (Or.inl hdeclared)
    exact hlong.2.1 (by decide)

end Rdap.Server
