import Rdap.Lib.Machine
import Rdap.Identity.Verify

/-!
# Presentations to one durable ledger

Calls of the two verifiers run in threads of their own. A call reads the clock, its cache
reads the clock again, and its transaction follows at any later time; between these
points other calls, restarts and the passing of time take place in any order.
-/

set_option autoImplicit false

namespace Rdap.Identity
open Python Lib

/-- The arguments of one call, with the policy and the revocations it was given. -/
inductive Presentation where
  | http (authorization : Dict) (method target : PyStr) (body : Bytes) (trustedPeers : Peers)
      (recipient : PyStr) (revoked : List PyStr)
  | delegation (metadata : Dict) (taskText : PyStr) (trustedPeers : Peers) (required : Bool)
      (revoked : List PyStr) (expected : Expected)

/-- Signed content and the text it was presented under. -/
structure Signed where
  message : Bytes
  signature : Bytes
  signatureB64 : PyStr
  expiresAt : Int
  deriving DecidableEq

def Admitted.signed {F : Type} (a : Admitted F) : Signed :=
  ⟨a.message, a.signature, a.signatureB64, a.expiresAt⟩

/-- The same signed bytes, hence the same signed fields, and the same signature bytes. -/
def SameContent (a b : Signed) : Prop := a.message = b.message ∧ a.signature = b.signature

instance (a b : Signed) : Decidable (SameContent a b) := inferInstanceAs (Decidable (_ ∧ _))

variable (P : Platform)

/-- The content that passes the stateless checks at a clock value. -/
def Presentation.signed (now : Int) : Presentation → Option Signed
  | .http authorization method target body trustedPeers recipient revoked =>
    (checkHttpRequest P authorization method target body trustedPeers recipient revoked
      now).toOption.map Admitted.signed
  | .delegation metadata taskText trustedPeers _ revoked expected =>
    if metadata = [] then none
    else (checkDelegation P metadata taskText trustedPeers revoked expected now).toOption.map
      Admitted.signed

/-- Whether a verifier returned `True`. -/
def answered {α : Type} : Except PyExc (Bool × α) → Bool
  | .ok (answer, _) => answer
  | .error _ => false

/-- The verifier's answer and the durable table after it. -/
def Presentation.verify (cache : ReplayCache) (faults : Faults) (now later : Int) (db : Ledger) :
    Presentation → Bool × Ledger
  | .http authorization method target body trustedPeers recipient revoked =>
    let r := verifyHttpRequest P authorization method target body trustedPeers recipient revoked
      cache faults now later db
    (answered r.1, r.2)
  | .delegation metadata taskText trustedPeers required revoked expected =>
    let r := verifyDelegation P metadata taskText trustedPeers required revoked cache expected true
      faults now later db
    (answered r.1, r.2)

/-- A call in flight: its clock value, and its cache's once that is read. -/
structure Call where
  presentation : Presentation
  now : Int
  later : Option Int

structure Node where
  clock : Int
  ledger : Ledger
  calls : List Call
  /-- Signed contents accepted so far, the last one first. -/
  accepted : List Signed

inductive Event where
  | tick (seconds : Nat)
  | call (presentation : Presentation)
  | readClock (i : Nat)
  | transact (i : Nat) (faults : Faults)
  | restart

/-- Calls die with their process; the table and what was accepted stay. -/
def nodeStep (cache : ReplayCache) : Machine Node Event
  | s, .tick seconds => some { s with clock := s.clock + seconds }
  | s, .call presentation => some { s with calls := s.calls ++ [⟨presentation, s.clock, none⟩] }
  | s, .readClock i =>
    match s.calls[i]? with
    | some c =>
      if c.later = none then
        some { s with calls := s.calls.set i { c with later := some s.clock } }
      else none
    | none => none
  | s, .transact i faults =>
    match s.calls[i]? with
    | some ⟨presentation, now, some later⟩ =>
      let r := presentation.verify P cache faults now later s.ledger
      some
        { s with
          ledger := r.2
          calls := s.calls.eraseIdx i
          accepted :=
            if r.1 then (presentation.signed P now).toList ++ s.accepted else s.accepted }
    | _ => none
  | s, .restart => some { s with calls := [] }

/-- Content presented again after it was accepted has the accepted spelling, and reaches
the table before it expires. -/
def Careful : Node → Event → Prop
  | s, .transact i _ => ∀ c, s.calls[i]? = some c → ∀ a, c.presentation.signed P c.now = some a →
      ∀ b ∈ s.accepted, SameContent b a →
        b.signatureB64 = a.signatureB64 ∧ s.clock < a.expiresAt
  | _, _ => True

instance (s : Node) (e : Event) : Decidable (Careful P s e) :=
  match e with
  | .transact i _ =>
    match h : s.calls[i]? with
    | none => .isTrue (by simp [Careful, h])
    | some c =>
      match ha : c.presentation.signed P c.now with
      | none => .isTrue (by simp [Careful, h, ha])
      | some a => decidable_of_iff (∀ b ∈ s.accepted, SameContent b a →
          b.signatureB64 = a.signatureB64 ∧ s.clock < a.expiresAt) (by simp [Careful, h, ha])
  | .tick _ | .call _ | .readClock _ | .restart => .isTrue trivial

def OnceOnly (s : Node) : Prop := s.accepted.Pairwise fun a b => ¬ SameContent a b

instance (s : Node) : Decidable (OnceOnly s) :=
  inferInstanceAs (Decidable (s.accepted.Pairwise _))

variable {P}

/-! ## One call -/

theorem checkHttpRequest_expiry {authorization : Dict} {method target : PyStr} {body : Bytes}
    {trustedPeers : Peers} {recipient : PyStr} {revoked : List PyStr} {now : Int}
    {a : Admitted HttpRequestFields}
    (h : checkHttpRequest P authorization method target body trustedPeers recipient revoked now =
      .ok a) :
    httpRequestSigningBytes P a.fields = .ok a.message ∧ a.fields.expiresAt = a.expiresAt := by
  have hc := checkHttpRequest_ok P h
  refine ⟨hc.message, ?_⟩
  rw [hc.fields]

theorem checkDelegation_expiry {metadata : Dict} {taskText : PyStr} {trustedPeers : Peers}
    {revoked : List PyStr} {expected : Expected} {now : Int} {a : Admitted DelegationFields}
    (h : checkDelegation P metadata taskText trustedPeers revoked expected now = .ok a) :
    delegationSigningBytes P a.fields = .ok a.message ∧ a.fields.expiresAt = a.expiresAt := by
  have hc := checkDelegation_ok P h
  refine ⟨hc.message, ?_⟩
  rw [hc.fields]

/-- What the signed bytes of a presentation are the signed bytes of. -/
inductive SignedAs (P : Platform) (a : Signed) : Prop where
  | http (f : HttpRequestFields) : httpRequestSigningBytes P f = .ok a.message →
      f.expiresAt = a.expiresAt → SignedAs P a
  | delegation (f : DelegationFields) : delegationSigningBytes P f = .ok a.message →
      f.expiresAt = a.expiresAt → SignedAs P a

theorem Presentation.signedAs {p : Presentation} {now : Int} {a : Signed}
    (h : p.signed P now = some a) : SignedAs P a := by
  cases p with
  | http authorization method target body trustedPeers recipient revoked =>
    obtain ⟨x, hx, rfl⟩ := Option.map_eq_some_iff.mp h
    obtain ⟨hmessage, hexpiry⟩ := checkHttpRequest_expiry (toOption_some.mp hx)
    exact .http x.fields hmessage hexpiry
  | delegation metadata taskText trustedPeers required revoked expected =>
    simp only [Presentation.signed] at h
    split at h
    · cases h
    · obtain ⟨x, hx, rfl⟩ := Option.map_eq_some_iff.mp h
      obtain ⟨hmessage, hexpiry⟩ := checkDelegation_expiry (toOption_some.mp hx)
      exact .delegation x.fields hmessage hexpiry

/-- The expiry is one of the signed fields. -/
theorem SignedAs.expiry_eq {a b : Signed} (ha : SignedAs P a) (hb : SignedAs P b)
    (h : a.message = b.message) : a.expiresAt = b.expiresAt := by
  cases ha with
  | http f hf he =>
    cases hb with
    | http g hg hge =>
      rw [← he, ← hge]
      exact (httpRequestSigningBytes_same P (h ▸ hf) hg).expiresAt
    | delegation g hg _ => exact (signingBytes_disjoint P (h ▸ hf) hg).elim
  | delegation f hf he =>
    cases hb with
    | http g hg _ => exact (signingBytes_disjoint P hg (h ▸ hf)).elim
    | delegation g hg hge =>
      rw [← he, ← hge]
      exact (delegationSigningBytes_same P (h ▸ hf) hg).expiresAt

theorem answered_eq_true {α : Type} {x : Except PyExc (Bool × α)} :
    answered x = true ↔ ∃ y, x = .ok (true, y) := by
  cases x with
  | error e => simp [answered]
  | ok r => cases r; simp [answered]

/-- A verifier that returned `True` for signed content had the cache admit its spelling. -/
theorem Presentation.verify_accepts {p : Presentation} {cache : ReplayCache} {faults : Faults}
    {now later : Int} {db : Ledger} {a : Signed} (hsigned : p.signed P now = some a)
    (h : (p.verify P cache faults now later db).1 = true) :
    firstTime P cache faults later a.signatureB64 (some a.expiresAt) db =
      (.ok true, (p.verify P cache faults now later db).2) := by
  cases p with
  | http authorization method target body trustedPeers recipient revoked =>
    obtain ⟨x, hx, rfl⟩ := Option.map_eq_some_iff.mp hsigned
    obtain ⟨⟨reason, owner⟩, hanswer⟩ := answered_eq_true.mp h
    obtain ⟨y, hy, _, hfirst⟩ := verifyHttpRequest_accepts P (Prod.ext hanswer rfl)
    obtain rfl : x = y := Except.ok.inj ((toOption_some.mp hx).symm.trans hy)
    exact hfirst
  | delegation metadata taskText trustedPeers required revoked expected =>
    simp only [Presentation.signed] at hsigned
    split at hsigned
    · cases hsigned
    · rename_i hne
      obtain ⟨x, hx, rfl⟩ := Option.map_eq_some_iff.mp hsigned
      obtain ⟨reason, hanswer⟩ := answered_eq_true.mp h
      obtain ⟨y, hy, hfirst, _⟩ := verifyDelegation_accepts P hne (Prod.ext hanswer rfl)
      obtain rfl : x = y := Except.ok.inj ((toOption_some.mp hx).symm.trans hy)
      exact hfirst rfl

/-- A verifier that did not return `True` left the table alone. -/
theorem Presentation.verify_refuses {p : Presentation} {cache : ReplayCache} {faults : Faults}
    {now later : Int} {db : Ledger} (h : (p.verify P cache faults now later db).1 = false) :
    (p.verify P cache faults now later db).2 = db := by
  cases p with
  | http authorization method target body trustedPeers recipient revoked =>
    refine verifyHttpRequest_rejects P rfl fun reason owner hanswer => ?_
    have htrue := answered_eq_true.mpr ⟨_, hanswer⟩
    exact Bool.noConfusion (htrue.symm.trans h)
  | delegation metadata taskText trustedPeers required revoked expected =>
    refine verifyDelegation_rejects P rfl fun reason hanswer => ?_
    have htrue := answered_eq_true.mpr ⟨_, hanswer⟩
    exact Bool.noConfusion (htrue.symm.trans h)

/-- Only a call without metadata is accepted without signed content. -/
theorem Presentation.verify_unsigned {p : Presentation} {cache : ReplayCache} {faults : Faults}
    {now later : Int} {db : Ledger} (hsigned : p.signed P now = none) :
    (p.verify P cache faults now later db).2 = db := by
  cases hanswer : (p.verify P cache faults now later db).1 with
  | false => exact p.verify_refuses hanswer
  | true =>
    cases p with
    | http authorization method target body trustedPeers recipient revoked =>
      obtain ⟨⟨reason, owner⟩, hok⟩ := answered_eq_true.mp hanswer
      obtain ⟨y, hy, _⟩ := verifyHttpRequest_accepts P (Prod.ext hok rfl)
      simp [Presentation.signed, hy, Except.toOption] at hsigned
    | delegation metadata taskText trustedPeers required revoked expected =>
      by_cases hne : metadata = []
      · simp [Presentation.verify, verifyDelegation, hne]
      · obtain ⟨reason, hok⟩ := answered_eq_true.mp hanswer
        obtain ⟨y, hy, _⟩ := verifyDelegation_accepts P hne (Prod.ext hok rfl)
        simp [Presentation.signed, hne, hy, Except.toOption] at hsigned

/-! ## Runs -/

/-- A signed content that has not expired has its row. -/
def Kept (P : Platform) (clock : Int) (db : Ledger) (a : Signed) : Prop :=
  clock < a.expiresAt →
    ∃ key, signatureHash P a.signatureB64 = .ok key ∧ db.get? key = some a.expiresAt

structure Sound (P : Platform) (s : Node) : Prop where
  past : ∀ c ∈ s.calls, ∀ later, c.later = some later → later ≤ s.clock
  kept : ∀ a ∈ s.accepted, Kept P s.clock s.ledger a
  signed : ∀ a ∈ s.accepted, SignedAs P a
  once : OnceOnly s

theorem signatureHash_of_accepts {cache : ReplayCache} {faults : Faults} {now : Int} {sig : PyStr}
    {expiresAt : Option Int} {db db' : Ledger}
    (h : firstTime P cache faults now sig expiresAt db = (.ok true, db')) :
    ∃ key, signatureHash P sig = .ok key := by
  unfold firstTime at h
  split at h
  · cases h
  · exact ⟨_, by assumption⟩

/-- Admitting one spelling keeps the rows of the contents accepted before. -/
theorem kept_of_accepts {cache : ReplayCache} {faults : Faults} {later clock expiry : Int}
    {sig : PyStr} {db db' : Ledger} {b : Signed} (hlater : later ≤ clock)
    (h : firstTime P cache faults later sig (some expiry) db = (.ok true, db'))
    (hb : Kept P clock db b) : Kept P clock db' b := by
  intro hlive
  obtain ⟨other, hother, hrow⟩ := hb hlive
  obtain ⟨key, hkey⟩ := signatureHash_of_accepts h
  obtain ⟨hfresh, rfl⟩ := firstTime_accepts P hkey h
  have hnow : later < b.expiresAt := by omega
  refine ⟨other, hother, get?_admitted_of_live hrow hnow ?_⟩
  rintro rfl
  exact hfresh ⟨_, hrow, hnow⟩

/-- A live row under the same spelling turns the presentation away. -/
theorem refused_of_kept {cache : ReplayCache} {faults : Faults} {later clock : Int} {a b : Signed}
    {db db' : Ledger} (hlater : later ≤ clock) (hb : Kept P clock db b)
    (hspelling : b.signatureB64 = a.signatureB64) (hlive : clock < b.expiresAt) :
    firstTime P cache faults later a.signatureB64 (some a.expiresAt) db ≠ (.ok true, db') := by
  intro h
  obtain ⟨key, hkey, hrow⟩ := hb hlive
  rw [hspelling] at hkey
  obtain ⟨hfresh, _⟩ := firstTime_accepts P hkey h
  exact hfresh ⟨_, hrow, by omega⟩

theorem sound_transact {cache : ReplayCache} {s t : Node} {i : Nat} {faults : Faults}
    (hcareful : Careful P s (.transact i faults)) (hs : Sound P s)
    (h : nodeStep P cache s (.transact i faults) = some t) : Sound P t := by
  simp only [nodeStep] at h
  split at h
  · rename_i p now later hcall
    have hlater : later ≤ s.clock := hs.past _ (List.mem_of_getElem? hcall) _ rfl
    obtain rfl := Option.some.inj h
    have hpast : ∀ c ∈ s.calls.eraseIdx i, ∀ later, c.later = some later → later ≤ s.clock :=
      fun c hc => hs.past c (List.mem_of_mem_eraseIdx hc)
    cases hsigned : p.signed P now with
    | none =>
      rw [Presentation.verify_unsigned hsigned]
      simp only [Option.toList_none, List.nil_append, ite_self]
      exact ⟨hpast, hs.kept, hs.signed, hs.once⟩
    | some a =>
      cases hanswer : (p.verify P cache faults now later s.ledger).1 with
      | false =>
        rw [Presentation.verify_refuses hanswer]
        simp only [Bool.false_eq_true, if_false]
        exact ⟨hpast, hs.kept, hs.signed, hs.once⟩
      | true =>
        have hfirst := Presentation.verify_accepts hsigned hanswer
        obtain ⟨key, hkey⟩ := signatureHash_of_accepts hfirst
        simp only [if_true, Option.toList_some, List.singleton_append]
        refine ⟨hpast, ?_, ?_, ?_⟩
        · intro b hb
          rcases List.mem_cons.mp hb with rfl | hb
          · intro _
            obtain ⟨_, htable⟩ := firstTime_accepts P hkey hfirst
            refine ⟨key, hkey, ?_⟩
            rw [htable]
            exact get?_admitted_self _ _ _ _
          · exact kept_of_accepts hlater hfirst (hs.kept b hb)
        · intro b hb
          rcases List.mem_cons.mp hb with rfl | hb
          · exact Presentation.signedAs hsigned
          · exact hs.signed b hb
        · refine List.pairwise_cons.mpr ⟨?_, hs.once⟩
          intro b hb hsame
          obtain ⟨hspelling, hlive⟩ :=
            hcareful _ hcall a hsigned b hb ⟨hsame.1.symm, hsame.2.symm⟩
          have hexpiry := (Presentation.signedAs hsigned).expiry_eq (hs.signed b hb) hsame.1
          exact refused_of_kept hlater (hs.kept b hb) hspelling (hexpiry ▸ hlive) hfirst
  · cases h

theorem sound_step {cache : ReplayCache} {s t : Node} {e : Event} (hcareful : Careful P s e)
    (hs : Sound P s) (h : nodeStep P cache s e = some t) : Sound P t := by
  cases e with
  | tick seconds =>
    obtain rfl := Option.some.inj h
    refine ⟨?_, ?_, hs.signed, hs.once⟩
    · intro c hc later hlater
      have hle := hs.past c hc later hlater
      show later ≤ s.clock + seconds
      omega
    · intro a ha hlive
      have hlater : s.clock + seconds < a.expiresAt := hlive
      exact hs.kept a ha (by omega)
  | call p =>
    obtain rfl := Option.some.inj h
    refine ⟨?_, hs.kept, hs.signed, hs.once⟩
    intro c hc later hlater
    rcases List.mem_append.mp hc with hc | hc
    · exact hs.past c hc later hlater
    · obtain rfl := List.mem_singleton.mp hc
      cases hlater
  | readClock i =>
    simp only [nodeStep] at h
    split at h
    · split at h
      · obtain rfl := Option.some.inj h
        refine ⟨?_, hs.kept, hs.signed, hs.once⟩
        intro c hc later hlater
        rcases List.mem_or_eq_of_mem_set hc with hc | rfl
        · exact hs.past c hc later hlater
        · obtain rfl := Option.some.inj hlater
          exact Int.le_refl _
      · cases h
    · cases h
  | transact i faults => exact sound_transact hcareful hs h
  | restart =>
    obtain rfl := Option.some.inj h
    exact ⟨by simp, hs.kept, hs.signed, hs.once⟩

/-- A process over an existing database, before its first call. -/
def Node.Fresh (s : Node) : Prop := s.calls = [] ∧ s.accepted = []

/-- Along every run that is careful with content presented again, no two presentations
with the same signed fields and the same signature bytes are both accepted. -/
theorem careful_runs_accept_once (P : Platform) (cache : ReplayCache) {s t : Node}
    {events : List Event} (hfresh : s.Fresh)
    (hcareful : (nodeStep P cache).Along (Careful P) s events)
    (hrun : (nodeStep P cache).run s events = some t) : OnceOnly t := by
  have hstart : Sound P s :=
    ⟨by simp [hfresh.1], by simp [hfresh.2], by simp [hfresh.2], by simp [OnceOnly, hfresh.2]⟩
  exact (Machine.invariant_along sound_step hcareful hstart hrun).once

namespace Sample

def node (clock : Int) : Node := ⟨clock, .empty, [], []⟩

def httpPresentation (signatureB64 : PyStr) : Presentation :=
  .http (authorization signatureB64) request.method request.target request.body peers nodeAddress []

def delegationPresentation (signatureB64 : PyStr) : Presentation :=
  .delegation (metadata signatureB64) delegation.text peers true [] expected

def present (p : Presentation) : List Event := [.call p, .readClock 0, .transact 0 noFaults]

/-- The last data character of the spelling carries four bits that no decoder reads. -/
def respelled : PyStr := (b64encode httpSignature).take 85 ++ lit "R=="

/-- One signed request under two spellings. -/
def respelledRun : List Event :=
  present (httpPresentation (b64encode httpSignature)) ++ present (httpPresentation respelled)

/-- One delegation twice in its last second; the second cache read falls on `expires_at`. -/
def boundaryRun : List Event :=
  let p := delegationPresentation (b64encode delegationSignature)
  present p ++ [.call p, .tick 1, .readClock 0, .transact 0 noFaults]

/-- One request twice, with a restart in between. -/
def carefulRun : List Event :=
  let p := httpPresentation (b64encode httpSignature)
  present p ++ [.restart, .tick 60] ++ present p

end Sample

theorem accepted_twice :
    (∃ t, (nodeStep Sample.platform Sample.cache).run (Sample.node 1100) Sample.respelledRun =
      some t ∧ ¬ OnceOnly t) ∧
    ∃ t, (nodeStep Sample.platform Sample.cache).run (Sample.node 1599) Sample.boundaryRun =
      some t ∧ ¬ OnceOnly t :=
  ⟨exists_of_any (by decide +kernel), exists_of_any (by decide +kernel)⟩

theorem careful_runs_accept_once_sample :
    ∃ t, (nodeStep Sample.platform Sample.cache).run (Sample.node 1100) Sample.carefulRun =
      some t ∧ t.accepted.length = 1 ∧ OnceOnly t := by
  obtain ⟨t, hrun, hlength⟩ :=
    exists_of_any (p := fun t : Node => t.accepted.length = 1)
      (x := (nodeStep Sample.platform Sample.cache).run (Sample.node 1100) Sample.carefulRun)
      (by decide +kernel)
  exact ⟨t, hrun, hlength,
    careful_runs_accept_once Sample.platform Sample.cache ⟨rfl, rfl⟩ (by decide +kernel) hrun⟩

end Rdap.Identity
