import Rdap.Relay.ReplyAcknowledgement
import Rdap.Relay.Settled

/-!
# Delivery of offline replies

What each call of a run owes to the replies: a take returns those that verify and were not
acknowledged, and none that was until it expires; an acknowledgement accepts the lists that
were returned; and no call, wherever it ends, loses a reply that is still pending. An expiry
that is no integer of the document is where the two functions disagree.
-/

set_option autoImplicit false

namespace Rdap.Relay
open Python Protocol Lib Identity Agent

variable {P : Platform} {nameLimit : Nat} {node : RelayNode} {expiry : PyStr → Int}
  {start box t : ReplyBox} {event : ReplyEvent}

/-! ## What is claimed of a step -/

/-- Files stay unless they do not verify or were acknowledged. -/
def Retained (P : Platform) (refused : SlotFile → Prop) (box t : ReplyBox) : Prop :=
  ∀ file ∈ box.home.slot.rows, file ∈ t.home.slot.rows ∨ refused file ∨
    ∃ key e, replyKey P (readEnvelope P file) = some key ∧ (key, e) ∈ t.acknowledged

structure TakeDelivers (P : Platform) (nameLimit : Nat) (node : RelayNode)
    (glances : SlotFile → Glance) (box : ReplyBox) : Prop where
  returns : (takeReplies P nameLimit node glances box).1 = .ok ()
  pending : ∀ file ∈ box.home.slot.rows, (lit ".json").isSuffixOf file.1 = true →
    Verifies P node (glances file) file →
    (∀ key e, replyKey P (readEnvelope P file) = some key → (key, e) ∉ box.acknowledged) →
    verifiedReply P file ∈ (takeReplies P nameLimit node glances box).2.accepted
  once : ∀ reply ∈ (takeReplies P nameLimit node glances box).2.accepted,
    ∃ file ∈ candidates box.home.slot, reply = verifiedReply P file ∧
      ∀ key e, replyKey P reply = some key → (key, e) ∈ box.acknowledged → e ≤ (glances file).seenAt

structure AckDelivers (P : Platform) (cache : ReplayCache) (readings : Dict → Reading)
    (box : ReplyBox) (replies : List Dict) : Prop where
  accepts : Unexpired P readings replies → (ackReplies P cache readings replies box).1 = .ok ()
  settles : (ackReplies P cache readings replies box).1 = .ok () → ∀ reply ∈ replies,
    ∃ key e, replyKey P reply = some key ∧
      (key, e) ∈ (ackReplies P cache readings replies box).2.acknowledged

/-- The claim about an event taken in a box. -/
def Delivers (P : Platform) (nameLimit : Nat) (node : RelayNode) (box : ReplyBox)
    (event : ReplyEvent) (t : ReplyBox) : Prop :=
  match event with
  | .git _ | .tick _ => True
  | .take glances _ => TakeDelivers P nameLimit node glances box ∧
      Retained P (fun file => ¬ Verifies P node (glances file) file) box t
  | .takeCrash glances _ _ => Retained P (fun file => ¬ Verifies P node (glances file) file) box t
  | .ack readings list _ => ∀ replies, box.given[list]? = some replies →
      AckDelivers P node.replay readings box replies ∧ Retained P (fun _ => False) box t
  | .ackCrash _ _ _ _ _ => Retained P (fun _ => False) box t

/-- The condition on an event and the box before it. -/
def EventSound (P : Platform) (nameLimit : Nat) (node : RelayNode) (expiry : PyStr → Int)
    (box : ReplyBox) (event : ReplyEvent) : Prop :=
  match event with
  | .git _ | .tick _ | .takeCrash _ _ _ => True
  | .take glances _ => TakeSound P nameLimit node glances box
  | .ack readings list _ => ∀ replies, box.given[list]? = some replies →
      AckSound P expiry node.replay readings box replies
  | .ackCrash _ list _ _ _ => ∀ replies, box.given[list]? = some replies →
      AckSafe P expiry box replies

/-- Nothing was acknowledged or returned yet. -/
structure ReplyBox.Fresh (box : ReplyBox) : Prop where
  ledger : box.ledger = .empty
  given : box.given = []
  acknowledged : box.acknowledged = []

/-! ## The invariant -/

structure Delivering (P : Platform) (expiry : PyStr → Int) (box : ReplyBox) : Prop where
  coherent : Coherent expiry box.clock box
  made : ∀ replies ∈ box.given, ∀ reply ∈ replies, Made P reply

theorem ReplyBox.Fresh.delivering (h : box.Fresh) : Delivering P expiry box where
  coherent :=
    { rows := fun key e hrow => by simp [h.ledger] at hrow
      live := fun key e hmem => by simp [h.acknowledged] at hmem
      expiries := fun key e hmem => by simp [h.acknowledged] at hmem }
  made replies hmem := by simp [h.given] at hmem

theorem Coherent.sameCache {now : Int} (h : Coherent expiry now box) (hsame : SameCache box t) :
    Coherent expiry now t where
  rows key e hrow := by
    rw [hsame.ledger] at hrow
    rw [hsame.acknowledged]
    exact h.rows key e hrow
  live key e hmem := by
    rw [hsame.acknowledged] at hmem
    rw [hsame.ledger]
    exact h.live key e hmem
  expiries key e hmem := by
    rw [hsame.acknowledged] at hmem
    exact h.expiries key e hmem

theorem glancesWithin_clock {done : Int} {glances : SlotFile → Glance}
    (h : glancesWithin box done glances = true) : box.clock ≤ done ∧
      ∀ file ∈ candidates box.home.slot, box.clock ≤ (glances file).seenAt := by
  simp only [glancesWithin, within, Bool.and_eq_true, decide_eq_true_eq, List.all_eq_true] at h
  exact ⟨h.1, fun file hfile => (h.2 file hfile).2.1⟩

theorem readingsWithin_clock {done : Int} {readings : Dict → Reading} {replies : List Dict}
    (h : readingsWithin box done readings replies = true) : box.clock ≤ done ∧
      ∀ reply ∈ replies, (readings reply).insertAt ≤ done := by
  simp only [readingsWithin, within, Bool.and_eq_true, decide_eq_true_eq, List.all_eq_true] at h
  exact ⟨h.1, fun reply hreply => (h.2 reply hreply).1.2⟩

theorem takeReplies_made {glances : SlotFile → Glance} {u : Unit}
    (hok : (takeReplies P nameLimit node glances box).1 = .ok u) :
    ∀ reply ∈ (takeReplies P nameLimit node glances box).2.accepted, Made P reply := by
  intro reply hreply
  rcases takeOver_taken (P := P) nameLimit node glances
    (List.Subset.refl (candidates box.home.slot)) with ⟨hlarge, _⟩ | htaken
  · unfold takeReplies takeOver at hok
    rw [if_pos hlarge] at hok
    cases hok
  · obtain ⟨file, _, haccepts⟩ := htaken.accepted reply hreply
    obtain ⟨metadata, signature, hsigned⟩ := haccepts.signed
    exact ⟨file, metadata, signature, haccepts.made, hsigned⟩

/-- A step by an acknowledgement, with what its list is known to be. -/
theorem ack_list {readings : Dict → Reading} {list : Nat} {done : Int} {after : List Dict → ReplyBox}
    (hinv : Delivering P expiry box)
    (h : (do
      let replies ← box.given[list]?
      if readingsWithin box done readings replies then some (after replies) else none) = some t) :
    ∃ replies, box.given[list]? = some replies ∧ t = after replies ∧ box.clock ≤ done ∧
      (∀ reply ∈ replies, Made P reply) ∧ ∀ reply ∈ replies, (readings reply).insertAt ≤ done := by
  obtain ⟨replies, hreplies, hstep⟩ := Option.bind_eq_some_iff.mp h
  split at hstep
  · rename_i hreadings
    obtain rfl := Option.some.inj hstep
    obtain ⟨hclock, hinsert⟩ := readingsWithin_clock hreadings
    exact ⟨replies, hreplies, rfl, hclock, hinv.made replies (List.mem_of_getElem? hreplies), hinsert⟩
  · cases hstep

theorem Acknowledging.delivering {done : Int} (hinv : Delivering P expiry box)
    (h : Acknowledging P expiry done box t) : Delivering P expiry { t with clock := done } where
  coherent := { h.coherent with }
  made := by
    rw [h.given]
    exact hinv.made

theorem delivering_step (hsound : EventSound P nameLimit node expiry box event)
    (hinv : Delivering P expiry box) (hstep : replyStep P nameLimit node box event = some t) :
    Delivering P expiry t := by
  cases event with
  | git slot =>
    obtain rfl := Option.some.inj hstep
    exact ⟨{ hinv.coherent with }, hinv.made⟩
  | tick seconds =>
    obtain rfl := Option.some.inj hstep
    have hlater := hinv.coherent.later (Int.le_add_of_nonneg_right (Int.natCast_nonneg seconds))
    exact ⟨{ hlater with }, hinv.made⟩
  | take glances done =>
    simp only [replyStep] at hstep
    split at hstep
    · rename_i hglances
      obtain rfl := Option.some.inj hstep
      have hclock := (glancesWithin_clock hglances).1
      have hsame : SameCache box (takeReplies P nameLimit node glances box).2 :=
        takeOver_sameCache nameLimit node glances (List.Subset.refl _)
      have hcoherent := (hinv.coherent.later hclock).sameCache hsame
      unfold returned
      split
      · rename_i u hok
        refine ⟨{ hcoherent with }, fun replies hmem => ?_⟩
        rcases List.mem_cons.mp hmem with rfl | hold
        · exact takeReplies_made hok
        · rw [hsame.given] at hold
          exact hinv.made replies hold
      · refine ⟨{ hcoherent with }, fun replies hmem => hinv.made replies ?_⟩
        exact hsame.given ▸ hmem
    · cases hstep
  | takeCrash glances done turns =>
    simp only [replyStep] at hstep
    split at hstep
    · rename_i hglances
      obtain rfl := Option.some.inj hstep
      have hclock := (glancesWithin_clock hglances).1
      have hsame := takeOver_sameCache (P := P) nameLimit node glances
        (List.take_subset turns (candidates box.home.slot))
      have hcoherent := (hinv.coherent.later hclock).sameCache hsame
      refine ⟨{ hcoherent with }, fun replies hmem => hinv.made replies ?_⟩
      exact hsame.given ▸ hmem
    · cases hstep
  | ack readings list done =>
    obtain ⟨replies, hreplies, rfl, hclock, hmade, hreadings⟩ := ack_list hinv hstep
    exact (ackReplies_acknowledging hmade hreadings (hsound replies hreplies).toAckSafe
      (hinv.coherent.later hclock)).delivering hinv
  | ackCrash readings list done turns inserted =>
    obtain ⟨replies, hreplies, rfl, hclock, hmade, hreadings⟩ := ack_list hinv hstep
    exact (ackUpTo_acknowledging hmade hreadings (hsound replies hreplies)
      (hinv.coherent.later hclock)).delivering hinv

/-! ## What a step delivers -/

/-- What a take removes did not verify, or was acknowledged. -/
theorem retained_of_excused {glances : SlotFile → Glance} {now : Int} {refused : SlotFile → Prop}
    (hcoherent : Coherent expiry now box) (hacknowledged : t.acknowledged = box.acknowledged)
    (hrefused : ∀ file, ¬ Verifies P node (glances file) file → refused file)
    (h : ∀ file ∈ box.home.slot.rows, file ∈ t.home.slot.rows ∨
      Excused P node glances box.ledger file) : Retained P refused box t := by
  intro file hfile
  rcases h file hfile with hkept | hunverified | ⟨key, hkey, e, hrow, _⟩
  · exact Or.inl hkept
  · exact Or.inr (Or.inl (hrefused file hunverified))
  · refine Or.inr (Or.inr ⟨key, e, hkey, ?_⟩)
    rw [hacknowledged]
    exact hcoherent.rows key e hrow

theorem take_delivers {glances : SlotFile → Glance} {done : Int}
    (hsound : TakeSound P nameLimit node glances box) (hinv : Delivering P expiry box)
    (hglances : glancesWithin box done glances = true) : TakeDelivers P nameLimit node glances box where
  returns := takeReplies_ok hsound
  pending file hfile hname hverifies hunacknowledged := by
    apply takeReplies_pending hsound hfile hname hverifies
    rintro key hkey ⟨e, hrow, _⟩
    exact hunacknowledged key e hkey (hinv.coherent.rows key e hrow)
  once reply hreply := by
    obtain ⟨file, hfile, haccepts⟩ := (takeReplies_taken hsound).accepted reply hreply
    refine ⟨file, hfile, haccepts.made, fun key e hkey hmem => ?_⟩
    have hclock := (glancesWithin_clock hglances).2 file hfile
    rcases hinv.coherent.live key e hmem with hpast | hrow
    · exact Int.le_trans hpast hclock
    · exact Int.not_lt.mp fun hlive => haccepts.unrecorded key hkey ⟨e, hrow, hlive⟩

theorem delivers_step (hsound : EventSound P nameLimit node expiry box event)
    (hinv : Delivering P expiry box) (hstep : replyStep P nameLimit node box event = some t) :
    Delivers P nameLimit node box event t := by
  cases event with
  | git slot => trivial
  | tick seconds => trivial
  | take glances done =>
    simp only [replyStep] at hstep
    split at hstep
    · rename_i hglances
      obtain rfl := Option.some.inj hstep
      refine ⟨take_delivers hsound hinv hglances, ?_⟩
      have hsame : SameCache box (takeReplies P nameLimit node glances box).2 :=
        takeOver_sameCache nameLimit node glances (List.Subset.refl _)
      have hslot := takeOver_slot (P := P) nameLimit node glances
        (List.Subset.refl (candidates box.home.slot))
      unfold returned
      split
      · exact retained_of_excused hinv.coherent hsame.acknowledged (fun _ h => h) hslot
      · exact retained_of_excused hinv.coherent hsame.acknowledged (fun _ h => h) hslot
    · cases hstep
  | takeCrash glances done turns =>
    simp only [replyStep] at hstep
    split at hstep
    · obtain rfl := Option.some.inj hstep
      have hfiles := List.take_subset turns (candidates box.home.slot)
      have hsame := takeOver_sameCache (P := P) nameLimit node glances hfiles
      exact retained_of_excused hinv.coherent hsame.acknowledged (fun _ h => h)
        (takeOver_slot nameLimit node glances hfiles)
    · cases hstep
  | ack readings list done =>
    obtain ⟨replies, hreplies, rfl, hclock, hmade, hreadings⟩ := ack_list hinv hstep
    intro replies' hreplies'
    obtain rfl := Option.some.inj (hreplies.symm.trans hreplies')
    have hack := hsound replies hreplies
    have hlater := hinv.coherent.later hclock
    have hbehind : Acknowledging P expiry done box (ackReplies P node.replay readings replies box).2 :=
      ackReplies_acknowledging hmade hreadings hack.toAckSafe hlater
    refine ⟨⟨ackReplies_ok hmade hreadings hack hlater, fun hok reply hmem => ?_⟩, ?_⟩
    · exact ackReplies_settles hmade hreadings hack.toAckSafe hlater hok hmem
    · exact fun file hfile => (hbehind.slot file hfile).imp_right Or.inr
  | ackCrash readings list done turns inserted =>
    obtain ⟨replies, hreplies, rfl, hclock, hmade, hreadings⟩ := ack_list hinv hstep
    have hbehind : Acknowledging P expiry done box
        (ackUpTo P node.replay readings replies turns inserted box).2 :=
      ackUpTo_acknowledging hmade hreadings (hsound replies hreplies) (hinv.coherent.later hclock)
    exact fun file hfile => (hbehind.slot file hfile).imp_right Or.inr

/-- In a run whose steps are sound every step delivers. -/
theorem offline_replies_delivered {events : List ReplyEvent} (hfresh : start.Fresh)
    (hsound : (replyStep P nameLimit node).Along (EventSound P nameLimit node expiry) start events)
    (hrun : (replyStep P nameLimit node).run start events = some box)
    (hevent : EventSound P nameLimit node expiry box event)
    (hstep : replyStep P nameLimit node box event = some t) : Delivers P nameLimit node box event t :=
  delivers_step hevent
    (Machine.invariant_along (fun hsound hinv hstep => delivering_step hsound hinv hstep) hsound
      hfresh.delivering hrun) hstep

/-! ## Integers and texts -/

theorem takeTurn_of_verified {glances : SlotFile → Glance} {file : SlotFile} {signature key : PyStr}
    (hmalformed : ¬ malformed P file)
    (hcheck : checkReply P node (glances file).policy (glances file).verifyAt
      (.dict (readEnvelope P file)) = .ok signature)
    (hkey : Identity.signatureHash P signature = .ok key)
    (hnew : ¬ Recorded (glances file).seenAt key box.ledger) :
    takeTurn P nameLimit node glances file box =
      (.ok (), { box with accepted := box.accepted ++ [verifiedReply P file] }) := by
  unfold takeTurn
  dsimp only
  rw [if_neg hmalformed, hcheck]
  dsimp only
  rw [seen_eq hkey, decide_eq_false hnew]

namespace Offline

def delegation : DelegationFields := { Identity.Sample.delegation with kind := lit "answer" }

def signed : Bytes := (delegationSigningBytes (Platform.ofTable []) delegation).toOption.getD []

def platform : Platform :=
  Platform.ofTable [(Identity.Sample.key, Identity.Sample.delegationSignature, signed)]

def metadata (v : Value) : Dict :=
  Json.dictSet (Json.dictSet (Identity.Sample.metadata Sample.signature) (lit "kind") (.str (lit "answer")))
    (lit "expires_at") v

/-- The signed reply as a document, with its expiry spelled in one way or another. -/
def document (v : Value) : PyStr :=
  (Json.dumps platform Json.compact (.dict [
    (lit "id", .str (lit "t1")),
    (lit "kind", .str (lit "answer")),
    (lit "from", .str Identity.Sample.address),
    (lit "to", .str Identity.Sample.nodeAddress),
    (lit "text", .str (lit "hello")),
    (lit "raven", .dict (metadata v))])).toOption.getD []

def content (v : Value) : Bytes := (encodeUtf8 (document v)).toOption.getD []

def members (v : Value) : Dict :=
  match Json.loads platform (document v) with
  | .ok (.dict items) => items
  | _ => []

def file (v : Value) : SlotFile := (lit "a.json", content v)

def envelope (v : Value) : Dict := Json.dictSet (members v) (lit "_file") (.str (lit "a.json"))

def glances : SlotFile → Glance := fun _ => { Sample.turn with seenAt := 1100 }

def readings : Dict → Reading := fun _ => ⟨1100, 1100⟩

def waiting (v : Value) : ReplyBox := ⟨1100, Sample.homeWith [file v], .empty, [], [], []⟩

def reply (v : Value) : Dict := Json.dictSet (envelope v) (lit "_verified_reply") (.bool true)

/-- The reply was taken and not yet acknowledged. -/
def given (v : Value) : ReplyBox := { waiting v with accepted := [reply v], given := [[reply v]] }

def take : ReplyEvent := .take glances 1100
def ack : ReplyEvent := .ack readings 0 1100

/-- What there is to compute about a spelling. -/
def computed (v : Value) : Bool :=
  (document v).any isSurrogate = false && (content v).length ≤ maxRelayEnvelopeBytes &&
    !(members v).isEmpty && !truthy (Dict.getD (envelope v) (lit "_parse_error") .none) &&
    ((checkReply platform Sample.node Sample.policy 1100 (.dict (envelope v))).toOption.any fun s =>
      (Identity.signatureHash platform s).isOk) &&
    replyExpiry platform (reply v) = some 1600

theorem candidates_single (content : Bytes) :
    candidates (Sample.homeWith [(lit "a.json", content)]).slot = [(lit "a.json", content)] := rfl

theorem candidates_waiting (v : Value) : candidates (waiting v).home.slot = [file v] := candidates_single (content v)

theorem few_waiting (v : Value) :
    (waiting v).home.slot.count = 1 ∧ (jsonFiles (waiting v).home.slot).length = 1 := ⟨rfl, rfl⟩

theorem acked (v : Value) : ∃ t, replyStep platform 255 Sample.node (given v) ack = some t := ⟨_, rfl⟩

theorem fresh (v : Value) : (waiting v).Fresh := ⟨rfl, rfl, rfl⟩

section
variable {v : Value} (h : computed v = true)
include h

theorem read : readEnvelope platform (file v) = envelope v := by
  simp only [computed, Bool.and_eq_true, decide_eq_true_eq, Bool.not_eq_true'] at h
  obtain ⟨⟨⟨⟨⟨hplain, hlength⟩, hmembers⟩, _⟩, _⟩, _⟩ := h
  have hencoded : encodeUtf8 (document v) = .ok (content v) := by
    simp [content, encodeUtf8, hplain, Except.toOption]
  have hloads : Json.loads platform (document v) = .ok (.dict (members v)) := by
    unfold members at hmembers ⊢
    split <;> simp_all
  exact readEnvelope_of_text hencoded hlength hloads

theorem verified : verifiedReply platform (file v) = reply v := by
  unfold verifiedReply
  rw [read h, reply]

theorem unmarked : ¬ malformed platform (file v) := by
  unfold malformed
  rw [read h]
  simp only [computed, Bool.and_eq_true, Bool.not_eq_true'] at h
  simp [h.1.1.2]

theorem checked : ∃ signature key, checkReply platform Sample.node Sample.policy 1100
    (.dict (readEnvelope platform (file v))) = .ok signature ∧
      Identity.signatureHash platform signature = .ok key := by
  rw [read h]
  simp only [computed, Bool.and_eq_true] at h
  obtain ⟨signature, hcheck, hkey⟩ := (Option.any_eq_true _ _).mp h.1.2
  obtain ⟨key, hkey⟩ := Sample.isOk_iff.mp hkey
  exact ⟨signature, key, toOption_some.mp hcheck, hkey⟩

theorem take_waiting : takeReplies platform 255 Sample.node glances (waiting v) =
    (.ok (), { waiting v with accepted := [reply v] }) := by
  obtain ⟨signature, key, hcheck, hkey⟩ := checked h
  have hfresh : ¬ Recorded 1100 key (waiting v).ledger := by simp [Recorded, waiting]
  have hturn : takeTurn platform 255 Sample.node glances (file v) { waiting v with accepted := [] } =
      (.ok (), { waiting v with accepted := [verifiedReply platform (file v)] }) :=
    takeTurn_of_verified (unmarked h) hcheck hkey hfresh
  rw [verified h] at hturn
  unfold takeReplies takeOver
  rw [if_neg (by rw [(few_waiting v).1]; decide), candidates_waiting]
  simp only [forEach, hturn]

theorem taken : replyStep platform 255 Sample.node (waiting v) take = some (given v) := by
  unfold take replyStep
  dsimp only
  rw [take_waiting h]
  rfl

theorem run_taken : (replyStep platform 255 Sample.node).run (waiting v) [take] = some (given v) :=
  (Machine.run_cons _).mpr ⟨given v, taken h, rfl⟩

theorem unexpired : Unexpired platform readings [reply v] := by
  simp only [computed, Bool.and_eq_true, decide_eq_true_eq] at h
  intro r hr e he
  obtain rfl := List.mem_singleton.mp hr
  obtain rfl := Option.some.inj (h.2.symm.trans he)
  show (1100 : Int) < 1600
  decide

theorem takeSound : TakeSound platform 255 Sample.node glances (waiting v) where
  entries := by rw [(few_waiting v).1]; decide
  few := by rw [(few_waiting v).2]; decide
  readies _ _ := ⟨⟨_, rfl⟩, ⟨_, rfl⟩, Sample.clock⟩
  unpoisoned f hf _ hpoisoned := by
    rw [candidates_waiting] at hf
    obtain rfl := List.mem_singleton.mp hf
    obtain ⟨signature, key, hcheck, _⟩ := checked h
    obtain ⟨e, he⟩ : Raises (checkReply platform Sample.node Sample.policy 1100
        (.dict (readEnvelope platform (file v)))) :=
      (checkReply_raises_iff (readEnvelope_printable platform (file v)) Sample.clock rfl rfl).mpr
        hpoisoned
    rw [hcheck] at he
    cases he
  names before f after hsplit hrefused := by
    rw [candidates_waiting] at hsplit
    have hf : f = file v := by
      have hmem : f ∈ [file v] := hsplit ▸ List.mem_append_right _ List.mem_cons_self
      exact List.mem_singleton.mp hmem
    subst hf
    obtain ⟨signature, key, hcheck, _⟩ := checked h
    rcases hrefused with hmalformed | ⟨reason, hreason⟩
    · exact absurd hmalformed (unmarked h)
    · have hsame := hcheck.symm.trans hreason
      cases hsame

end

/-- What the two spellings differ in. -/
def integral (v : Value) : Bool :=
  match Dict.getD (reply v) (lit "raven") .none with
  | .dict metadata => (asInt (Dict.getD metadata (lit "expires_at") .none)).isSome
  | _ => false

/-- The two spellings, in one evaluation. -/
theorem evaluated : (computed (.int 1600) = true ∧ integral (.int 1600) = true) ∧
    computed (.str (lit "1600")) = true ∧ (replyMetadata (reply (.str (lit "1600")))).isOk = false := by
  decide +kernel

theorem ackSound {v : Value} (h : computed v = true) (hintegral : integral v = true) :
    AckSound platform (fun _ => 1600) Sample.node.replay readings (given v) [reply v] where
  expiries r hr key e _ he := by
    obtain rfl := List.mem_singleton.mp hr
    simp only [computed, Bool.and_eq_true, decide_eq_true_eq] at h
    exact (Option.some.inj (h.2.symm.trans he)).symm
  unreplaced r hr name content' hname hcontent := by
    obtain rfl := List.mem_singleton.mp hr
    rw [← verified h, verifiedReply_file] at hname
    obtain rfl : lit "a.json" = name := Value.str.inj hname
    obtain rfl : content v = content' := Option.some.inj hcontent
    exact verified h
  integers r hr metadata hmetadata := by
    obtain rfl := List.mem_singleton.mp hr
    unfold integral at hintegral
    rw [hmetadata] at hintegral
    exact Option.isSome_iff_exists.mp hintegral
  room before r after hsplit key _ _ := by
    cases before with
    | nil =>
      show activeCount 1100 (.empty : Ledger) < maxReplayEntries
      decide
    | cons first rest => simp at hsplit

end Offline

/-- The verifier reads the text as an integer, and `ack_replies` refuses what it returned. -/
theorem text_expiry_refused : ∃ start box t, start.Fresh ∧
    (replyStep Offline.platform 255 Sample.node).run start [Offline.take] = some box ∧
    replyStep Offline.platform 255 Sample.node box Offline.ack = some t ∧
    ¬ Delivers Offline.platform 255 Sample.node box Offline.ack t := by
  obtain ⟨-, h, hrefused⟩ := Offline.evaluated
  obtain ⟨t, hack⟩ := Offline.acked _
  refine ⟨_, _, t, Offline.fresh _, Offline.run_taken h, hack, fun hdelivers => ?_⟩
  have haccepted := (hdelivers _ rfl).1.accepts (Offline.unexpired h)
  obtain ⟨e, he⟩ : ∃ e, replyMetadata (Offline.reply (.str (lit "1600"))) = .error e := by
    cases hm : replyMetadata (Offline.reply (.str (lit "1600"))) with
    | error e => exact ⟨e, rfl⟩
    | ok m =>
      rw [hm] at hrefused
      cases hrefused
  simp [ackReplies, forEach, ackTurn, andThen, record, he] at haccepted

theorem offline_replies_delivered_sample :
    ∃ start box t, (replyStep Offline.platform 255 Sample.node).run start [Offline.take] = some box ∧
      replyStep Offline.platform 255 Sample.node box Offline.ack = some t ∧
      box.given.length = 1 ∧ Delivers Offline.platform 255 Sample.node box Offline.ack t := by
  obtain ⟨⟨h, hintegral⟩, -⟩ := Offline.evaluated
  obtain ⟨t, hack⟩ := Offline.acked (.int 1600)
  have htake : (replyStep Offline.platform 255 Sample.node).Along
      (EventSound Offline.platform 255 Sample.node fun _ => 1600) (Offline.waiting (.int 1600))
      [Offline.take] := ⟨Offline.takeSound h, fun _ _ => trivial⟩
  have hsound : EventSound Offline.platform 255 Sample.node (fun _ => 1600)
      (Offline.given (.int 1600)) Offline.ack := by
    intro replies hreplies
    obtain rfl := Option.some.inj hreplies
    exact Offline.ackSound h hintegral
  exact ⟨_, _, t, Offline.run_taken h, hack, rfl,
    offline_replies_delivered (Offline.fresh _) htake (Offline.run_taken h) hsound hack⟩

end Rdap.Relay
