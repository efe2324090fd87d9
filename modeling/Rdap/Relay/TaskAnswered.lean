import Rdap.Relay.SendTask

/-!
# From a task to its answer

A new task is claimed, run, settled and answered in one turn; a copy of its file that turns up later is
answered with the same reply. The node that sent the task takes the reply.
-/

set_option autoImplicit false

namespace Rdap.Relay
open Python Protocol Lib Identity Agent

variable {P : Platform}

/-! ## Serving -/

/-- The table has room for a task that it does not know. -/
structure Receptive (P : Platform) (signature : PyStr) (claimAt : Int) (db : Outcomes) : Prop where
  unknown : ∀ key, signatureHash P signature = .ok key → (live claimAt db).get? key = none
  room : (live claimAt db).count < maxRelayOutcomes

/-- The table has the reply to a task. -/
structure Answers (P : Platform) (job : Job) (reply : Dict) (db : Outcomes) : Prop where
  settled : ∀ key, signatureHash P job.signature = .ok key →
    Represents P db key job.expiresAt (.settled reply)

/-- Where replies to a task go. -/
def outboxPath (P : Platform) (job : Job) : PyStr × PyStr :=
  (job.sender, hex (P.sha256 (encodeUtf8Replace job.taskId)))

section
variable {carrier : Carrier} {node : RelayNode} {turn : Turn} {job : Job} {home : RelayHome} {key : PyStr}
  {reply : Dict} {payload : Bytes}

theorem claim_new (hkey : signatureHash P job.signature = .ok key)
    (h : Receptive P job.signature turn.claimAt home.outcomes) :
    claim P noFaults turn.claimAt job.signature job.expiresAt home.outcomes =
      (.ok .new, (live turn.claimAt home.outcomes).set key ⟨job.expiresAt, .processing⟩) := by
  have hexecute : ∀ failure statement, execute noFaults failure statement = .ok () := fun _ _ => rfl
  have hroom : ¬ maxRelayOutcomes ≤ (live turn.claimAt home.outcomes).count := Nat.not_le.mpr h.room
  have htransaction : claimTransaction noFaults turn.claimAt key job.expiresAt home.outcomes =
      .ok (none, (live turn.claimAt home.outcomes).set key ⟨job.expiresAt, .processing⟩) := by
    simp only [claimTransaction, hexecute, h.unknown key hkey, ge_iff_le, if_neg hroom, bind, Except.bind, pure,
      Except.pure]
  simp only [claim, hkey, htransaction, foundAnswer]

/-- A claimed row is there to be completed, even behind its expiry. -/
theorem complete_claimed (now : Int) (db : Outcomes) {serialized : PyStr}
    (hkey : signatureHash P job.signature = .ok key) (hserialized : serializeReply P reply = .ok serialized) :
    ∃ outcomes, complete P noFaults now job.signature job.expiresAt reply
        (db.set key ⟨job.expiresAt, .processing⟩) = (.ok (), outcomes) ∧
      outcomes.get? key = some ⟨job.expiresAt, .completed serialized⟩ := by
  have hexecute : ∀ failure statement, execute noFaults failure statement = .ok () := fun _ _ => rfl
  have hkept : (housekept now key (db.set key ⟨job.expiresAt, .processing⟩)).contains key = true := by
    have hrow := KeyedTable.get?_set_self db key (⟨job.expiresAt, .processing⟩ : Outcome)
    simp [housekept, KeyedTable.contains, KeyedTable.get?_filter, hrow]
  refine ⟨(housekept now key (db.set key ⟨job.expiresAt, .processing⟩)).set key
    ⟨job.expiresAt, .completed serialized⟩, ?_, KeyedTable.get?_set_self _ _ _⟩
  have htransaction : completeTransaction noFaults now key job.expiresAt serialized
      (db.set key ⟨job.expiresAt, .processing⟩) =
        .ok ((housekept now key (db.set key ⟨job.expiresAt, .processing⟩)).set key
          ⟨job.expiresAt, .completed serialized⟩) := by
    simp only [completeTransaction, hexecute, hkept, if_true, bind, Except.bind, pure, Except.pure]
  simp only [complete, hserialized, hkey, htransaction]

/-- A task that is new to the table is run, settled and answered. -/
theorem serve_new (carrier : Carrier) (hkey : signatureHash P job.signature = .ok key)
    (hreceptive : Receptive P job.signature turn.claimAt home.outcomes)
    (hbuilt : buildReply P node job.taskId job.sender turn.answer turn.localTime turn.replyAt turn.nonceRaw =
      .ok reply)
    (hstored : ∃ serialized, serializeReply P reply = .ok serialized)
    (hwritten : envelopePayload P reply = .ok payload) :
    ∃ outcomes, Answers P job reply outcomes ∧ serve P carrier node turn job home =
      (.ok (), { home with
        outcomes, runs := job :: home.runs, outbox := (outboxPath P job, reply) :: home.outbox }) := by
  obtain ⟨serialized, hserialized⟩ := hstored
  obtain ⟨outcomes, hcomplete, hrow⟩ :=
    complete_claimed turn.completeAt (live turn.claimAt home.outcomes) hkey hserialized
  have hread : cachedReply P serialized = .ok reply := cachedReply_serialized P (buildReply_plain hbuilt) hserialized
  refine ⟨outcomes, ⟨fun other hother => ?_⟩, ?_⟩
  · obtain rfl := Except.ok.inj (hkey.symm.trans hother)
    exact ⟨serialized, hread, hrow⟩
  · simp only [serve, claim_new hkey hreceptive, conclude, hbuilt, hcomplete, publish, hwritten, outboxPath]

/-- A task that was answered is answered again, without the brain. -/
theorem serve_again (hkey : signatureHash P job.signature = .ok key) (hlive : turn.claimAt < job.expiresAt)
    (hanswers : Answers P job reply home.outcomes) (hwritten : envelopePayload P reply = .ok payload) :
    serve P carrier node turn job home =
      (.ok (), { home with
        outcomes := live turn.claimAt home.outcomes, outbox := (outboxPath P job, reply) :: home.outbox }) := by
  have hexecute : ∀ failure statement, execute noFaults failure statement = .ok () := fun _ _ => rfl
  obtain ⟨serialized, hread, hrow⟩ := (hanswers.settled key hkey).live hlive
  have htransaction : claimTransaction noFaults turn.claimAt key job.expiresAt home.outcomes =
      .ok (some (.completed serialized), live turn.claimAt home.outcomes) := by
    simp only [claimTransaction, hexecute, hrow, bind, Except.bind, pure, Except.pure]
  have hclaim : claim P noFaults turn.claimAt job.signature job.expiresAt home.outcomes =
      (.ok (.completed reply), live turn.claimAt home.outcomes) := by
    simp only [claim, hkey, htransaction, foundAnswer, hread, Except.map]
  simp only [serve, hclaim, publish, hwritten, outboxPath]

/-- A turn for a file that verifies serves it and removes it. -/
theorem inboxTurn_served {nameLimit : Nat} {turns : SlotFile → Turn} {file : SlotFile} {home' : RelayHome}
    (hmalformed : ¬ malformed P file)
    (hpeek : peek P node (turns file).policy (turns file).verifyAt (.dict (readEnvelope P file)) = .ok job)
    (hserve : serve P .inbox node (turns file) job home = (.ok (), home')) :
    inboxTurn P nameLimit node turns file home = (.ok (), { home' with slot := home'.slot.erase file.1 }) := by
  unfold inboxTurn
  dsimp only
  rw [if_neg hmalformed, hpeek]
  simp only [andThen, hserve, unlink]

end

/-! ## Both nodes -/

/-- The node that sent a task takes its reply, as long as it has not acknowledged it. -/
structure ReplyTaken (P : Platform) (client server : RelayNode) (job : Job) (answer : PyStr) (issuedAt : Int)
    (reply : Dict) (payload : Bytes) : Prop where
  text : Dict.getD reply (lit "text") .none = .str (keptAnswer answer)
  taskId : Dict.getD reply (lit "id") .none = .str job.taskId
  taken : ∀ (nameLimit : Nat) (glances : SlotFile → Glance) (name : PyStr) (box : ReplyBox),
    Trusting P (glances (name, payload)).policy server.identity (glances (name, payload)).verifyAt issuedAt
      (issuedAt + maxDelegationTtlSeconds) →
    (∀ key, replyKey P reply = some key → ¬ Recorded (glances (name, payload)).seenAt key box.ledger) →
    takeTurn P nameLimit client glances (name, payload) box =
      (.ok (), { box with accepted := box.accepted ++
        [Json.dictSet (Json.dictSet reply (lit "_file") (.str name)) (lit "_verified_reply") (.bool true)] })

section
variable {client server : RelayNode}

/-- The reply to a task is accepted where the task came from. -/
theorem reply_taken {job : Job} {localTime answer : PyStr} {now : Int} {nonceRaw payload : Bytes} {reply : Dict}
    (hserver : Signs P server.identity.publicBytes server.identity.sign) (hsender : job.sender = client.address P)
    (hsetting : ReplySetting P server job.taskId job.sender localTime now nonceRaw)
    (hbuilt : buildReply P server job.taskId job.sender answer localTime now nonceRaw = .ok reply)
    (hwritten : envelopePayload P reply = .ok payload) :
    ReplyTaken P client server job answer now reply payload := by
  obtain ⟨message, hmessage, hreply⟩ := buildReply_signed hbuilt
  have hplain := buildReply_plain hbuilt
  have hhonest := reply_honest hsetting hserver hmessage
  subst hreply
  have hcarries : Carries (replyOf P server job.taskId job.sender localTime now nonceRaw (keptAnswer answer) message)
      (replyFields P server job.taskId job.sender now nonceRaw (keptAnswer answer))
      (b64encode (server.identity.sign message)) := replyOf_carries
  refine ⟨hcarries.text, hcarries.taskId, fun nameLimit glances name box htrust hnew => ?_⟩
  have hread := readEnvelope_written name hplain hwritten
  have hfile := hcarries.set (.str name)
  rw [← hread] at hfile
  obtain ⟨ascii, hascii, -⟩ := encodeAscii_of_ascii (decodeQuads_b64encode (server.identity.sign message)).2
  have hkey : Identity.signatureHash P (b64encode (server.identity.sign message)) = .ok (hex (P.sha256 ascii)) := by
    rw [Identity.signatureHash, hascii]
    rfl
  have hsigned : replyKey P (replyOf P server job.taskId job.sender localTime now nonceRaw (keptAnswer answer)
      message) = some (hex (P.sha256 ascii)) := by
    unfold replyKey
    rw [hcarries.raven]
    exact toOption_some.mpr hkey
  have hcheck := hhonest.answers client hfile rfl hsender htrust
  rw [takeTurn_of_verified (hfile.readable rfl) hcheck hkey (hnew _ hsigned), verifiedReply, hread]

/-- Copies of the file that turn up later are answered with the same reply, and without the brain. -/
def Repeats (P : Platform) (nameLimit : Nat) (client server : RelayNode) (job : Job) (payload : Bytes)
    (reply : Dict) : Prop :=
  ∀ (turns : SlotFile → Turn) (name : PyStr) (home : RelayHome), Answers P job reply home.outcomes →
    Trusting P (turns (name, payload)).policy client.identity (turns (name, payload)).verifyAt
      (job.expiresAt - maxDelegationTtlSeconds) job.expiresAt →
    (turns (name, payload)).claimAt < job.expiresAt →
    inboxTurn P nameLimit server turns (name, payload) home =
      (.ok (), { home with
        outcomes := live (turns (name, payload)).claimAt home.outcomes
        outbox := (outboxPath P job, reply) :: home.outbox
        slot := home.slot.erase name })

/-- The brain ran once for the task of a file, and the reply to it is settled, published and taken. -/
structure TaskAnswered (P : Platform) (nameLimit : Nat) (client server : RelayNode) (turn : Turn) (job : Job)
    (file : SlotFile) (reply : Dict) (home home' : RelayHome) : Prop where
  ran : home'.runs = job :: home.runs
  removed : home'.slot = home.slot.erase file.1
  outbox : home'.outbox = (outboxPath P job, reply) :: home.outbox
  settled : Answers P job reply home'.outcomes
  taken : ∃ payload, envelopePayload P reply = .ok payload ∧
    ReplyTaken P client server job turn.answer turn.replyAt reply payload
  repeated : Repeats P nameLimit client server job file.2 reply

/-- A task that was sent to a node which trusts its sender, can store and can sign is run once and answered,
and its sender takes the answer. -/
theorem sent_task_answered {text localTime : PyStr} {uuid : Bytes} {now : Int} {nonceRaw payload : Bytes}
    (nameLimit : Nat) (turns : SlotFile → Turn) (name : PyStr)
    (hclient : Signs P client.identity.publicBytes client.identity.sign)
    (hserver : Signs P server.identity.publicBytes server.identity.sign) (hnonce : nonceRaw.length = nonceBytes)
    (hsent : sendTask P client (server.address P) text localTime uuid now nonceRaw = .ok payload)
    (htrust : Trusting P (turns (name, payload)).policy client.identity (turns (name, payload)).verifyAt now
      (now + maxDelegationTtlSeconds))
    (hsetting : ReplySetting P server (freshTaskId uuid) (client.address P) (turns (name, payload)).localTime
      (turns (name, payload)).replyAt (turns (name, payload)).nonceRaw)
    (hfits : ((keptAnswer (turns (name, payload)).answer).map Json.escapedBytes).sum +
      frameBytes P server (freshTaskId uuid) (client.address P) (turns (name, payload)).localTime
        (turns (name, payload)).replyAt ≤ maxRelayEnvelopeBytes) :
    ∃ job : Job, job.sender = client.address P ∧ job.taskId = freshTaskId uuid ∧ job.text = text ∧
      job.expiresAt = now + maxDelegationTtlSeconds ∧
      ∀ home, Receptive P job.signature (turns (name, payload)).claimAt home.outcomes →
        ∃ reply home', inboxTurn P nameLimit server turns (name, payload) home = (.ok (), home') ∧
          TaskAnswered P nameLimit client server (turns (name, payload)) job (name, payload) reply home home' := by
  obtain ⟨hcomponent, htext, hpresent, message, hmessage, hpayload⟩ := sendTask_ok hsent
  have hhonest := task_honest hclient hnonce hsetting.taskId_printable hcomponent htext hpresent hmessage
  have hcarries : Carries (taskOf P client (server.address P) text localTime uuid now nonceRaw message)
      (taskFields P client (server.address P) text uuid now nonceRaw) (b64encode (client.identity.sign message)) :=
    taskOf_carries
  obtain ⟨key, hkey⟩ := signed_hashed (P := P) client.identity message
  refine ⟨⟨b64encode (client.identity.sign message), now + maxDelegationTtlSeconds, client.address P,
    freshTaskId uuid, text⟩, rfl, rfl, rfl, rfl, fun home hreceptive => ?_⟩
  -- whatever a copy of the file is called, it reads as the task
  have hread : ∀ name, Carries (readEnvelope P (name, payload))
      (taskFields P client (server.address P) text uuid now nonceRaw) (b64encode (client.identity.sign message)) := by
    intro name
    rw [readEnvelope_written name taskOf_plain hpayload]
    exact hcarries.set _
  obtain ⟨reply, hreply⟩ := (reply_fits_iff hsetting (turns (name, payload)).answer).mpr hfits
  obtain ⟨replyPayload, hwritten⟩ := hreply.written
  obtain ⟨outcomes, hsettled, hserve⟩ :=
    serve_new .inbox hkey hreceptive hreply.built hreply.stored hwritten
  have hpeek := hhonest.peeked server (hread name) rfl rfl htrust
  refine ⟨reply, _, inboxTurn_served ((hread name).readable rfl) hpeek hserve, ?_⟩
  exact {
    ran := rfl
    removed := rfl
    outbox := rfl
    settled := hsettled
    taken := ⟨replyPayload, hwritten, reply_taken hserver rfl hsetting hreply.built hwritten⟩
    repeated := by
      intro later copy home hanswers htrusting hlive
      have hissued : now + maxDelegationTtlSeconds - maxDelegationTtlSeconds = now := Int.add_sub_cancel _ _
      rw [hissued] at htrusting
      have hpeek := hhonest.peeked server (hread copy) rfl rfl htrusting
      exact inboxTurn_served ((hread copy).readable rfl) hpeek (serve_again hkey hlive hanswers hwritten) }

end

/-! ## Two nodes -/

namespace Exchange

abbrev platform : Platform := Identity.Sample.signingPlatform

def client : RelayNode := ⟨Identity.Sample.signer, Identity.Sample.cache⟩

def server : RelayNode :=
  ⟨⟨Identity.Sample.nodeKey, Identity.Sample.nodeKey_length, Identity.Sample.signature Identity.Sample.nodeKey⟩,
    Identity.Sample.cache⟩

theorem server_signs : Signs platform server.identity.publicBytes server.identity.sign :=
  ⟨Identity.Sample.nodeKey_length, fun _ => beq_self_eq_true _⟩

def uuid : Bytes := List.replicate 16 7

def sent : Except PyExc Bytes :=
  sendTask platform client (server.address platform) (lit "hello") (lit "then") uuid 1000 (List.replicate 16 2)

def policy : Policy := ⟨.ok (.set .empty (client.address platform) (hex client.identity.publicBytes)), .ok []⟩

def turn : Turn := { Sample.turn with policy }

theorem trusting : Trusting platform policy client.identity 1100 1000 (1000 + maxDelegationTtlSeconds) where
  pinned := ⟨_, _, rfl, KeyedTable.get?_set_self _ _ _, fromhex_hex _⟩
  notRevoked := ⟨_, rfl, List.not_mem_nil⟩
  lifetime := ⟨by decide, by decide, by decide, by decide⟩

theorem sent_ok : ∃ payload, sent = .ok payload := by
  have hok : sent.isOk = true := by decide +kernel
  exact Sample.isOk_iff.mp hok

theorem setting : ReplySetting platform server (freshTaskId uuid) (client.address platform) (lit "now") 1100
    (List.replicate 16 1) where
  sender := address_isPeerComponent platform client.identity.publicBytes
  taskId_present := by decide
  taskId_short := by decide
  taskId_printable := by decide
  taskId_clean := by decide
  localTime := by decide
  clock := Sample.clock
  nonce := rfl
  signs message := platform.ed25519_signature_length (server_signs.verifies message)
  depth := by decide

theorem answer_fits : ((keptAnswer (lit "done")).map Json.escapedBytes).sum +
    frameBytes platform server (freshTaskId uuid) (client.address platform) (lit "now") 1100 ≤
      maxRelayEnvelopeBytes := by decide +kernel

end Exchange

theorem sent_task_answered_sample : ∃ payload job reply home',
    Exchange.sent = .ok payload ∧
    inboxTurn Exchange.platform 255 Exchange.server (fun _ => Exchange.turn) (lit "a.json", payload)
      (Sample.homeWith [(lit "a.json", payload)]) = (.ok (), home') ∧
    TaskAnswered Exchange.platform 255 Exchange.client Exchange.server Exchange.turn job (lit "a.json", payload) reply
      (Sample.homeWith [(lit "a.json", payload)]) home' := by
  obtain ⟨payload, hsent⟩ := Exchange.sent_ok
  obtain ⟨job, _, _, _, _, hanswered⟩ := sent_task_answered 255 (fun _ => Exchange.turn) (lit "a.json")
    Identity.Sample.signs Exchange.server_signs rfl hsent Exchange.trusting Exchange.setting Exchange.answer_fits
  have hreceptive : Receptive Exchange.platform job.signature 1100 .empty := ⟨fun _ _ => rfl, by decide⟩
  obtain ⟨reply, home', hturn, hdone⟩ := hanswered (Sample.homeWith [(lit "a.json", payload)]) hreceptive
  exact ⟨payload, job, reply, home', hsent, hturn, hdone⟩

end Rdap.Relay
