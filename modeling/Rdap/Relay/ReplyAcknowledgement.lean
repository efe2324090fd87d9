import Rdap.Relay.ReplyTaking

/-!
# A whole `ack_replies`

The rows of the cache are the pairs that were acknowledged, and as long as its expiry has not
come a pair keeps its row. A turn inserts or finds the row and then removes the file.
-/

set_option autoImplicit false

namespace Rdap.Relay
open Python Protocol Lib Identity Agent

variable {P : Platform} {cache : ReplayCache} {readings : Dict → Reading} {reply : Dict}
  {box s t : ReplyBox} {expiry : PyStr → Int}

/-! ## The cache -/

/-- Rows and acknowledged pairs, at a clock value that calls have not passed. -/
structure Coherent (expiry : PyStr → Int) (now : Int) (box : ReplyBox) : Prop where
  rows : ∀ key e, box.ledger.get? key = some e → (key, e) ∈ box.acknowledged
  live : ∀ key e, (key, e) ∈ box.acknowledged → e ≤ now ∨ box.ledger.get? key = some e
  expiries : ∀ key e, (key, e) ∈ box.acknowledged → e = expiry key

theorem Coherent.later {now later : Int} (h : Coherent expiry now box) (hle : now ≤ later) :
    Coherent expiry later box :=
  { h with live := fun key e hmem => (h.live key e hmem).imp_left fun hpast => Int.le_trans hpast hle }

theorem Coherent.insert {now insertAt : Int} {key : PyStr} (h : Coherent expiry now box)
    (hnow : insertAt ≤ now) (hnew : ¬ Recorded insertAt key box.ledger) :
    Coherent expiry now { box with
      ledger := housekeep insertAt key ((box.ledger.erase key).set key (expiry key))
      acknowledged := (key, expiry key) :: box.acknowledged } where
  rows other e hrow := by
    by_cases hother : other = key
    · subst hother
      rw [get?_admitted_self] at hrow
      obtain rfl := Option.some.inj hrow
      exact List.mem_cons_self
    · have hold : box.ledger.get? other = some e := by
        simp only [housekeep, KeyedTable.get?_filter, KeyedTable.get?_set_ne _ _ hother,
          KeyedTable.get?_erase, hother, if_false, Option.filter_eq_some_iff] at hrow
        exact hrow.1
      exact List.mem_cons_of_mem _ (h.rows other e hold)
  live other e hmem := by
    rcases List.mem_cons.mp hmem with heq | hold
    · obtain ⟨rfl, rfl⟩ := Prod.mk.inj heq
      exact Or.inr (get?_admitted_self insertAt _ _ _)
    · rcases h.live other e hold with hpast | hrow
      · exact Or.inl hpast
      · by_cases hlive : insertAt < e
        · right
          have hother : other ≠ key := by
            rintro rfl
            exact hnew ⟨e, hrow, hlive⟩
          exact get?_admitted_of_live hrow hlive hother
        · exact Or.inl (Int.le_trans (Int.not_lt.mp hlive) hnow)
  expiries other e hmem := by
    rcases List.mem_cons.mp hmem with heq | hold
    · obtain ⟨rfl, rfl⟩ := Prod.mk.inj heq
      rfl
    · exact h.expiries other e hold

/-! ## The metadata of a reply -/

/-- `expires_at` is an integer of the document, not a text or a float. -/
def IntegerExpiry (reply : Dict) : Prop :=
  ∀ metadata, Dict.getD reply (lit "raven") .none = .dict metadata →
    ∃ n, asInt (Dict.getD metadata (lit "expires_at") .none) = some n

/-- A reply that some `take_replies` made of a file. -/
def Made (P : Platform) (reply : Dict) : Prop :=
  ∃ file metadata signature, reply = verifiedReply P file ∧
    SignedBy P (readEnvelope P file) metadata signature

theorem asInt_pyInt {v : Value} {n : Int} (h : asInt v = some n) : pyInt P v = .ok n := by
  cases v with
  | bool b =>
    obtain rfl := Option.some.inj h
    rfl
  | int m =>
    obtain rfl := Option.some.inj h
    rfl
  | none => cases h
  | float bits => cases h
  | str s => cases h
  | list items => cases h
  | dict items => cases h

theorem getD_default {d : Dict} {key : PyStr} (h : Dict.getD d key .none ≠ .none) (default : Value) :
    Dict.getD d key default = Dict.getD d key .none := by
  induction d with
  | nil => exact absurd rfl h
  | cons item rest ih =>
    rw [Json.getD_cons] at h
    rw [Json.getD_cons, Json.getD_cons]
    split
    · rfl
    · rename_i hkey
      rw [if_neg hkey] at h
      exact ih h

theorem verifiedReply_mark (file : SlotFile) :
    Dict.getD (verifiedReply P file) (lit "_verified_reply") .none = .bool true := by
  unfold verifiedReply
  rw [Json.getD_dictSet, if_pos rfl]

theorem verifiedReply_file (file : SlotFile) :
    Dict.getD (verifiedReply P file) (lit "_file") .none = .str file.1 := by
  unfold verifiedReply
  rw [Json.getD_dictSet, if_neg (by decide), readEnvelope_file]

/-- What the metadata of a reply say, when they can be read. -/
structure Describes (P : Platform) (reply : Dict) (m : ReplyMetadata) (key : PyStr) : Prop where
  hash : Identity.signatureHash P m.signature = .ok key
  key : replyKey P reply = some key
  expiry : replyExpiry P reply = some m.expiresAt
  file : Dict.getD reply (lit "_file") .none = .str m.file

theorem describes_of_made (h : Made P reply) {m : ReplyMetadata} (hm : replyMetadata reply = .ok m) :
    ∃ key, Describes P reply m key := by
  obtain ⟨file, metadata, signature, rfl, hfile⟩ := h
  have hsigned := verifiedReply_signed hfile
  obtain ⟨key, hhash, hkey⟩ := hsigned.key
  unfold replyMetadata at hm
  simp only [verifiedReply_mark, verifiedReply_file, hsigned.raven, hsigned.text] at hm
  cases hn : asInt (Dict.getD metadata (lit "expires_at") .none) with
  | none =>
    simp only [hn] at hm
    cases hm
  | some n =>
    simp only [hn, Except.ok.injEq] at hm
    subst hm
    have hpresent : Dict.getD metadata (lit "expires_at") .none ≠ .none := by
      intro hnone
      rw [hnone] at hn
      cases hn
    refine ⟨key, hhash, hkey, ?_, verifiedReply_file file⟩
    unfold replyExpiry getInt
    simp only [hsigned.raven, getD_default hpresent (.int 0), asInt_pyInt hn, Except.toOption]

theorem replyMetadata_of_made (h : Made P reply) (hinteger : IntegerExpiry reply) :
    ∃ m, replyMetadata reply = .ok m := by
  obtain ⟨file, metadata, signature, rfl, hfile⟩ := h
  have hsigned := verifiedReply_signed hfile
  obtain ⟨n, hn⟩ := hinteger metadata hsigned.raven
  refine ⟨⟨signature, n, file.1⟩, ?_⟩
  unfold replyMetadata
  simp only [verifiedReply_mark, verifiedReply_file, hsigned.raven, hsigned.text, hn]

/-! ## One turn -/

/-- No reply that verifies shares its signature with one that has another expiry. -/
def OneExpiryEach (P : Platform) (expiry : PyStr → Int) (reply : Dict) : Prop :=
  ∀ key e, replyKey P reply = some key → replyExpiry P reply = some e → e = expiry key

/-- The file under the name of the reply is gone, or still the one it was made of. -/
def Unreplaced (P : Platform) (box : ReplyBox) (reply : Dict) : Prop :=
  ∀ name content, Dict.getD reply (lit "_file") .none = .str name →
    box.home.slot.get? name = some content → verifiedReply P (name, content) = reply

/-- What is true behind the turns of an acknowledgement that began in a box. -/
structure Acknowledging (P : Platform) (expiry : PyStr → Int) (done : Int) (start box : ReplyBox) :
    Prop where
  coherent : Coherent expiry done box
  given : box.given = start.given
  acknowledged : start.acknowledged ⊆ box.acknowledged
  slot : ∀ file ∈ start.home.slot.rows, file ∈ box.home.slot.rows ∨
    ∃ key e, replyKey P (readEnvelope P file) = some key ∧ (key, e) ∈ box.acknowledged

/-- The two ways in which a signature gets or has its row, and the rest. -/
inductive RecordCase (P : Platform) (reading : Reading) (reply : Dict) (box : ReplyBox) :
    Except PyExc Unit × ReplyBox → Prop
  | inserted (m : ReplyMetadata) (key : PyStr) (hm : replyMetadata reply = .ok m)
      (hdescribes : Describes P reply m key) (hnew : ¬ Recorded reading.insertAt key box.ledger) :
      RecordCase P reading reply box (.ok (), { box with
        ledger := housekeep reading.insertAt key ((box.ledger.erase key).set key m.expiresAt)
        acknowledged := (key, m.expiresAt) :: box.acknowledged })
  | found (m : ReplyMetadata) (key : PyStr) (hm : replyMetadata reply = .ok m)
      (hdescribes : Describes P reply m key) (hseen : Recorded reading.seenAt key box.ledger) :
      RecordCase P reading reply box (.ok (), box)
  | failed (e : PyExc) : RecordCase P reading reply box (.error e, box)

theorem firstTime_cases (cache : ReplayCache) (now : Int) {signature key : PyStr} (expiresAt : Int)
    (db : Ledger) (hkey : Identity.signatureHash P signature = .ok key) :
    (firstTime P cache Identity.noFaults now signature (some expiresAt) db = (.ok false, db) ∧
      (Recorded now key db ∨ cache.maxEntries ≤ activeCount now db)) ∨
    (firstTime P cache Identity.noFaults now signature (some expiresAt) db =
      (.ok true, housekeep now key ((db.erase key).set key expiresAt)) ∧ ¬ Recorded now key db) := by
  by_cases hold : Recorded now key db
  · left
    refine ⟨?_, Or.inl hold⟩
    simp [firstTime, hkey, firstTimeTransaction, Identity.execute, Identity.noFaults, hold, bind, Except.bind,
      pure, Except.pure]
  · by_cases hfull : cache.maxEntries ≤ activeCount now db
    · left
      refine ⟨?_, Or.inr hfull⟩
      simp [firstTime, hkey, firstTimeTransaction, Identity.execute, Identity.noFaults, hold, hfull, bind,
        Except.bind, pure, Except.pure]
    · right
      exact ⟨firstTime_admits P expiresAt hkey hold (Nat.lt_of_not_le hfull), hold⟩

theorem record_cases (cache : ReplayCache) (readings : Dict → Reading) (box : ReplyBox)
    (hmade : Made P reply) :
    RecordCase P (readings reply) reply box (record P cache readings reply box) := by
  unfold record
  cases hm : replyMetadata reply with
  | error e => exact .failed e
  | ok m =>
    obtain ⟨key, hdescribes⟩ := describes_of_made hmade hm
    dsimp only
    rcases firstTime_cases cache (readings reply).insertAt m.expiresAt box.ledger hdescribes.hash with
      ⟨hfirst, _⟩ | ⟨hfirst, hnew⟩
    · rw [hfirst]
      dsimp only
      rw [seen_eq hdescribes.hash]
      by_cases hseen : Recorded (readings reply).seenAt key box.ledger
      · rw [decide_eq_true hseen]
        exact .found m key hm hdescribes hseen
      · rw [decide_eq_false hseen]
        exact .failed _
    · rw [hfirst]
      dsimp only
      rw [hdescribes.hash]
      exact .inserted m key hm hdescribes hnew

theorem record_ok (hmade : Made P reply) (hinteger : IntegerExpiry reply) {done : Int}
    (hcoherent : Coherent expiry done box) (hexpiry : OneExpiryEach P expiry reply)
    (hroom : ∀ key, replyKey P reply = some key → ¬ Recorded (readings reply).insertAt key box.ledger →
      activeCount (readings reply).insertAt box.ledger < cache.maxEntries)
    (hlive : ∀ e, replyExpiry P reply = some e → (readings reply).seenAt < e) :
    (record P cache readings reply box).1 = .ok () := by
  obtain ⟨m, hm⟩ := replyMetadata_of_made hmade hinteger
  obtain ⟨key, hdescribes⟩ := describes_of_made hmade hm
  unfold record
  rw [hm]
  dsimp only
  rcases firstTime_cases cache (readings reply).insertAt m.expiresAt box.ledger hdescribes.hash with
    ⟨hfirst, hwhy⟩ | ⟨hfirst, hnew⟩
  · have hold : Recorded (readings reply).insertAt key box.ledger := by
      by_contra hnew
      rcases hwhy with hold | hfull
      · exact hnew hold
      · have := hroom key hdescribes.key hnew
        omega
    obtain ⟨e, hrow, _⟩ := hold
    -- the row has the expiry of the reply, which has not come
    have he : e = m.expiresAt := by
      rw [hcoherent.expiries key e (hcoherent.rows key e hrow),
        hexpiry key m.expiresAt hdescribes.key hdescribes.expiry]
    have hseen : Recorded (readings reply).seenAt key box.ledger :=
      ⟨e, hrow, he ▸ hlive m.expiresAt hdescribes.expiry⟩
    rw [hfirst]
    dsimp only
    rw [seen_eq hdescribes.hash, decide_eq_true hseen]
  · rw [hfirst]

/-- What a call has acknowledged stays so. -/
theorem record_acknowledged : box.acknowledged ⊆ (record P cache readings reply box).2.acknowledged := by
  unfold record
  split
  · exact List.Subset.refl _
  · dsimp only
    split
    · exact List.Subset.refl _
    · exact List.subset_append_right _ _
    · split <;> exact List.Subset.refl _

theorem removeSource_ok : (removeSource reply box).1 = .ok () := by
  unfold removeSource
  split <;> rfl

theorem removeSource_acknowledged :
    (removeSource reply box).2.acknowledged = box.acknowledged := by
  unfold removeSource
  split <;> rfl

theorem ackTurn_acknowledged :
    box.acknowledged ⊆ (ackTurn P cache readings reply box).2.acknowledged :=
  andThen_preserves (fun s : ReplyBox => box.acknowledged ⊆ s.acknowledged) record_acknowledged
    fun s hs => by
      rw [removeSource_acknowledged]
      exact hs

/-- A turn that runs through has acknowledged its reply. -/
theorem record_settles (hmade : Made P reply) {done : Int} (hcoherent : Coherent expiry done box)
    (hok : (record P cache readings reply box).1 = .ok ()) :
    ∃ key e, replyKey P reply = some key ∧
      (key, e) ∈ (record P cache readings reply box).2.acknowledged := by
  have h := record_cases cache readings box hmade
  cases hresult : record P cache readings reply box with
  | mk result box' =>
    rw [hresult] at h hok
    cases h with
    | inserted m key hm hdescribes hnew =>
      exact ⟨key, m.expiresAt, hdescribes.key, List.mem_cons_self⟩
    | found m key hm hdescribes hseen =>
      obtain ⟨e, hrow, _⟩ := hseen
      exact ⟨key, e, hdescribes.key, hcoherent.rows key e hrow⟩
    | failed e => cases hok

theorem ackTurn_settles (hmade : Made P reply) {done : Int} (hcoherent : Coherent expiry done box)
    (hok : (ackTurn P cache readings reply box).1 = .ok ()) :
    ∃ key e, replyKey P reply = some key ∧
      (key, e) ∈ (ackTurn P cache readings reply box).2.acknowledged := by
  obtain ⟨hrecord, _⟩ := andThen_ok_iff.mp hok
  obtain ⟨key, e, hkey, hsettled⟩ := record_settles hmade hcoherent hrecord
  refine ⟨key, e, hkey, ?_⟩
  unfold ackTurn
  rw [andThen_of_ok hrecord, removeSource_acknowledged]
  exact hsettled

/-! ## The loop -/

theorem record_acknowledging {start : ReplyBox} {done : Int} (hmade : Made P reply)
    (hexpiry : OneExpiryEach P expiry reply) (hreading : (readings reply).insertAt ≤ done)
    (h : Acknowledging P expiry done start box) :
    Acknowledging P expiry done start (record P cache readings reply box).2 := by
  have hcases := record_cases cache readings box hmade
  cases hresult : record P cache readings reply box with
  | mk result box' =>
    rw [hresult] at hcases
    cases hcases with
    | inserted m key hm hdescribes hnew =>
      have he := hexpiry key m.expiresAt hdescribes.key hdescribes.expiry
      rw [he]
      exact {
        coherent := h.coherent.insert hreading hnew
        given := h.given
        acknowledged := fun _ hmem => List.mem_cons_of_mem _ (h.acknowledged hmem)
        slot := fun file hfile => (h.slot file hfile).imp_right fun ⟨other, e, hkey, hmem⟩ =>
          ⟨other, e, hkey, List.mem_cons_of_mem _ hmem⟩ }
    | found => exact h
    | failed => exact h

/-- The removal takes the file that was acknowledged, as nothing else is under its name. -/
theorem removeSource_acknowledging {start : ReplyBox} {done : Int} (hmade : Made P reply)
    (hfile : Unreplaced P start reply)
    (hsettled : ∃ key e, replyKey P reply = some key ∧ (key, e) ∈ box.acknowledged)
    (h : Acknowledging P expiry done start box) :
    Acknowledging P expiry done start (removeSource reply box).2 := by
  unfold removeSource
  split
  · exact h
  · rename_i m hm
    obtain ⟨key, hdescribes⟩ := describes_of_made hmade hm
    refine { h with coherent := { h.coherent with }, slot := fun file hmem => ?_ }
    rcases h.slot file hmem with hkept | hexcused
    · by_cases hname : file.1 = m.file
      · obtain ⟨name, content⟩ := file
        obtain rfl : name = m.file := hname
        have hsame := hfile m.file content hdescribes.file
          ((start.home.slot.get?_eq_some).mpr hmem)
        obtain ⟨key', e, hkey', hacknowledged⟩ := hsettled
        refine Or.inr ⟨key', e, ?_, hacknowledged⟩
        rw [← verifiedReply_key, hsame, hkey']
      · left
        exact List.mem_filter.mpr ⟨hkept, by simpa using hname⟩
    · exact Or.inr hexcused

theorem ackTurn_acknowledging {start : ReplyBox} {done : Int} (hmade : Made P reply)
    (hexpiry : OneExpiryEach P expiry reply) (hreading : (readings reply).insertAt ≤ done)
    (hfile : Unreplaced P start reply) (h : Acknowledging P expiry done start box) :
    Acknowledging P expiry done start (ackTurn P cache readings reply box).2 := by
  have hrecorded : Acknowledging P expiry done start (record P cache readings reply box).2 :=
    record_acknowledging hmade hexpiry hreading h
  unfold ackTurn
  cases hresult : (record P cache readings reply box).1 with
  | error e =>
    rw [andThen_of_error hresult]
    exact hrecorded
  | ok u =>
    rw [andThen_of_ok hresult]
    exact removeSource_acknowledging hmade hfile (record_settles hmade h.coherent hresult) hrecorded

/-- What an acknowledgement needs so that it loses no other reply. -/
structure AckSafe (P : Platform) (expiry : PyStr → Int) (box : ReplyBox) (replies : List Dict) :
    Prop where
  expiries : ∀ reply ∈ replies, OneExpiryEach P expiry reply
  unreplaced : ∀ reply ∈ replies, Unreplaced P box reply

theorem acknowledging_start {done : Int} (h : Coherent expiry done box) :
    Acknowledging P expiry done box box :=
  ⟨h, rfl, List.Subset.refl _, fun _ hfile => Or.inl hfile⟩

theorem ackReplies_acknowledging {done : Int} {replies : List Dict}
    (hmade : ∀ reply ∈ replies, Made P reply)
    (hreadings : ∀ reply ∈ replies, (readings reply).insertAt ≤ done)
    (hsafe : AckSafe P expiry box replies) (h : Coherent expiry done box) :
    Acknowledging P expiry done box (ackReplies P cache readings replies box).2 :=
  forEach_preserves_of_mem (Acknowledging P expiry done box)
    (fun reply hmem _ hs => ackTurn_acknowledging (hmade reply hmem) (hsafe.expiries reply hmem)
      (hreadings reply hmem) (hsafe.unreplaced reply hmem) hs)
    (acknowledging_start h)

theorem AckSafe.take {replies : List Dict} (h : AckSafe P expiry box replies) (turns : Nat) :
    AckSafe P expiry box (replies.take turns) :=
  ⟨fun reply hmem => h.expiries reply (List.mem_of_mem_take hmem),
    fun reply hmem => h.unreplaced reply (List.mem_of_mem_take hmem)⟩

theorem ackUpTo_acknowledging {done : Int} {replies : List Dict} {turns : Nat} {inserted : Bool}
    (hmade : ∀ reply ∈ replies, Made P reply)
    (hreadings : ∀ reply ∈ replies, (readings reply).insertAt ≤ done)
    (hsafe : AckSafe P expiry box replies) (h : Coherent expiry done box) :
    Acknowledging P expiry done box (ackUpTo P cache readings replies turns inserted box).2 := by
  apply andThen_preserves (Acknowledging P expiry done box)
  · exact ackReplies_acknowledging (fun reply hmem => hmade reply (List.mem_of_mem_take hmem))
      (fun reply hmem => hreadings reply (List.mem_of_mem_take hmem)) (hsafe.take turns) h
  · intro s hs
    split
    · rename_i reply hreply
      have hmem := List.mem_of_getElem? hreply
      exact record_acknowledging (hmade reply hmem) (hsafe.expiries reply hmem)
        (hreadings reply hmem) hs
    · exact hs

/-! ## The call that runs through -/

/-- A list that can be acknowledged. -/
structure AckSound (P : Platform) (expiry : PyStr → Int) (cache : ReplayCache)
    (readings : Dict → Reading) (box : ReplyBox) (replies : List Dict) : Prop
    extends AckSafe P expiry box replies where
  integers : ∀ reply ∈ replies, IntegerExpiry reply
  /-- The cache is not full when a row is to be inserted. -/
  room : ∀ before reply after, replies = before ++ reply :: after →
    ∀ key, replyKey P reply = some key →
      ¬ Recorded (readings reply).insertAt key (ackReplies P cache readings before box).2.ledger →
      activeCount (readings reply).insertAt (ackReplies P cache readings before box).2.ledger <
        cache.maxEntries

/-- None of the replies has expired when the cache is asked. -/
def Unexpired (P : Platform) (readings : Dict → Reading) (replies : List Dict) : Prop :=
  ∀ reply ∈ replies, ∀ e, replyExpiry P reply = some e → (readings reply).seenAt < e

theorem ackReplies_ok {done : Int} {replies : List Dict} (hmade : ∀ reply ∈ replies, Made P reply)
    (hreadings : ∀ reply ∈ replies, (readings reply).insertAt ≤ done)
    (hsound : AckSound P expiry cache readings box replies) (h : Coherent expiry done box)
    (hlive : Unexpired P readings replies) :
    (ackReplies P cache readings replies box).1 = .ok () := by
  unfold ackReplies
  rw [forEach_ok_iff]
  intro before reply after hsplit
  have hmem : reply ∈ replies := by
    rw [hsplit]
    exact List.mem_append_right _ List.mem_cons_self
  have hbefore : ∀ other ∈ before, other ∈ replies := fun other hother => by
    rw [hsplit]
    exact List.mem_append_left _ hother
  have hbehind : Acknowledging P expiry done box (ackReplies P cache readings before box).2 :=
    ackReplies_acknowledging (fun other hother => hmade other (hbefore other hother))
      (fun other hother => hreadings other (hbefore other hother))
      ⟨fun other hother => hsound.expiries other (hbefore other hother),
        fun other hother => hsound.unreplaced other (hbefore other hother)⟩ h
  apply andThen_ok_iff.mpr
  exact ⟨record_ok (hmade reply hmem) (hsound.integers reply hmem) hbehind.coherent
    (hsound.expiries reply hmem) (hsound.room before reply after hsplit) (hlive reply hmem),
    removeSource_ok⟩

/-- A call that runs through has acknowledged its whole list. -/
theorem ackReplies_settles {done : Int} {replies : List Dict}
    (hmade : ∀ reply ∈ replies, Made P reply)
    (hreadings : ∀ reply ∈ replies, (readings reply).insertAt ≤ done)
    (hsafe : AckSafe P expiry box replies) (h : Coherent expiry done box)
    (hok : (ackReplies P cache readings replies box).1 = .ok ()) (hmem : reply ∈ replies) :
    ∃ key e, replyKey P reply = some key ∧
      (key, e) ∈ (ackReplies P cache readings replies box).2.acknowledged := by
  obtain ⟨before, after, hsplit⟩ := List.append_of_mem hmem
  have hbefore : ∀ other ∈ before, other ∈ replies := fun other hother => by
    rw [hsplit]
    exact List.mem_append_left _ hother
  have hbehind : Acknowledging P expiry done box (ackReplies P cache readings before box).2 :=
    ackReplies_acknowledging (fun other hother => hmade other (hbefore other hother))
      (fun other hother => hreadings other (hbefore other hother))
      ⟨fun other hother => hsafe.expiries other (hbefore other hother),
        fun other hother => hsafe.unreplaced other (hbefore other hother)⟩ h
  apply forEach_establishes (fun s : ReplyBox => ∃ key e, replyKey P reply = some key ∧
    (key, e) ∈ s.acknowledged)
    (fun _ _ ⟨key, e, hkey, hold⟩ => ⟨key, e, hkey, ackTurn_acknowledged hold⟩) hsplit hok
  exact ackTurn_settles (hmade reply hmem) hbehind.coherent
    ((forEach_ok_iff replies).mp hok before reply after hsplit)

end Rdap.Relay
