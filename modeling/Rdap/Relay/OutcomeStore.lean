import Rdap.Lib.KeyedTable
import Rdap.Lib.OnceCell
import Rdap.Python.JsonRoundTrip

/-!
# Durable relay outcomes

`RelayOutcomeStore` is one SQLite table of claimed and completed deliveries. `claim` and
`complete` are one transaction each, any statement of which may fail and leave the table as
it was. The row of a delivery that has not expired is a claim-once cell.
-/

set_option autoImplicit false

namespace Rdap.Relay
open Python Lib

def maxRelayEnvelopeBytes : Nat := 256 * 1024
def maxRelayOutcomes : Nat := 384

inductive OutcomeState where
  | processing
  | completed (replyJson : PyStr)
  deriving DecidableEq

structure Outcome where
  expiresAt : Int
  state : OutcomeState
  deriving DecidableEq

/-- `signature_hash` to the rest of the row. -/
abbrev Outcomes := KeyedTable PyStr Outcome

/-- The statements at which SQLite can report an error. -/
inductive Statement where
  | connect | begin | delete | select | count | insert | update | commit
  deriving DecidableEq, Repr

abbrev Faults := Statement → Bool

def noFaults : Faults := fun _ => false

def runtimeError {α : Type} (message : PyStr) : Except PyExc α := .error ⟨.runtimeError, message⟩

def execute (faults : Faults) (failure : PyStr) (statement : Statement) : Except PyExc Unit :=
  if faults statement then runtimeError failure else .ok ()

variable (P : Platform)

def signatureHash (signature : PyStr) : Except PyExc PyStr :=
  match encodeAscii signature with
  | .ok encoded => .ok (hex (P.sha256 encoded))
  | .error _ => valueError (lit "relay signature must be ASCII")

/-! ## `claim` -/

/-- The rows that a claim at a clock value keeps. -/
def live (now : Int) (db : Outcomes) : Outcomes := db.filter fun row => now < row.2.expiresAt

/-- The row found, if any, and the table to commit. -/
def claimTransaction (faults : Faults) (now : Int) (key : PyStr) (expiresAt : Int) (db : Outcomes) :
    Except PyExc (Option OutcomeState × Outcomes) := do
  let execute := execute faults (lit "relay outcome database unavailable")
  execute .connect
  execute .begin
  execute .delete
  let db := live now db
  execute .select
  match db.get? key with
  | some row => do
    execute .commit
    return (some row.state, db)
  | none => do
    execute .count
    if db.count ≥ maxRelayOutcomes then
      runtimeError (lit "relay outcome database reached its entry limit")
    else do
      execute .insert
      execute .commit
      return (none, db.set key ⟨expiresAt, .processing⟩)

/-- The reply of a completed row. -/
def cachedReply (replyJson : PyStr) : Except PyExc Dict :=
  match Json.loads P replyJson with
  | .ok (.dict reply) => .ok reply
  | .ok _ => runtimeError (lit "cached relay outcome has an invalid document type")
  | .error e =>
    if e.kind.isValueError then
      runtimeError (lit "cached relay outcome is corrupt; refusing replay")
    else .error e

def foundAnswer : Option OutcomeState → Except PyExc (Answer Dict)
  | none => .ok .new
  | some .processing => .ok .interrupted
  | some (.completed replyJson) => (cachedReply P replyJson).map .completed

/-- `RelayOutcomeStore.claim` at the clock value it reads first. -/
def claim (faults : Faults) (now : Int) (signature : PyStr) (expiresAt : Int) (db : Outcomes) :
    Except PyExc (Answer Dict) × Outcomes :=
  match signatureHash P signature with
  | .error e => (.error e, db)
  | .ok key =>
    match claimTransaction faults now key expiresAt db with
    | .error e => (.error e, db)
    | .ok (found, db') => (foundAnswer P found, db')

/-! ## `complete` -/

/-- The rows that the completion of a key keeps. -/
def housekept (now : Int) (key : PyStr) (db : Outcomes) : Outcomes :=
  db.filter fun row => now < row.2.expiresAt || row.1 = key

def completeTransaction (faults : Faults) (now : Int) (key : PyStr) (expiresAt : Int)
    (serialized : PyStr) (db : Outcomes) : Except PyExc Outcomes := do
  let execute := execute faults (lit "cannot persist relay outcome")
  execute .connect
  execute .begin
  execute .delete
  let db := housekept now key db
  execute .update
  if db.contains key then do
    execute .commit
    return db.set key ⟨expiresAt, .completed serialized⟩
  else runtimeError (lit "relay outcome claim disappeared before completion")

def serializeReply (reply : Dict) : Except PyExc PyStr := do
  let serialized ← Json.dumps P Json.compact (.dict reply)
  let encoded ← encodeUtf8 serialized
  if encoded.length > maxRelayEnvelopeBytes then
    valueError (lit "cached relay outcome exceeds the compiled byte limit")
  else return serialized

/-- `RelayOutcomeStore.complete` at the clock value its transaction reads. -/
def complete (faults : Faults) (now : Int) (signature : PyStr) (expiresAt : Int) (reply : Dict)
    (db : Outcomes) : Except PyExc Unit × Outcomes :=
  match serializeReply P reply with
  | .error e => (.error e, db)
  | .ok serialized =>
    match signatureHash P signature with
    | .error e => (.error e, db)
    | .ok key =>
      match completeTransaction faults now key expiresAt serialized db with
      | .error e => (.error e, db)
      | .ok db' => (.ok (), db')

/-! ## What one call does -/

theorem execute_ok {faults : Faults} {failure : PyStr} {statement : Statement} {u : Unit} :
    execute faults failure statement = .ok u ↔ faults statement = false := by
  unfold execute
  split <;> simp_all [runtimeError]

theorem claimTransaction_ok {faults : Faults} {now : Int} {key : PyStr} {expiresAt : Int}
    {db db' : Outcomes} {found : Option OutcomeState}
    (h : claimTransaction faults now key expiresAt db = .ok (found, db')) :
    (∃ row, (live now db).get? key = some row ∧ found = some row.state ∧ db' = live now db) ∨
    ((live now db).get? key = none ∧ found = none ∧
      db' = (live now db).set key ⟨expiresAt, .processing⟩) := by
  simp only [claimTransaction, bind_ok, execute_ok, exists_const] at h
  obtain ⟨_, _, _, _, h⟩ := h
  split at h
  · rename_i row hrow
    simp only [bind_ok, execute_ok, exists_const, pure_ok, Prod.mk.injEq] at h
    exact Or.inl ⟨row, hrow, h.2.1.symm, h.2.2.symm⟩
  · rename_i hnone
    simp only [bind_ok, execute_ok, exists_const] at h
    obtain ⟨_, h⟩ := h
    split at h
    · cases h
    · simp only [bind_ok, execute_ok, exists_const, pure_ok, Prod.mk.injEq] at h
      exact Or.inr ⟨hnone, h.2.2.1.symm, h.2.2.2.symm⟩

theorem completeTransaction_ok {faults : Faults} {now : Int} {key : PyStr} {expiresAt : Int}
    {serialized : PyStr} {db db' : Outcomes}
    (h : completeTransaction faults now key expiresAt serialized db = .ok db') :
    (∃ row, (housekept now key db).get? key = some row) ∧
      db' = (housekept now key db).set key ⟨expiresAt, .completed serialized⟩ := by
  simp only [completeTransaction, bind_ok, execute_ok, exists_const] at h
  obtain ⟨_, _, _, _, h⟩ := h
  split at h
  · rename_i hrow
    simp only [bind_ok, execute_ok, exists_const, pure_ok] at h
    exact ⟨Option.isSome_iff_exists.mp hrow, h.2.symm⟩
  · cases h

/-- The three answers of `claim`, and what is known of the table otherwise. -/
theorem claim_cases {faults : Faults} {now : Int} {signature key : PyStr} {expiresAt : Int}
    {db db' : Outcomes} {answer : Except PyExc (Answer Dict)}
    (hkey : signatureHash P signature = .ok key)
    (h : claim P faults now signature expiresAt db = (answer, db')) :
    (answer = .ok .new ∧ (live now db).get? key = none ∧
      db' = (live now db).set key ⟨expiresAt, .processing⟩) ∨
    (db' = live now db ∧ ∃ row, (live now db).get? key = some row ∧
      answer = foundAnswer P (some row.state)) ∨
    (db' = db ∧ ∃ e, answer = .error e) := by
  unfold claim at h
  simp only [hkey] at h
  split at h
  · rename_i e _
    simp only [Prod.mk.injEq] at h
    exact Or.inr (Or.inr ⟨h.2.symm, e, h.1.symm⟩)
  · rename_i found db'' htransaction
    simp only [Prod.mk.injEq] at h
    obtain ⟨rfl, rfl⟩ := h
    rcases claimTransaction_ok htransaction with ⟨row, hrow, rfl, rfl⟩ | ⟨hnone, rfl, rfl⟩
    · exact Or.inr (Or.inl ⟨rfl, row, hrow, rfl⟩)
    · exact Or.inl ⟨rfl, hnone, rfl⟩

theorem claim_of_unhashable {faults : Faults} {now : Int} {signature : PyStr} {expiresAt : Int}
    {db : Outcomes} {e : PyExc} (hkey : signatureHash P signature = .error e) :
    claim P faults now signature expiresAt db = (.error e, db) := by
  simp [claim, hkey]

theorem serializeReply_ok {reply : Dict} {serialized : PyStr}
    (h : serializeReply P reply = .ok serialized) :
    Json.dumps P Json.compact (.dict reply) = .ok serialized := by
  simp only [serializeReply, bind_ok] at h
  obtain ⟨text, htext, encoded, _, h⟩ := h
  split at h
  · cases h
  · rw [pure_ok] at h
    rwa [h] at htext

/-- A plain reply comes back from its row as it was. -/
theorem cachedReply_serialized {reply : Dict} {serialized : PyStr}
    (hplain : Json.Plain (.dict reply)) (h : serializeReply P reply = .ok serialized) :
    cachedReply P serialized = .ok reply := by
  simp [cachedReply, Json.loads_dumps hplain (serializeReply_ok P h)]

theorem complete_ok {faults : Faults} {now : Int} {signature : PyStr} {expiresAt : Int}
    {reply : Dict} {db db' : Outcomes}
    (h : complete P faults now signature expiresAt reply db = (.ok (), db')) :
    ∃ serialized key, serializeReply P reply = .ok serialized ∧
      signatureHash P signature = .ok key ∧
      (∃ row, (housekept now key db).get? key = some row) ∧
      db' = (housekept now key db).set key ⟨expiresAt, .completed serialized⟩ := by
  unfold complete at h
  split at h
  · simp at h
  · rename_i serialized hserialized
    split at h
    · simp at h
    · rename_i key hkey
      split at h
      · simp at h
      · rename_i db'' htransaction
        simp only [Prod.mk.injEq, true_and] at h
        subst h
        obtain ⟨hrow, hdb⟩ := completeTransaction_ok htransaction
        exact ⟨serialized, key, hserialized, hkey, hrow, hdb⟩

theorem complete_error {faults : Faults} {now : Int} {signature : PyStr} {expiresAt : Int}
    {reply : Dict} {db db' : Outcomes} {e : PyExc}
    (h : complete P faults now signature expiresAt reply db = (.error e, db')) : db' = db := by
  unfold complete at h
  split at h
  · exact (congrArg Prod.snd h).symm
  · split at h
    · exact (congrArg Prod.snd h).symm
    · split at h
      · exact (congrArg Prod.snd h).symm
      · simp at h

/-! ## The row of a delivery as a cell -/

/-- The table has the cell of a delivery in a given state. -/
def Represents (db : Outcomes) (key : PyStr) (expiresAt : Int) : Cell Dict → Prop
  | .fresh => db.get? key = none
  | .taken => db.get? key = some ⟨expiresAt, .processing⟩
  | .settled reply => ∃ replyJson, cachedReply P replyJson = .ok reply ∧
      db.get? key = some ⟨expiresAt, .completed replyJson⟩

variable {P}

/-- Only the row of the key matters, and that by being there before the expiry. -/
theorem Represents.filter {db : Outcomes} {key : PyStr} {expiresAt : Int} {cell : Cell Dict}
    (h : Represents P db key expiresAt cell) (p : PyStr × Outcome → Bool)
    (hp : ∀ state, p (key, ⟨expiresAt, state⟩) = true) :
    Represents P (db.filter p) key expiresAt cell := by
  cases cell with
  | fresh =>
    have hnone : db.get? key = none := h
    simp [Represents, KeyedTable.get?_filter, hnone]
  | taken =>
    have hrow : db.get? key = some ⟨expiresAt, .processing⟩ := h
    simp [Represents, KeyedTable.get?_filter, hrow, hp]
  | settled reply =>
    obtain ⟨replyJson, hreply, hrow⟩ := h
    exact ⟨replyJson, hreply, by simp [KeyedTable.get?_filter, hrow, hp]⟩

theorem Represents.set_other {db : Outcomes} {key other : PyStr} {expiresAt : Int}
    {cell : Cell Dict} (h : Represents P db key expiresAt cell) (hne : key ≠ other)
    (row : Outcome) : Represents P (db.set other row) key expiresAt cell := by
  cases cell with
  | fresh => exact (KeyedTable.get?_set_ne db row hne).trans h
  | taken => exact (KeyedTable.get?_set_ne db row hne).trans h
  | settled reply =>
    obtain ⟨replyJson, hreply, hrow⟩ := h
    exact ⟨replyJson, hreply, (KeyedTable.get?_set_ne db row hne).trans hrow⟩

theorem Represents.live {db : Outcomes} {key : PyStr} {expiresAt now : Int} {cell : Cell Dict}
    (h : Represents P db key expiresAt cell) (hnow : now < expiresAt) :
    Represents P (live now db) key expiresAt cell :=
  h.filter _ fun _ => by simpa using hnow

/-- A claim of the delivery before its expiry is answered as its cell says. -/
theorem claim_represents {faults : Faults} {now : Int} {signature key : PyStr} {expiresAt : Int}
    {db db' : Outcomes} {answer : Answer Dict} {cell : Cell Dict}
    (hkey : signatureHash P signature = .ok key) (hnow : now < expiresAt)
    (hcell : Represents P db key expiresAt cell)
    (h : claim P faults now signature expiresAt db = (.ok answer, db')) :
    answer = cell.answer ∧ Represents P db' key expiresAt cell.claim := by
  have hlive := hcell.live hnow
  rcases claim_cases P hkey h with ⟨hanswer, hnone, rfl⟩ | ⟨rfl, row, hrow, hanswer⟩ | ⟨_, e, he⟩
  · obtain rfl : answer = .new := Except.ok.inj hanswer
    cases cell with
    | fresh => exact ⟨rfl, KeyedTable.get?_set_self _ _ _⟩
    | taken =>
      have hsome : (Relay.live now db).get? key = _ := hlive
      simp [hnone] at hsome
    | settled reply =>
      obtain ⟨_, _, hsome⟩ := hlive
      simp [hnone] at hsome
  · cases cell with
    | fresh =>
      have hnone : (Relay.live now db).get? key = none := hlive
      simp [hnone] at hrow
    | taken =>
      have hsome : (Relay.live now db).get? key = _ := hlive
      obtain rfl : (⟨expiresAt, .processing⟩ : Outcome) = row :=
        Option.some.inj (hsome.symm.trans hrow)
      exact ⟨Except.ok.inj hanswer, hlive⟩
    | settled reply =>
      obtain ⟨replyJson, hreply, hsome⟩ := hlive
      obtain rfl : (⟨expiresAt, .completed replyJson⟩ : Outcome) = row :=
        Option.some.inj (hsome.symm.trans hrow)
      simp only [foundAnswer, hreply, Except.map] at hanswer
      exact ⟨Except.ok.inj hanswer, replyJson, hreply, hsome⟩
  · simp at he

/-- A claim of another delivery, or a failing one, leaves the cell as it is. -/
theorem claim_preserves {faults : Faults} {now : Int} {signature key : PyStr}
    {expiresAt expiresAt' : Int} {db db' : Outcomes} {answer : Except PyExc (Answer Dict)}
    {cell : Cell Dict} (hnow : now < expiresAt) (hcell : Represents P db key expiresAt cell)
    (hother : signatureHash P signature ≠ .ok key ∨ ∃ e, answer = .error e)
    (h : claim P faults now signature expiresAt' db = (answer, db')) :
    Represents P db' key expiresAt cell := by
  cases hhash : signatureHash P signature with
  | error e =>
    rw [claim_of_unhashable P hhash] at h
    rw [← (Prod.mk.inj h).2]
    exact hcell
  | ok other =>
    rcases claim_cases P hhash h with ⟨hnew, _, rfl⟩ | ⟨rfl, _⟩ | ⟨rfl, _⟩
    · apply (hcell.live hnow).set_other
      rintro rfl
      rcases hother with hne | ⟨e, he⟩
      · exact hne hhash
      · simp [he] at hnew
    · exact hcell.live hnow
    · exact hcell

theorem Represents.housekept {db : Outcomes} {key other : PyStr} {expiresAt now : Int}
    {cell : Cell Dict} (h : Represents P db key expiresAt cell)
    (hnow : now < expiresAt ∨ key = other) :
    Represents P (housekept now other db) key expiresAt cell :=
  h.filter _ fun _ => by simpa using hnow

/-- A completion of the delivery settles its cell, which was not fresh. -/
theorem complete_represents {faults : Faults} {now : Int} {signature key : PyStr} {expiresAt : Int}
    {reply : Dict} {db db' : Outcomes} {cell : Cell Dict}
    (hkey : signatureHash P signature = .ok key) (hplain : Json.Plain (.dict reply))
    (hcell : Represents P db key expiresAt cell)
    (h : complete P faults now signature expiresAt reply db = (.ok (), db')) :
    cell ≠ .fresh ∧ Represents P db' key expiresAt (.settled reply) := by
  obtain ⟨serialized, other, hserialized, hother, ⟨row, hrow⟩, rfl⟩ := complete_ok P h
  obtain rfl : key = other := Except.ok.inj (hkey.symm.trans hother)
  constructor
  · rintro rfl
    have hnone : (Relay.housekept now key db).get? key = none := hcell.housekept (Or.inr rfl)
    simp [hnone] at hrow
  · exact ⟨serialized, cachedReply_serialized P hplain hserialized, KeyedTable.get?_set_self _ _ _⟩

theorem complete_preserves {faults : Faults} {now : Int} {signature key : PyStr}
    {expiresAt expiresAt' : Int} {reply : Dict} {db db' : Outcomes} {cell : Cell Dict}
    {answer : Except PyExc Unit} (hnow : now < expiresAt)
    (hcell : Represents P db key expiresAt cell)
    (hother : signatureHash P signature ≠ .ok key ∨ ∃ e, answer = .error e)
    (h : complete P faults now signature expiresAt' reply db = (answer, db')) :
    Represents P db' key expiresAt cell := by
  cases answer with
  | error e => rwa [complete_error P h]
  | ok u =>
    obtain ⟨serialized, other, _, hhash, _, rfl⟩ := complete_ok P h
    apply (hcell.housekept (Or.inl hnow)).set_other
    rintro rfl
    rcases hother with hne | ⟨e, he⟩
    · exact hne hhash
    · cases he

end Rdap.Relay
