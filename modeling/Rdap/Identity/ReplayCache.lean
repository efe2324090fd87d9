import Rdap.Lib.KeyedTable
import Rdap.Python.Codec
import Rdap.Python.Value
import Rdap.Python.Control

/-!
# The durable replay cache

`first_time` is one SQLite transaction over the table `replay_signatures`. Any of its
statements may fail; a failure or a rollback leaves the durable table as it was. Times are
whole seconds, as every comparison of the source is between `int(...)` values.
-/

set_option autoImplicit false

namespace Rdap.Identity
open Python Lib

/-- `signature_hash` to `expires_at`. -/
abbrev Ledger := KeyedTable PyStr Int

def maxReplayEntries : Nat := 8192
def maxDelegationTtlSeconds : Int := 24 * 60 * 60
def maxFutureSkewSeconds : Int := 60

/-- The bounds of a durable cache; the constructor refuses others. -/
structure ReplayCache where
  ttl : Int := maxDelegationTtlSeconds + maxFutureSkewSeconds
  maxEntries : Nat := maxReplayEntries
  bounds_positive : 0 < maxEntries := by decide

/-- The statements of the transaction at which SQLite can report an error. -/
inductive Stage where
  | connect | begin | lookup | count | delete | insert | housekeeping | commit
  deriving DecidableEq, Repr

abbrev Faults := Stage → Bool

def noFaults : Faults := fun _ => false

def execute (faults : Faults) (stage : Stage) : Except Stage Unit :=
  if faults stage then .error stage else .ok ()

theorem execute_ok {faults : Faults} {stage : Stage} {u : Unit} :
    execute faults stage = .ok u ↔ faults stage = false := by
  unfold execute
  split <;> simp_all

/-- `SELECT COUNT(*) ... WHERE expires_at > now` -/
def activeCount (now : Int) (db : Ledger) : Nat := (db.filter fun row => now < row.2).count

/-- `DELETE ... WHERE expires_at <= now AND signature_hash != key` -/
def housekeep (now : Int) (key : PyStr) (db : Ledger) : Ledger :=
  db.filter fun row => now < row.2 || row.1 = key

/-- A live row for the key. -/
def Recorded (now : Int) (key : PyStr) (db : Ledger) : Prop :=
  ∃ expiry, db.get? key = some expiry ∧ now < expiry

instance (now : Int) (key : PyStr) (db : Ledger) : Decidable (Recorded now key db) :=
  match h : db.get? key with
  | none => .isFalse (by simp [Recorded, h])
  | some expiry =>
    if hlt : now < expiry then .isTrue ⟨expiry, h, hlt⟩
    else .isFalse (by
      rintro ⟨e, he, hne⟩
      rw [h] at he
      exact hlt (Option.some.inj he ▸ hne))

/-- The body of the `with` block: the answer and the table to commit. -/
def firstTimeTransaction (maxEntries : Nat) (faults : Faults) (now : Int) (key : PyStr)
    (expiry : Int) (db : Ledger) : Except Stage (Bool × Ledger) := do
  execute faults .connect
  execute faults .begin
  execute faults .lookup
  if Recorded now key db then
    return (false, db)
  execute faults .count
  if activeCount now db ≥ maxEntries then
    return (false, db)
  (if db.contains key then execute faults .delete else pure ())
  execute faults .insert
  execute faults .housekeeping
  execute faults .commit
  return (true, housekeep now key ((db.erase key).set key expiry))

variable (P : Platform)

def signatureHash (signatureB64 : PyStr) : Except PyExc PyStr :=
  (encodeAscii signatureB64).map fun raw => hex (P.sha256 raw)

/-- `ReplayCache.first_time` with the value its own `time.time()` read. -/
def firstTime (cache : ReplayCache) (faults : Faults) (now : Int) (signatureB64 : PyStr)
    (expiresAt : Option Int) (db : Ledger) : Except PyExc Bool × Ledger :=
  match signatureHash P signatureB64 with
  | .error e => (.error e, db)
  | .ok key =>
    match firstTimeTransaction cache.maxEntries faults now key
        (expiresAt.getD (now + cache.ttl)) db with
    | .ok (answer, db') => (.ok answer, db')
    | .error _ => (.ok false, db)

/-- A signature text that decodes is ASCII and so has a key. -/
theorem signatureHash_of_decoded {sig : PyStr} {raw : Bytes} (h : b64decode sig = .ok raw) :
    ∃ key, signatureHash P sig = .ok key := by
  have hascii := b64decode_ascii h
  simp [signatureHash, encodeAscii, hascii, Except.map]

/-! ## What one call does -/

theorem firstTimeTransaction_cases {maxEntries : Nat} {faults : Faults} {now : Int} {key : PyStr}
    {expiry : Int} {db db' : Ledger} {answer : Bool}
    (h : firstTimeTransaction maxEntries faults now key expiry db = .ok (answer, db')) :
    (answer = false ∧ db' = db) ∨
    (answer = true ∧ ¬ Recorded now key db ∧ activeCount now db < maxEntries ∧
      faults .commit = false ∧ db' = housekeep now key ((db.erase key).set key expiry)) := by
  unfold firstTimeTransaction at h
  simp only [bind_ok, execute_ok, exists_const] at h
  obtain ⟨_, _, _, h⟩ := h
  split at h
  · simp only [pure_ok, Prod.mk.injEq] at h
    exact Or.inl ⟨h.1.symm, h.2.symm⟩
  · rename_i hfresh
    simp only [bind_ok, execute_ok, exists_const] at h
    obtain ⟨_, h⟩ := h
    split at h
    · simp only [pure_ok, Prod.mk.injEq] at h
      exact Or.inl ⟨h.1.symm, h.2.symm⟩
    · rename_i hroom
      simp only [bind_ok, execute_ok, exists_const, pure_ok, Prod.mk.injEq] at h
      obtain ⟨_, _, _, _, hcommit, hanswer, htable⟩ := h
      exact Or.inr ⟨hanswer.symm, hfresh, by omega, hcommit, htable.symm⟩

theorem firstTimeTransaction_admits {maxEntries : Nat} {now : Int} {key : PyStr} (expiry : Int)
    {db : Ledger} (hfresh : ¬ Recorded now key db) (hroom : activeCount now db < maxEntries) :
    firstTimeTransaction maxEntries noFaults now key expiry db =
      .ok (true, housekeep now key ((db.erase key).set key expiry)) := by
  have hfull : ¬ activeCount now db ≥ maxEntries := by omega
  simp [firstTimeTransaction, execute, noFaults, hfresh, hfull, bind, Except.bind, pure, Except.pure]

/-- An answer other than `True` leaves the durable table alone. -/
theorem firstTime_rejects {cache : ReplayCache} {faults : Faults} {now : Int} {sig : PyStr}
    {expiresAt : Option Int} {db : Ledger}
    (h : (firstTime P cache faults now sig expiresAt db).1 ≠ .ok true) :
    (firstTime P cache faults now sig expiresAt db).2 = db := by
  unfold firstTime at h ⊢
  cases hk : signatureHash P sig with
  | error e => rfl
  | ok key =>
    simp only [hk] at h ⊢
    cases ht : firstTimeTransaction cache.maxEntries faults now key
        (expiresAt.getD (now + cache.ttl)) db with
    | error stage => rfl
    | ok result =>
      obtain ⟨answer, db'⟩ := result
      simp only [ht] at h ⊢
      rcases firstTimeTransaction_cases ht with ⟨_, rfl⟩ | ⟨rfl, _⟩
      · rfl
      · exact absurd rfl h

/-- A call that accepts found no live row and room for one, and leaves this table. -/
theorem firstTime_accepts {cache : ReplayCache} {faults : Faults} {now expiry : Int}
    {sig key : PyStr} {db db' : Ledger} (hkey : signatureHash P sig = .ok key)
    (h : firstTime P cache faults now sig (some expiry) db = (.ok true, db')) :
    ¬ Recorded now key db ∧ db' = housekeep now key ((db.erase key).set key expiry) := by
  unfold firstTime at h
  simp only [hkey] at h
  split at h
  · rename_i answer db'' ht
    obtain ⟨rfl, rfl⟩ : answer = true ∧ db'' = db' := by simpa using h
    rcases firstTimeTransaction_cases ht with ⟨hfalse, _⟩ | ⟨_, hfresh, _, _, htable⟩
    · cases hfalse
    · exact ⟨hfresh, htable⟩
  · simp at h

theorem firstTime_admits {cache : ReplayCache} {now : Int} {sig key : PyStr} (expiry : Int)
    {db : Ledger} (hkey : signatureHash P sig = .ok key) (hfresh : ¬ Recorded now key db)
    (hroom : activeCount now db < cache.maxEntries) :
    firstTime P cache noFaults now sig (some expiry) db =
      (.ok true, housekeep now key ((db.erase key).set key expiry)) := by
  simp [firstTime, hkey, firstTimeTransaction_admits expiry hfresh hroom]

theorem get?_admitted_self (now expiry : Int) (key : PyStr) (db : Ledger) :
    (housekeep now key ((db.erase key).set key expiry)).get? key = some expiry := by
  simp [housekeep, KeyedTable.get?_filter]

/-- Accepting one signature deletes no other row that is live at the time it read. -/
theorem get?_admitted_of_live {now expiry e : Int} {key other : PyStr} {db : Ledger}
    (hget : db.get? other = some e) (hlive : now < e) (hne : other ≠ key) :
    (housekeep now key ((db.erase key).set key expiry)).get? other = some e := by
  simp [housekeep, KeyedTable.get?_filter, KeyedTable.get?_set_ne _ _ hne, KeyedTable.get?_erase,
    hne, hget, hlive]

end Rdap.Identity
