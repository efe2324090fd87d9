import Rdap.Lib.Machine
import Rdap.Protocol.RatchetChains

/-!
# A session of two ratchets

The two sides encrypt and decrypt in any order. What a side holds is decided by the keys of
the session, by how many messages each chain has carried and by the headers it has accepted.
-/

set_option autoImplicit false

namespace Rdap.Protocol
open Python Lib

/-! ## Runs -/

inductive Side where
  | alice
  | bob
  deriving DecidableEq

def Side.other : Side → Side
  | .alice => .bob
  | .bob => .alice

@[simp] theorem Side.other_other (side : Side) : side.other.other = side := by cases side <;> rfl

theorem Side.other_ne (side : Side) : side.other ≠ side := by cases side <;> simp [Side.other]

theorem Side.eq_or_other (a b : Side) : b = a ∨ b = a.other := by cases a <;> cases b <;> simp [Side.other]

/-- One side, with the headers and message keys it returned on either way. -/
structure Party where
  state : EcDrState
  sent : List (EcHeader × Bytes) := []
  accepted : List (EcHeader × Bytes) := []

structure EcSession where
  alice : Party
  bob : Party
  /-- The public keys that either side has taken. -/
  used : List Bytes

def EcSession.party (s : EcSession) : Side → Party
  | .alice => s.alice
  | .bob => s.bob

def EcSession.setParty (s : EcSession) : Side → Party → EcSession
  | .alice, party => { s with alice := party }
  | .bob, party => { s with bob := party }

@[simp] theorem EcSession.party_setParty (s : EcSession) (side : Side) (party : Party) :
    (s.setParty side party).party side = party := by cases side <;> rfl

@[simp] theorem EcSession.party_setParty_other (s : EcSession) (side : Side) (party : Party) :
    (s.setParty side party).party side.other = s.party side.other := by cases side <;> rfl

@[simp] theorem EcSession.used_setParty (s : EcSession) (side : Side) (party : Party) :
    (s.setParty side party).used = s.used := by cases side <;> rfl

def EcSession.start (alice bob : EcDrState) : EcSession where
  alice := { state := alice }
  bob := { state := bob }
  used := [alice.dhsPub, bob.dhsPub]

/-- A local key that no side has taken before. -/
def EcSession.Fresh (X : X25519) (s : EcSession) : Option Bytes → Prop
  | none => True
  | some priv => ValidPriv priv ∧ X.publicBytes priv ∉ s.used

instance decidableFresh (X : X25519) (s : EcSession) : (priv : Option Bytes) → Decidable (s.Fresh X priv)
  | none => .isTrue trivial
  | some priv => inferInstanceAs (Decidable (ValidPriv priv ∧ X.publicBytes priv ∉ s.used))

inductive EcEvent where
  | encrypt (side : Side)
  | decrypt (side : Side) (header : EcHeader) (maxSkip maxMkskipped : Nat) (newLocalPriv : Option Bytes)

def Party.accept (party : Party) (state : EcDrState) (header : EcHeader) (mk : Bytes) : Party :=
  { party with state := state, accepted := (header, mk) :: party.accepted }

/-- The source never writes to a state that it is given: a call copies the table of skipped keys, works on the
copy and returns a new state. So a call that raises leaves the session as it is. -/
def ecMachine (P : Platform) (X : X25519) : Machine EcSession EcEvent := fun s event =>
  match event with
  | .encrypt side =>
    let party := s.party side
    match ecDrEncrypt P party.state with
    | .ok (state, header, mk) =>
      some (s.setParty side { party with state := state, sent := party.sent ++ [(header, mk)] })
    | .error _ => some s
  | .decrypt side header maxSkip maxMkskipped newLocalPriv =>
    if header ∈ (s.party side.other).sent.map Prod.fst ∧ s.Fresh X newLocalPriv then
      match ecDrDecrypt P X maxSkip maxMkskipped newLocalPriv (s.party side).state header with
      | .ok (state, mk) =>
        some { s.setParty side ((s.party side).accept state header mk) with
          used := state.dhsPub :: s.used }
      | .error _ => some s
    else none

/-! ## Skipped keys -/

variable {P : Platform} {X : X25519} {rk0 : Bytes} {L : List Bytes}

/-- A chain of the session. -/
def InSession (L c : List Bytes) : Prop := c <:+ L ∧ 2 ≤ c.length

theorem InSession.ne_nil {c : List Bytes} (h : InSession L c) : c ≠ [] := by
  rintro rfl
  have hlen := h.2
  simp at hlen

theorem inSession_of_chains {l c : List Bytes} (h : c ∈ chains l) (hl : l <:+ L) : InSession L c :=
  ⟨(mem_chains h).1.trans hl, (mem_chains h).2⟩

/-- The table holds the message keys of exactly these messages. -/
def Stores (P : Platform) (X : X25519) (rk0 : Bytes) (table : KeyedTable Bytes Bytes)
    (S : List Bytes → Nat → Prop) : Prop :=
  ∀ key mk, table.get? key = some mk ↔
    ∃ c n, S c n ∧ mkKey (chainPub X c) n = .ok key ∧ mk = keyAt P X rk0 c n

theorem Stores.congr {table : KeyedTable Bytes Bytes} {S T : List Bytes → Nat → Prop}
    (h : Stores P X rk0 table S) (heq : ∀ c n, S c n ↔ T c n) : Stores P X rk0 table T := by
  intro key mk
  rw [h key mk]
  simp only [heq]

theorem same_message (hL : Apart X L) {c d : List Bytes} {n i : Nat} {key : Bytes}
    (hc : InSession L c) (hd : InSession L d) (hkey : mkKey (chainPub X c) n = .ok key)
    (hkey' : mkKey (chainPub X d) i = .ok key) : c = d ∧ n = i := by
  have hlen : (chainPub X c).length = (chainPub X d).length := by
    rw [hL.chainPub_length hc.1 hc.ne_nil, hL.chainPub_length hd.1 hd.ne_nil]
  obtain ⟨hpub, hindex⟩ := mkKey_injective hlen hkey hkey'
  exact ⟨hL.eq_of_pub hc.1 hd.1 hc.ne_nil hd.ne_nil hpub, hindex⟩

section
variable {table : KeyedTable Bytes Bytes} {S : List Bytes → Nat → Prop} {c : List Bytes} {n : Nat}
  {key : Bytes}

theorem Stores.get?_some (h : Stores P X rk0 table S) (hL : Apart X L)
    (hS : ∀ d i, S d i → InSession L d) (hc : InSession L c)
    (hkey : mkKey (chainPub X c) n = .ok key) {mk : Bytes} (hget : table.get? key = some mk) :
    S c n ∧ mk = keyAt P X rk0 c n := by
  obtain ⟨d, i, hstored, hkey', hmk⟩ := (h key mk).mp hget
  obtain ⟨rfl, rfl⟩ := same_message hL hc (hS d i hstored) hkey hkey'
  exact ⟨hstored, hmk⟩

theorem Stores.get?_of (h : Stores P X rk0 table S) (hstored : S c n)
    (hkey : mkKey (chainPub X c) n = .ok key) : table.get? key = some (keyAt P X rk0 c n) :=
  (h key _).mpr ⟨c, n, hstored, hkey, rfl⟩

theorem Stores.get?_none (h : Stores P X rk0 table S) (hL : Apart X L)
    (hS : ∀ d i, S d i → InSession L d) (hc : InSession L c)
    (hkey : mkKey (chainPub X c) n = .ok key) (hnot : ¬S c n) : table.get? key = none := by
  cases hget : table.get? key with
  | none => rfl
  | some mk => exact absurd (h.get?_some hL hS hc hkey hget).1 hnot

theorem Stores.insert (h : Stores P X rk0 table S) (hL : Apart X L)
    (hS : ∀ d i, S d i → InSession L d) (hc : InSession L c)
    (hkey : mkKey (chainPub X c) n = .ok key) :
    Stores P X rk0 (table.set key (keyAt P X rk0 c n)) fun d i => S d i ∨ d = c ∧ i = n := by
  intro other mk
  rw [KeyedTable.get?_set]
  by_cases hother : other = key
  · rw [if_pos hother, hother]
    constructor
    · intro heq
      exact ⟨c, n, Or.inr ⟨rfl, rfl⟩, hkey, (Option.some.inj heq).symm⟩
    · rintro ⟨d, i, hstored, hkey', rfl⟩
      have hd : InSession L d := by
        rcases hstored with hold | ⟨rfl, -⟩
        · exact hS d i hold
        · exact hc
      obtain ⟨rfl, rfl⟩ := same_message hL hc hd hkey hkey'
      rfl
  · rw [if_neg hother, h other mk]
    constructor
    · rintro ⟨d, i, hstored, hrest⟩
      exact ⟨d, i, Or.inl hstored, hrest⟩
    · rintro ⟨d, i, hold | ⟨rfl, rfl⟩, hkey', hmk⟩
      · exact ⟨d, i, hold, hkey', hmk⟩
      · rw [hkey] at hkey'
        exact absurd (Except.ok.inj hkey').symm hother

theorem Stores.erase (h : Stores P X rk0 table S) (hL : Apart X L)
    (hS : ∀ d i, S d i → InSession L d) (hc : InSession L c)
    (hkey : mkKey (chainPub X c) n = .ok key) :
    Stores P X rk0 (table.erase key) fun d i => S d i ∧ ¬(d = c ∧ i = n) := by
  intro other mk
  rw [KeyedTable.get?_erase]
  by_cases hother : other = key
  · rw [if_pos hother, hother]
    constructor
    · simp
    · rintro ⟨d, i, ⟨hstored, hnot⟩, hkey', -⟩
      obtain ⟨rfl, rfl⟩ := same_message hL hc (hS d i hstored) hkey hkey'
      exact absurd ⟨rfl, rfl⟩ hnot
  · rw [if_neg hother, h other mk]
    constructor
    · rintro ⟨d, i, hstored, hkey', hmk⟩
      refine ⟨d, i, ⟨hstored, ?_⟩, hkey', hmk⟩
      rintro ⟨rfl, rfl⟩
      rw [hkey] at hkey'
      exact hother (Except.ok.inj hkey').symm
    · rintro ⟨d, i, ⟨hstored, -⟩, hrest⟩
      exact ⟨d, i, hstored, hrest⟩

end

theorem insertSkipped_new {cap : Nat} {table table' : KeyedTable Bytes Bytes} {key mk : Bytes}
    (hnone : table.get? key = none) (h : insertSkipped cap table key mk = .ok table') :
    table' = table.set key mk := by
  have hnew : table.contains key = false := by simp [KeyedTable.contains, hnone]
  unfold insertSkipped at h
  rw [hnew] at h
  simp only [Bool.false_eq_true, if_false] at h
  split at h
  · cases h
  · exact (Except.ok.inj h).symm

/-- The loop steps the chain and stores the keys on the way. -/
theorem skipLoop_stores (hL : Apart X L) {c : List Bytes} (hc : InSession L c) {cap steps nr : Nat}
    {table table' : KeyedTable Bytes Bytes} {ck : Bytes} {S : List Bytes → Nat → Prop}
    (hS : ∀ d i, S d i → InSession L d) (hnew : ∀ i, nr ≤ i → ¬S c i)
    (hstores : Stores P X rk0 table S)
    (h : skipLoop P cap (chainPub X c) steps (chainKeyAt P X rk0 c nr) nr table = .ok (ck, table')) :
    ck = chainKeyAt P X rk0 c (nr + steps) ∧
      Stores P X rk0 table' fun d i => S d i ∨ d = c ∧ nr ≤ i ∧ i < nr + steps := by
  induction steps generalizing nr table S with
  | zero =>
    obtain ⟨rfl, rfl⟩ := Prod.mk.inj (Except.ok.inj h)
    refine ⟨rfl, hstores.congr ?_⟩
    intro d i
    constructor
    · exact Or.inl
    · rintro (hold | ⟨-, hge, hlt⟩)
      · exact hold
      · omega
  | succ steps ih =>
    unfold skipLoop at h
    simp only [bind_ok] at h
    obtain ⟨⟨ck', mk⟩, hck, key, hkey, skipped, hinsert, hloop⟩ := h
    rw [kdfCk_of_length (chainKeyAt_length hc.2 nr)] at hck
    obtain ⟨rfl, rfl⟩ := Prod.mk.inj (Except.ok.inj hck)
    have hnone := hstores.get?_none hL hS hc hkey (hnew nr (Nat.le_refl nr))
    obtain rfl := insertSkipped_new hnone hinsert
    have hrest : skipLoop P cap (chainPub X c) steps (chainKeyAt P X rk0 c (nr + 1)) (nr + 1)
        (table.set key (keyAt P X rk0 c nr)) = .ok (ck, table') := hloop
    obtain ⟨hfinal, hstored⟩ := ih (S := fun d i => S d i ∨ d = c ∧ i = nr)
      (by
        rintro d i (hold | ⟨rfl, -⟩)
        · exact hS d i hold
        · exact hc)
      (by
        rintro i hi (hold | ⟨-, rfl⟩)
        · exact hnew i (by omega) hold
        · omega)
      (hstores.insert hL hS hc hkey) hrest
    have hnext : nr + 1 + steps = nr + (steps + 1) := by omega
    rw [hnext] at hfinal hstored
    refine ⟨hfinal, hstored.congr ?_⟩
    intro d i
    constructor
    · rintro ((hold | ⟨rfl, rfl⟩) | ⟨rfl, hge, hlt⟩)
      · exact Or.inl hold
      · exact Or.inr ⟨rfl, by omega, by omega⟩
      · exact Or.inr ⟨rfl, by omega, hlt⟩
    · rintro (hold | ⟨rfl, hge, hlt⟩)
      · exact Or.inl (Or.inl hold)
      · by_cases hi : i = nr
        · exact Or.inl (Or.inr ⟨rfl, hi⟩)
        · exact Or.inr ⟨rfl, by omega, hlt⟩

end Rdap.Protocol
