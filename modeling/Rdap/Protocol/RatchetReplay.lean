import Rdap.Protocol.RatchetAgreement

/-!
# Replayed headers

A header whose key was returned is refused by its index, as long as its chain is the present
one. The header of an older chain is refused only by the counters it carries.
-/

set_option autoImplicit false

namespace Rdap.Protocol
open Python Lib

variable {P : Platform} {X : X25519} {rk0 : Bytes} {L l : List Bytes} {count : List Bytes → Nat}
  {lead : Side} {s : EcSession}

/-! ## Room for skipped keys -/

/-- How many keys a skip of so many messages adds to the table. -/
def newKeys (table : KeyedTable Bytes Bytes) (dhPub : Bytes) : Nat → Nat → Nat
  | _, 0 => 0
  | nr, steps + 1 =>
    (if table.contains (dhPub ++ bigEndian 4 nr) = true then 0 else 1) +
      newKeys table dhPub (nr + 1) steps

theorem newKeys_congr {table table' : KeyedTable Bytes Bytes} {dhPub : Bytes} {nr steps : Nat}
    (h : ∀ i, nr ≤ i → i < nr + steps →
      table.contains (dhPub ++ bigEndian 4 i) = table'.contains (dhPub ++ bigEndian 4 i)) :
    newKeys table dhPub nr steps = newKeys table' dhPub nr steps := by
  induction steps generalizing nr with
  | zero => rfl
  | succ steps ih =>
    unfold newKeys
    rw [h nr (Nat.le_refl nr) (by omega), ih]
    intro i hge hlt
    exact h i (by omega) (by omega)

theorem newKeys_of_absent {table : KeyedTable Bytes Bytes} {dhPub : Bytes} {nr steps : Nat}
    (h : ∀ i, nr ≤ i → i < nr + steps → table.contains (dhPub ++ bigEndian 4 i) = false) :
    newKeys table dhPub nr steps = steps := by
  induction steps generalizing nr with
  | zero => rfl
  | succ steps ih =>
    unfold newKeys
    rw [h nr (Nat.le_refl nr) (by omega), ih]
    · simp only [Bool.false_eq_true, if_false]
      omega
    · intro i hge hlt
      exact h i (by omega) (by omega)

theorem count_set_of_absent {table : KeyedTable Bytes Bytes} {key mk : Bytes}
    (h : table.contains key = false) : (table.set key mk).count = table.count + 1 := by
  have habsent : table.get? key = none := by simpa [KeyedTable.contains] using h
  rw [KeyedTable.count_eq_weight, KeyedTable.count_eq_weight,
    KeyedTable.weight_set_of_absent table mk _ habsent]

theorem contains_set_ne {table : KeyedTable Bytes Bytes} {dhPub mk : Bytes} {nr i : Nat}
    (hnr : nr < 2 ^ 32) (hi : i < 2 ^ 32) (hne : i ≠ nr) :
    (table.set (dhPub ++ bigEndian 4 nr) mk).contains (dhPub ++ bigEndian 4 i) =
      table.contains (dhPub ++ bigEndian 4 i) := by
  unfold KeyedTable.contains
  rw [KeyedTable.get?_set_ne]
  intro heq
  apply hne
  exact bigEndian_injective (w := 4) (by omega) (by omega) (List.append_cancel_left heq)

/-- A loop that goes through found room for every key it added. -/
theorem skipLoop_room {cap steps nr : Nat} {dhPub ck ck' : Bytes}
    {table table' : KeyedTable Bytes Bytes} (hindex : nr + steps ≤ 2 ^ 32)
    (h : skipLoop P cap dhPub steps ck nr table = .ok (ck', table')) :
    table'.count = table.count + newKeys table dhPub nr steps ∧
      (newKeys table dhPub nr steps = 0 ∨ table'.count ≤ cap) := by
  induction steps generalizing nr ck table with
  | zero =>
    obtain ⟨-, rfl⟩ := Prod.mk.inj (Except.ok.inj h)
    exact ⟨rfl, Or.inl rfl⟩
  | succ steps ih =>
    unfold skipLoop at h
    simp only [bind_ok] at h
    obtain ⟨⟨next, mk⟩, -, key, hkey, table₁, hinsert, hloop⟩ := h
    obtain ⟨hnr, rfl⟩ := mkKey_ok.mp hkey
    obtain ⟨hcount, hroom⟩ := ih (by omega) hloop
    unfold newKeys
    unfold insertSkipped at hinsert
    split at hinsert
    · rename_i hold
      obtain rfl := Except.ok.inj hinsert
      rw [if_pos hold]
      omega
    · rename_i hnew
      split at hinsert
      · cases hinsert
      rename_i hspace
      obtain rfl := Except.ok.inj hinsert
      have hadded : (table.set (dhPub ++ bigEndian 4 nr) mk).count = table.count + 1 :=
        count_set_of_absent (by simpa using hnew)
      have hlater : newKeys (table.set (dhPub ++ bigEndian 4 nr) mk) dhPub (nr + 1) steps =
          newKeys table dhPub (nr + 1) steps := by
        apply newKeys_congr
        intro i hge hlt
        exact contains_set_ne hnr (by omega) (by omega)
      rw [if_neg hnew]
      rw [hadded, hlater] at hcount
      rw [hlater] at hroom
      omega

def IsValueError {α : Type} (r : Except PyExc α) : Prop := ∃ message, r = .error ⟨.valueError, message⟩

theorem isValueError_orRaise {c : Prop} [Decidable c] {message : PyStr} {α : Type}
    {f : Unit → Except PyExc α} (h : ¬c) : IsValueError (orRaise c message >>= f) := by
  refine ⟨message, ?_⟩
  unfold orRaise
  rw [if_neg h]
  rfl

theorem insertSkipped_raises {cap : Nat} {table : KeyedTable Bytes Bytes} {key mk : Bytes} {e : PyExc}
    (h : insertSkipped cap table key mk = .error e) : e.kind = .valueError := by
  unfold insertSkipped at h
  split at h
  · cases h
  split at h
  · obtain rfl := Except.error.inj h
    rfl
  · cases h

theorem skipLoop_raises {cap steps nr : Nat} {dhPub ck : Bytes} {table : KeyedTable Bytes Bytes}
    {e : PyExc} (hck : ck.length = 32) (hindex : nr + steps ≤ 2 ^ 32)
    (h : skipLoop P cap dhPub steps ck nr table = .error e) : e.kind = .valueError := by
  induction steps generalizing nr ck table with
  | zero => cases h
  | succ steps ih =>
    have hkey : mkKey dhPub nr = .ok (dhPub ++ bigEndian 4 nr) := if_pos (by omega)
    unfold skipLoop at h
    rw [kdfCk_of_length hck] at h
    simp only [bind, Except.bind, hkey] at h
    split at h
    · rename_i hinsert
      obtain rfl := Except.error.inj h
      exact insertSkipped_raises hinsert
    · exact ih (nextChainKey_length ck) (by omega) h

/-- A loop whose first new keys do not fit raises before it comes to any later one. -/
theorem skipLoop_overfull {cap steps m nr : Nat} {dhPub ck : Bytes} {table : KeyedTable Bytes Bytes}
    (hck : ck.length = 32) (hm : 0 < m) (hle : m ≤ steps) (hindex : nr + m ≤ 2 ^ 32)
    (hnew : ∀ i, nr ≤ i → i < nr + m → table.contains (dhPub ++ bigEndian 4 i) = false)
    (hfull : cap < table.count + m) : IsValueError (skipLoop P cap dhPub steps ck nr table) := by
  induction m generalizing nr ck table steps with
  | zero => omega
  | succ m ih =>
    obtain ⟨steps, rfl⟩ : ∃ rest, steps = rest + 1 := ⟨steps - 1, by omega⟩
    have hkey : mkKey dhPub nr = .ok (dhPub ++ bigEndian 4 nr) := if_pos (by omega)
    have hfirst := hnew nr (Nat.le_refl nr) (by omega)
    unfold skipLoop
    rw [kdfCk_of_length hck]
    simp only [bind, Except.bind, hkey]
    unfold insertSkipped
    rw [hfirst]
    by_cases hspace : cap ≤ table.count
    · refine ⟨lit "MAX_MKSKIPPED_RETAINED exceeded", ?_⟩
      simp only [Bool.false_eq_true, if_false, if_pos hspace]
      rfl
    · simp only [Bool.false_eq_true, if_false, if_neg hspace]
      apply ih (nextChainKey_length ck) (by omega) (by omega) (by omega)
      · intro i hge hlt
        rw [contains_set_ne (by omega) (by omega) (by omega)]
        exact hnew i (by omega) (by omega)
      · rw [count_set_of_absent hfirst]
        omega

theorem isValueError_of_kind {α : Type} {e : PyExc} (h : e.kind = .valueError) :
    IsValueError (.error e : Except PyExc α) := by
  obtain ⟨kind, message⟩ := e
  exact ⟨message, by rw [show kind = .valueError from h]⟩

theorem IsValueError.bind {α β : Type} {r : Except PyExc α} (h : IsValueError r)
    (f : α → Except PyExc β) : IsValueError (r >>= f) := by
  obtain ⟨message, rfl⟩ := h
  exact ⟨message, rfl⟩

theorem skipTo_isValueError {maxSkip cap limit : Nat} {st : EcDrState} {dhPub ck : Bytes}
    (h : ¬limit - st.nr ≤ maxSkip ∨
      IsValueError (skipLoop P cap dhPub (limit - st.nr) ck st.nr st.mkskipped)) :
    IsValueError (skipTo P maxSkip cap st dhPub ck limit) := by
  unfold skipTo
  by_cases hskip : limit - st.nr ≤ maxSkip
  · rw [orRaise_pos hskip]
    exact (h.resolve_left (not_not.mpr hskip)).bind _
  · exact isValueError_orRaise hskip

/-- What can be said of a loop over indices of four bytes, once it is known whether it fits. -/
theorem skipLoop_cases (cap : Nat) (dhPub : Bytes) (table : KeyedTable Bytes Bytes) {steps nr : Nat}
    {ck : Bytes} (hck : ck.length = 32) (hindex : nr + steps ≤ 2 ^ 32) :
    IsValueError (skipLoop P cap dhPub steps ck nr table) ∨
      ∃ ck' table', skipLoop P cap dhPub steps ck nr table = .ok (ck', table') := by
  cases hloop : skipLoop P cap dhPub steps ck nr table with
  | ok result => exact Or.inr ⟨result.1, result.2, rfl⟩
  | error e => exact Or.inl (isValueError_of_kind (skipLoop_raises hck hindex hloop))

/-! ## The condition -/

/-- What refuses a header whose key was returned: that its remote key is the present one, or
else its counters, the limits on skipping or the lack of a local key. -/
def ReplayRefused (maxSkip maxMkskipped : Nat) (priv : Option Bytes) (st : EcDrState) (header : EcHeader) :
    Prop :=
  st.dhrPub = some header.dhPub ∨ header.pn < st.nr ∨ maxSkip < header.pn - st.nr ∨
  (0 < min header.pn (2 ^ 32) - st.nr ∧
    maxMkskipped < st.mkskipped.count + (min header.pn (2 ^ 32) - st.nr)) ∨
  (header.pn ≤ 2 ^ 32 ∧ (priv = none ∨ maxSkip < header.n ∨
    (0 < newKeys st.mkskipped header.dhPub 0 header.n ∧
      maxMkskipped < st.mkskipped.count + (header.pn - st.nr) +
        newKeys st.mkskipped header.dhPub 0 header.n)))

def ReplaysRefused (s : EcSession) : EcEvent → Prop
  | .encrypt _ => True
  | .decrypt side header maxSkip maxMkskipped priv =>
    header ∈ (s.party side).accepted.map Prod.fst →
      ReplayRefused maxSkip maxMkskipped priv (s.party side).state header

/-! ## Replays -/

theorem Stores.contains_iff {table : KeyedTable Bytes Bytes} {S : List Bytes → Nat → Prop}
    (h : Stores P X rk0 table S) (hL : Apart X L) (hS : ∀ d i, S d i → InSession L d) {c : List Bytes}
    (hc : InSession L c) {n : Nat} (hn : n < 2 ^ 32) :
    table.contains (chainPub X c ++ bigEndian 4 n) = true ↔ S c n := by
  have hkey : mkKey (chainPub X c) n = .ok (chainPub X c ++ bigEndian 4 n) := if_pos hn
  unfold KeyedTable.contains
  rw [Option.isSome_iff_exists]
  constructor
  · rintro ⟨mk, hget⟩
    exact (h.get?_some hL hS hc hkey hget).1
  · intro hstored
    exact ⟨_, h.get?_of hstored hkey⟩

/-- The present chain has no stored key from its index on. -/
theorem Holds.present_absent {party : Party} (hL : Apart X L) (hl : l <:+ L)
    (h : Holds P X rk0 count l party) (hlong : 3 ≤ l.length) {i : Nat} (hge : party.state.nr ≤ i)
    (hi : i < 2 ^ 32) :
    party.state.mkskipped.contains (chainPub X l.tail ++ bigEndian 4 i) = false := by
  have htail : InSession L l.tail := ⟨(List.tail_suffix l).trans hl, by rw [List.length_tail]; omega⟩
  rw [← Bool.not_eq_true, h.stored.contains_iff hL (Holds.stored_inSession hl) htail hi]
  exact Holds.unpassed i hge

/-- The turn of the ratchet to a known key raises a `ValueError` or gives a chain to step. -/
theorem dhRatchet_known {st : EcDrState} {k : Bytes} {priv : Bytes} (hrk : st.rk.length = 32)
    (hown : ValidPriv st.dhsPriv) (hk : ValidPriv k) (hpriv : ValidPriv priv) :
    ∃ turned ck, dhRatchet P X st (X.publicBytes k) priv = .ok turned ∧
      turned.dhrPub = some (X.publicBytes k) ∧ turned.ckr = some ck ∧ ck.length = 32 ∧
      turned.nr = 0 ∧ turned.mkskipped = st.mkskipped := by
  have hroot := (rkStep_length (P := P) st.rk (dhSecret X st.dhsPriv k)).1
  have hlen := (rkStep_length (P := P) st.rk (dhSecret X st.dhsPriv k)).2
  unfold dhRatchet
  rw [x25519Dh_of_valid hown hk]
  simp only [bind, Except.bind]
  rw [kdfRk_of_valid hrk hown hk]
  simp only [x25519Public_of_valid hpriv, x25519Dh_of_valid hpriv hk]
  rw [kdfRk_of_valid hroot hpriv hk]
  exact ⟨_, _, rfl, rfl, rfl, hlen, rfl, rfl⟩

/-- The second half of a decryption after the ratchet turned back to an older chain. -/
theorem receiveAt_isValueError {maxSkip cap n : Nat} {st : EcDrState} {dhPub ck : Bytes}
    (hdhr : st.dhrPub = some dhPub) (hckr : st.ckr = some ck) (hck : ck.length = 32) (hzero : st.nr = 0)
    (hn : n < 2 ^ 32) (h : maxSkip < n ∨ (0 < newKeys st.mkskipped dhPub 0 n ∧
      cap < st.mkskipped.count + newKeys st.mkskipped dhPub 0 n)) :
    IsValueError (receiveAt P maxSkip cap st n) := by
  have hpos : 0 < n := by
    rcases h with hskip | ⟨hnew, -⟩
    · omega
    · by_contra hnone
      rw [Nat.eq_zero_of_not_pos hnone] at hnew
      exact absurd hnew (Nat.lt_irrefl 0)
  have hskipTo : IsValueError (skipTo P maxSkip cap st dhPub ck n) := by
    apply skipTo_isValueError
    rcases h with hskip | ⟨hnew, hfull⟩
    · exact Or.inl (by omega)
    · rw [hzero, Nat.sub_zero]
      have hindex : 0 + n ≤ 2 ^ 32 := by omega
      rcases skipLoop_cases (P := P) cap dhPub st.mkskipped hck hindex with hraises | ⟨ck', table', hloop⟩
      · exact Or.inr hraises
      · have hroom := skipLoop_room hindex hloop
        omega
  unfold receiveAt
  rw [hdhr, hckr]
  simp only [orRaise_pos (show st.nr ≤ n by omega), bind, Except.bind]
  unfold advanceTo
  rw [if_pos (by omega)]
  obtain ⟨message, hmessage⟩ := hskipTo
  rw [hmessage]
  exact ⟨message, rfl⟩

/-- The rest of the present chain, skipped for the sake of a replayed header. -/
theorem Holds.closeChain_replay {party : Party} (hL : Apart X L) (hl : l <:+ L)
    (h : Holds P X rk0 count l party) (hlong : 3 ≤ l.length) {maxSkip cap pn : Nat}
    {priv : Option Bytes} {header : EcHeader} (hpn : header.pn = pn)
    (hother : party.state.dhrPub ≠ some header.dhPub)
    (hcond : ReplayRefused maxSkip cap priv party.state header) :
    IsValueError (closeChain P maxSkip cap party.state pn) ∨
      (pn ≤ 2 ^ 32 ∧ (priv = none ∨ maxSkip < header.n ∨
        (0 < newKeys party.state.mkskipped header.dhPub 0 header.n ∧
          cap < party.state.mkskipped.count + (pn - party.state.nr) +
            newKeys party.state.mkskipped header.dhPub 0 header.n)) ∧
        ∃ closed, closeChain P maxSkip cap party.state pn = .ok closed ∧
          closed.dhsPriv = party.state.dhsPriv ∧ closed.rk = party.state.rk ∧
          closed.mkskipped.count = party.state.mkskipped.count + (pn - party.state.nr) ∧
          Stores P X rk0 closed.mkskipped fun d i =>
            (Passed count l party.state.nr d i ∧ headerAt X count d i ∉ party.accepted.map Prod.fst) ∨
              d = l.tail ∧ party.state.nr ≤ i ∧ i < pn) := by
  have htail : InSession L l.tail := ⟨(List.tail_suffix l).trans hl, by rw [List.length_tail]; omega⟩
  have hck : (chainKeyAt P X rk0 l.tail party.state.nr).length = 32 := chainKeyAt_length htail.2 _
  subst hpn
  unfold closeChain
  rw [h.dhr_of_long hlong, h.ckr, if_pos hlong]
  by_cases hle : party.state.nr ≤ header.pn
  · simp only [orRaise_pos hle, bind, Except.bind]
    by_cases hskip : header.pn - party.state.nr ≤ maxSkip
    · have habsent : ∀ i, party.state.nr ≤ i → i < 2 ^ 32 →
          party.state.mkskipped.contains (chainPub X l.tail ++ bigEndian 4 i) = false :=
        fun i hge hi => h.present_absent hL hl hlong hge hi
      rcases hcond with hdhr | hbehind | hmore | ⟨hpos, hfull⟩ | ⟨hbound, hrest⟩
      · exact absurd hdhr hother
      · omega
      · omega
      · left
        apply skipTo_isValueError
        right
        apply skipLoop_overfull hck hpos (by omega) (by omega) _ hfull
        intro i hge hi
        exact habsent i hge (by omega)
      · have hindex : party.state.nr + (header.pn - party.state.nr) ≤ 2 ^ 32 := by omega
        rcases skipLoop_cases (P := P) cap (chainPub X l.tail) party.state.mkskipped hck hindex with
          hraises | ⟨ck', table', hloop⟩
        · exact Or.inl (skipTo_isValueError (Or.inr hraises))
        · right
          have hskipTo : skipTo P maxSkip cap party.state (chainPub X l.tail)
              (chainKeyAt P X rk0 l.tail party.state.nr) header.pn =
                .ok { party.state with ckr := some ck', nr := header.pn, mkskipped := table' } := by
            unfold skipTo
            rw [orRaise_pos hskip]
            simp only [bind, Except.bind, hloop]
            rfl
          have hall : newKeys party.state.mkskipped (chainPub X l.tail) party.state.nr
              (header.pn - party.state.nr) = header.pn - party.state.nr := by
            apply newKeys_of_absent
            intro i hge hi
            exact habsent i hge (by omega)
          have hcount := (skipLoop_room hindex hloop).1
          rw [hall] at hcount
          obtain ⟨-, hstored⟩ := skipTo_stores hL htail (Holds.stored_inSession hl) Holds.unpassed
            h.stored hle hskipTo
          exact ⟨hbound, hrest, _, hskipTo, rfl, rfl, hcount, hstored⟩
    · exact Or.inl (skipTo_isValueError (Or.inl hskip))
  · exact Or.inl (isValueError_orRaise hle)

theorem turnRatchet_none {maxSkip cap : Nat} {st closed : EcDrState} {header : EcHeader}
    (hother : st.dhrPub ≠ some header.dhPub) (hclose : closeChain P maxSkip cap st header.pn = .ok closed) :
    turnRatchet P X maxSkip cap none st header = valueError (lit "DH ratchet requires new_local_priv") := by
  unfold turnRatchet
  rw [if_neg hother, hclose]
  rfl

theorem turnRatchet_some {maxSkip cap : Nat} {st closed : EcDrState} {header : EcHeader} {priv : Bytes}
    (hother : st.dhrPub ≠ some header.dhPub) (hclose : closeChain P maxSkip cap st header.pn = .ok closed) :
    turnRatchet P X maxSkip cap (some priv) st header = dhRatchet P X closed header.dhPub priv := by
  unfold turnRatchet
  rw [if_neg hother, hclose]
  rfl

/-- A header whose key was returned is refused under the condition. -/
theorem Holds.replay_refused {party : Party} (h0 : rk0.length = 32) (hL : Apart X L) (hl : l <:+ L)
    (h : Holds P X rk0 count l party) {header : EcHeader}
    (haccepted : header ∈ party.accepted.map Prod.fst) {maxSkip cap : Nat} {priv : Option Bytes}
    (hpriv : ∀ k', priv = some k' → ValidPriv k')
    (hcond : ReplayRefused maxSkip cap priv party.state header) :
    IsValueError (ecDrDecrypt P X maxSkip cap priv party.state header) := by
  have hmem := haccepted
  obtain ⟨p, hp, rfl⟩ := List.mem_map.mp haccepted
  obtain ⟨c, n, ⟨hpassed, hn⟩, rfl⟩ := h.accepted p hp
  have hcL := hpassed.inSession hl
  have hlong : 3 ≤ l.length := by
    obtain ⟨hsuffix, hlen⟩ := mem_chains hpassed.1
    have hle := hsuffix.length_le
    rw [List.length_tail] at hle
    omega
  have hkey : mkKey (headerAt X count c n).dhPub (headerAt X count c n).n =
      .ok (chainPub X c ++ bigEndian 4 n) := if_pos hn
  have hget := h.stored.get?_none hL (Holds.stored_inSession hl) hcL hkey (fun hs => hs.2 hmem)
  have htail : InSession L l.tail := ⟨(List.tail_suffix l).trans hl, by rw [List.length_tail]; omega⟩
  have hckr : party.state.ckr = some (chainKeyAt P X rk0 l.tail party.state.nr) := by
    rw [h.ckr, if_pos hlong]
  rw [decrypt_unstored hkey hget]
  by_cases hpresent : c = l.tail
  · subst hpresent
    have hdhr : party.state.dhrPub = some (headerAt X count l.tail n).dhPub := h.dhr_of_long hlong
    have hstays : turnRatchet P X maxSkip cap priv party.state (headerAt X count l.tail n) =
        .ok party.state := if_pos hdhr
    have hconsumed : ¬party.state.nr ≤ n := by
      have hlt := hpassed.2
      rw [if_pos rfl] at hlt
      omega
    have hreceive : IsValueError (receiveAt P maxSkip cap party.state n) := by
      unfold receiveAt
      rw [hdhr, hckr]
      exact isValueError_orRaise hconsumed
    rw [hstays]
    exact hreceive
  · have hother : party.state.dhrPub ≠ some (headerAt X count c n).dhPub := by
      rw [h.dhr_of_long hlong]
      intro heq
      exact hpresent (hL.eq_of_pub hcL.1 htail.1 hcL.ne_nil htail.ne_nil (Option.some.inj heq).symm)
    rcases h.closeChain_replay hL hl hlong rfl hother hcond with
      hraises | ⟨hpn, hrest, closed, hclose, hown, hroot, hcount, hstored⟩
    · have hturns : IsValueError (turnRatchet P X maxSkip cap priv party.state (headerAt X count c n)) := by
        unfold turnRatchet
        rw [if_neg hother]
        exact hraises.bind _
      exact hturns.bind _
    · cases hlocal : priv with
      | none =>
        rw [turnRatchet_none hother hclose]
        exact ⟨lit "DH ratchet requires new_local_priv", rfl⟩
      | some k' =>
        rw [turnRatchet_some hother hclose]
        obtain ⟨k, rest, rfl⟩ : ∃ k rest, c = k :: rest := by
          match c, hcL.ne_nil with
          | k :: rest, _ => exact ⟨k, rest, rfl⟩
        have hownKey : closed.dhsPriv ∈ L := by
          rw [hown]
          exact hl.subset (List.mem_of_mem_head? h.priv)
        have hrk : closed.rk.length = 32 := by
          rw [hroot, h.rk]
          exact roots_length h0 l
        obtain ⟨turned, ck, hratchet, hdhr, hckr', hck, hzero, htable⟩ := dhRatchet_known (P := P) hrk
          (hL.valid _ hownKey) (hL.valid k (hcL.1.subset List.mem_cons_self)) (hpriv k' hlocal)
        have hsame : newKeys closed.mkskipped (X.publicBytes k) 0 n =
            newKeys party.state.mkskipped (X.publicBytes k) 0 n := by
          apply newKeys_congr
          intro i _ hi
          rw [Bool.eq_iff_iff]
          have hS : ∀ d i, ((Passed count l party.state.nr d i ∧
              headerAt X count d i ∉ party.accepted.map Prod.fst) ∨
                d = l.tail ∧ party.state.nr ≤ i ∧ i < (headerAt X count (k :: rest) n).pn) →
              InSession L d := by
            rintro d i (hp | ⟨rfl, -⟩)
            · exact hp.1.inSession hl
            · exact htail
          have hclosed := hstored.contains_iff hL hS hcL (show i < 2 ^ 32 by omega)
          have hbefore := h.stored.contains_iff hL (Holds.stored_inSession hl) hcL
            (show i < 2 ^ 32 by omega)
          refine hclosed.trans (Iff.trans ?_ hbefore.symm)
          constructor
          · rintro (hp | ⟨heq, -⟩)
            · exact hp
            · exact absurd heq hpresent
          · exact Or.inl
        have hreceive : IsValueError (receiveAt P maxSkip cap turned n) := by
          apply receiveAt_isValueError hdhr hckr' hck hzero hn
          rw [htable, hsame, hcount]
          rcases hrest with hnone | hlimits
          · rw [hlocal] at hnone
            cases hnone
          · exact hlimits
        have hdone : dhRatchet P X closed (headerAt X count (k :: rest) n).dhPub k' = .ok turned :=
          hratchet
        simp only [hdone]
        exact hreceive

/-! ## Runs -/

theorem Joint.replay_refused (h : Joint P X rk0 L count lead s) {side : Side} {header : EcHeader}
    (haccepted : header ∈ (s.party side).accepted.map Prod.fst) {maxSkip cap : Nat}
    {priv : Option Bytes} (hfresh : s.Fresh X priv)
    (hcond : ReplayRefused maxSkip cap priv (s.party side).state header) :
    IsValueError (ecDrDecrypt P X maxSkip cap priv (s.party side).state header) := by
  have hpriv : ∀ k', priv = some k' → ValidPriv k' := by
    rintro k' rfl
    exact hfresh.1
  rcases Side.eq_or_other lead side with rfl | rfl
  · exact h.leads.replay_refused h.root h.apart List.suffix_rfl haccepted hpriv hcond
  · exact h.follows.replay_refused h.root h.apart (List.tail_suffix L) haccepted hpriv hcond

theorem agrees_replay_step {t : EcSession} {event : EcEvent} (hrefused : ReplaysRefused s event)
    (h : Agrees P X rk0 s) (hstep : ecMachine P X s event = some t) : Agrees P X rk0 t := by
  apply agrees_step _ h hstep
  cases event with
  | encrypt side => trivial
  | decrypt side header maxSkip cap priv =>
    obtain ⟨L, count, lead, hjoint⟩ := h
    intro haccepted hfresh result hd
    obtain ⟨message, hraises⟩ := hjoint.replay_refused haccepted hfresh (hrefused haccepted)
    rw [hraises] at hd
    cases hd

/-- In a run whose replays all meet the condition, a replay that meets it raises. -/
theorem replays_refused {alicePriv bobPriv : Bytes} {alice bob : EcDrState}
    (ha : ecDrInitAlice P X rk0 alicePriv (X.publicBytes bobPriv) = .ok alice)
    (hb : ecDrInitBob X rk0 bobPriv = .ok bob)
    (hne : X.publicBytes alicePriv ≠ X.publicBytes bobPriv) {events : List EcEvent}
    (hrefused : (ecMachine P X).Along ReplaysRefused (EcSession.start alice bob) events)
    (hrun : (ecMachine P X).run (EcSession.start alice bob) events = some s)
    {side : Side} {header : EcHeader} (haccepted : header ∈ (s.party side).accepted.map Prod.fst)
    {maxSkip maxMkskipped : Nat} {priv : Option Bytes} (hfresh : s.Fresh X priv)
    (hcond : ReplayRefused maxSkip maxMkskipped priv (s.party side).state header) :
    IsValueError (ecDrDecrypt P X maxSkip maxMkskipped priv (s.party side).state header) := by
  obtain ⟨L, count, lead, h⟩ : Agrees P X rk0 s :=
    Machine.invariant_along agrees_replay_step hrefused ⟨_, _, _, agrees_start ha hb hne⟩ hrun
  exact h.replay_refused haccepted hfresh hcond

theorem replaysRefused_of_first {events : List EcEvent}
    (h : (ecMachine P X).Along FirstDelivery s events) :
    (ecMachine P X).Along ReplaysRefused s events := by
  induction events generalizing s with
  | nil => trivial
  | cons event events ih =>
    refine ⟨?_, fun t ht => ih (h.2 t ht)⟩
    cases event with
    | encrypt side => trivial
    | decrypt side header maxSkip cap priv => exact fun hold => absurd hold h.1

section Sample

instance decidableFirstDelivery (s : EcSession) : (event : EcEvent) → Decidable (FirstDelivery s event)
  | .encrypt _ => .isTrue trivial
  | .decrypt side header _ _ _ =>
    inferInstanceAs (Decidable (header ∉ (s.party side).accepted.map Prod.fst))

def replayStart : Option EcSession := do
  let alice ← (ecDrInitAlice ratchetPlatform sampleCurve zeroKey aliceKey bobKey).toOption
  let bob ← (ecDrInitBob sampleCurve zeroKey bobKey).toOption
  return EcSession.start alice bob

theorem replayStart_some {start : EcSession} (h : replayStart = some start) :
    ∃ alice bob, ecDrInitAlice ratchetPlatform sampleCurve zeroKey aliceKey bobKey = .ok alice ∧
      ecDrInitBob sampleCurve zeroKey bobKey = .ok bob ∧ start = EcSession.start alice bob := by
  unfold replayStart at h
  simp only [Option.bind_eq_bind, Option.bind_eq_some_iff, toOption_some, Option.pure_def,
    Option.some.injEq] at h
  obtain ⟨alice, ha, bob, hb, rfl⟩ := h
  exact ⟨alice, bob, ha, hb, rfl⟩

def keyOf (b : UInt8) : Bytes := List.replicate 32 b

/-- Alice's second chain carries one message, after two on her first. -/
def threeChains : List EcEvent :=
  [.encrypt .alice, .encrypt .alice,
    .decrypt .bob ⟨aliceKey, 0, 0⟩ 1000 2000 (some (keyOf 3)),
    .decrypt .bob ⟨aliceKey, 0, 1⟩ 1000 2000 none,
    .encrypt .bob, .decrypt .alice ⟨keyOf 3, 0, 0⟩ 1000 2000 (some (keyOf 4)),
    .encrypt .alice, .decrypt .bob ⟨keyOf 4, 2, 0⟩ 1000 2000 (some (keyOf 5)),
    .encrypt .bob, .decrypt .alice ⟨keyOf 5, 1, 0⟩ 1000 2000 (some (keyOf 6)),
    .encrypt .alice, .decrypt .bob ⟨keyOf 6, 1, 0⟩ 1000 2000 (some (keyOf 7))]

/-- The header of the second chain is taken again: its `pn` is ahead of the present index. -/
theorem replay_accepted : ∃ alice bob s,
    ecDrInitAlice ratchetPlatform sampleCurve zeroKey aliceKey bobKey = .ok alice ∧
    ecDrInitBob sampleCurve zeroKey bobKey = .ok bob ∧
    (ecMachine ratchetPlatform sampleCurve).run (EcSession.start alice bob) threeChains = some s ∧
    ⟨keyOf 4, 2, 0⟩ ∈ (s.party .bob).accepted.map Prod.fst ∧
    s.Fresh sampleCurve (some (keyOf 8)) ∧
    ∃ result, ecDrDecrypt ratchetPlatform sampleCurve 1000 2000 (some (keyOf 8))
      (s.party .bob).state ⟨keyOf 4, 2, 0⟩ = .ok result := by
  have hcheck : replayStart.any (fun start =>
      ((ecMachine ratchetPlatform sampleCurve).run start threeChains).any fun s =>
        ⟨keyOf 4, 2, 0⟩ ∈ (s.party .bob).accepted.map Prod.fst ∧
        s.Fresh sampleCurve (some (keyOf 8)) ∧
        (ecDrDecrypt ratchetPlatform sampleCurve 1000 2000 (some (keyOf 8)) (s.party .bob).state
          ⟨keyOf 4, 2, 0⟩).toOption.isSome = true) = true := by
    decide +kernel
  obtain ⟨start, hstart, hrest⟩ := (Option.any_eq_true _ _).mp hcheck
  obtain ⟨s, hs, hfacts⟩ := (Option.any_eq_true _ _).mp hrest
  obtain ⟨alice, bob, ha, hb, rfl⟩ := replayStart_some hstart
  obtain ⟨haccepted, hfresh, hok⟩ := of_decide_eq_true hfacts
  obtain ⟨result, hresult⟩ := Option.isSome_iff_exists.mp hok
  exact ⟨alice, bob, s, ha, hb, hs, haccepted, hfresh, result, toOption_some.mp hresult⟩

/-- The first header of all lies behind the present index. -/
theorem replays_refused_sample : ∃ alice bob s,
    (ecMachine ratchetPlatform sampleCurve).run (EcSession.start alice bob) threeChains = some s ∧
    IsValueError (ecDrDecrypt ratchetPlatform sampleCurve 1000 2000 (some (keyOf 8))
      (s.party .bob).state ⟨aliceKey, 0, 0⟩) := by
  have hcheck : replayStart.any (fun start =>
      (ecMachine ratchetPlatform sampleCurve).Along FirstDelivery start threeChains ∧
      ((ecMachine ratchetPlatform sampleCurve).run start threeChains).any (fun s =>
        ⟨aliceKey, 0, 0⟩ ∈ (s.party .bob).accepted.map Prod.fst ∧
        s.Fresh sampleCurve (some (keyOf 8)) ∧ 0 < (s.party .bob).state.nr) = true) = true := by
    decide +kernel
  obtain ⟨start, hstart, hrest⟩ := (Option.any_eq_true _ _).mp hcheck
  obtain ⟨hfirst, hany⟩ := of_decide_eq_true hrest
  obtain ⟨s, hs, hfacts⟩ := (Option.any_eq_true _ _).mp hany
  obtain ⟨alice, bob, ha, hb, rfl⟩ := replayStart_some hstart
  obtain ⟨haccepted, hfresh, hahead⟩ := of_decide_eq_true hfacts
  have hne : sampleCurve.publicBytes aliceKey ≠ sampleCurve.publicBytes bobKey :=
    show aliceKey ≠ bobKey by decide
  exact ⟨alice, bob, s, hs, replays_refused ha hb hne (replaysRefused_of_first hfirst) hs haccepted hfresh
    (Or.inr (Or.inl hahead))⟩

end Sample

end Rdap.Protocol
