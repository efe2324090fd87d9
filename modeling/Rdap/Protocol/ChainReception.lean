import Mathlib.Logic.Function.Iterate
import Rdap.Protocol.RatchetChains

/-!
# A chain received out of order

A sender steps its chain key once for each message. The receiver steps the same chain and keeps the keys
that it passes, so that messages may come in any order, each of them once.
-/

set_option autoImplicit false

namespace Rdap.Protocol
open Python Lib

structure EcRecvState where
  ck : Bytes
  n : Nat
  dhPub : Bytes
  mkskipped : KeyedTable Bytes Bytes := .empty

structure EcSendState where
  ck : Bytes
  n : Nat
  dhPub : Bytes

variable (P : Platform)

def ecSendMk (state : EcSendState) : Except PyExc (EcSendState × Bytes) := do
  let (ck2, mk) ← kdfCk P state.ck
  return ({ ck := ck2, n := state.n + 1, dhPub := state.dhPub }, mk)

/-- `while n < until_n`, with the number of turns that are left. -/
def skipKeysLoop (dhPub : Bytes) : Nat → Bytes → Nat → KeyedTable Bytes Bytes →
    Except PyExc (Bytes × KeyedTable Bytes Bytes)
  | 0, ck, _, skipped => .ok (ck, skipped)
  | turns + 1, ck, n, skipped => do
    let (ck, mk) ← kdfCk P ck
    let key ← mkKey dhPub n
    skipKeysLoop dhPub turns ck (n + 1) (skipped.set key mk)

def ecSkipKeys (maxSkip : Nat) (state : EcRecvState) (untilN : Nat) : Except PyExc EcRecvState := do
  orRaise (state.n ≤ untilN) (lit "until_n behind current n")
  orRaise (untilN - state.n ≤ maxSkip) (lit "MAX_SKIP exceeded")
  let (ck, skipped) ← skipKeysLoop P state.dhPub (untilN - state.n) state.ck state.n state.mkskipped
  return { ck, n := untilN, dhPub := state.dhPub, mkskipped := skipped }

def ecTrySkipped (state : EcRecvState) (dhPub : Bytes) (n : Nat) :
    Except PyExc (Option Bytes × EcRecvState) := do
  let key ← mkKey dhPub n
  match state.mkskipped.get? key with
  | none => return (none, state)
  | some mk => return (some mk, { state with mkskipped := state.mkskipped.erase key })

def ecRecvInOrder (state : EcRecvState) : Except PyExc (EcRecvState × Bytes) := do
  let (ck2, mk) ← kdfCk P state.ck
  return ({ state with ck := ck2, n := state.n + 1 }, mk)

/-- `if n > state.n` of `ec_recv_message` -/
def skipAhead (maxSkip : Nat) (state : EcRecvState) (n : Nat) : Except PyExc EcRecvState :=
  if state.n < n then ecSkipKeys P maxSkip state n else .ok state

def ecRecvMessage (maxSkip : Nat) (state : EcRecvState) (dhPub : Bytes) (n : Nat) :
    Except PyExc (EcRecvState × Bytes) := do
  orRaise (dhPub = state.dhPub) (lit "DH ratchet not modeled in this KAT path")
  let (mk, st) ← ecTrySkipped state dhPub n
  match mk with
  | some mk => return (st, mk)
  | none => do
    orRaise (state.n ≤ n) (lit "replay of consumed index")
    let st ← skipAhead P maxSkip state n
    ecRecvInOrder P st

/-! ## The keys of a chain -/

/-- The chain key after some steps. -/
def steppedKey (ck : Bytes) (i : Nat) : Bytes := (nextChainKey P)^[i] ck

/-- The key that a sender produces with its `i`-th call from a state. -/
def sentKey (state : EcSendState) : Nat → Except PyExc Bytes
  | 0 => (ecSendMk P state).map Prod.snd
  | i + 1 => do
    let (next, _) ← ecSendMk P state
    sentKey next i

variable {P}

theorem steppedKey_succ (ck : Bytes) (i : Nat) :
    steppedKey P ck (i + 1) = nextChainKey P (steppedKey P ck i) :=
  Function.iterate_succ_apply' _ _ _

theorem steppedKey_next (ck : Bytes) (i : Nat) :
    steppedKey P (nextChainKey P ck) i = steppedKey P ck (i + 1) :=
  (Function.iterate_succ_apply _ _ _).symm

theorem steppedKey_length {ck : Bytes} (h : ck.length = 32) (i : Nat) : (steppedKey P ck i).length = 32 := by
  cases i with
  | zero => exact h
  | succ i =>
    rw [steppedKey_succ]
    exact nextChainKey_length _

theorem sentKey_eq {s : EcSendState} (h : s.ck.length = 32) (i : Nat) :
    sentKey P s i = .ok (messageKey P (steppedKey P s.ck i)) := by
  induction i generalizing s with
  | zero =>
    unfold sentKey ecSendMk
    rw [kdfCk_of_length h]
    rfl
  | succ i ih =>
    unfold sentKey ecSendMk
    rw [kdfCk_of_length h]
    simp only [bind, Except.bind, pure, Except.pure]
    rw [ih (nextChainKey_length _), steppedKey_next]

/-! ## Stepping over messages -/

/-- Where a table is known by the indices of its keys: all of them give a key, and the table has just the
keys of those that are listed, with their message keys. -/
def HoldsKeys (dhPub : Bytes) (keyOf : Nat → Bytes) (listed : Nat → Prop) (t : KeyedTable Bytes Bytes) :
    Prop :=
  ∀ k v, t.get? k = some v ↔ ∃ n, listed n ∧ mkKey dhPub n = .ok k ∧ v = keyOf n

theorem holdsKeys_congr {dhPub : Bytes} {keyOf : Nat → Bytes} {p q : Nat → Prop} {t : KeyedTable Bytes Bytes}
    (h : HoldsKeys dhPub keyOf p t) (hpq : ∀ n, p n ↔ q n) : HoldsKeys dhPub keyOf q t := by
  obtain rfl : p = q := funext fun n => propext (hpq n)
  exact h

theorem mkKey_same {dhPub k : Bytes} {n m : Nat} (hn : mkKey dhPub n = .ok k) (hm : mkKey dhPub m = .ok k) :
    n = m :=
  (mkKey_injective rfl hn hm).2

theorem HoldsKeys.set {dhPub k : Bytes} {keyOf : Nat → Bytes} {listed : Nat → Prop}
    {t : KeyedTable Bytes Bytes} {n : Nat} (h : HoldsKeys dhPub keyOf listed t) (hk : mkKey dhPub n = .ok k) :
    HoldsKeys dhPub keyOf (fun m => m = n ∨ listed m) (t.set k (keyOf n)) := by
  intro k' v
  rw [KeyedTable.get?_set]
  by_cases hsame : k' = k
  · rw [if_pos hsame]
    subst hsame
    constructor
    · intro hv
      exact ⟨n, Or.inl rfl, hk, (Option.some.inj hv).symm⟩
    · rintro ⟨m, _, hm, rfl⟩
      rw [mkKey_same hm hk]
  · rw [if_neg hsame, h k' v]
    constructor
    · rintro ⟨m, hm, hkey, hv⟩
      exact ⟨m, Or.inr hm, hkey, hv⟩
    · rintro ⟨m, hm, hkey, hv⟩
      rcases hm with rfl | hm
      · exact absurd (Except.ok.inj (hkey.symm.trans hk)) hsame
      · exact ⟨m, hm, hkey, hv⟩

theorem HoldsKeys.erase {dhPub k : Bytes} {keyOf : Nat → Bytes} {listed : Nat → Prop}
    {t : KeyedTable Bytes Bytes} {n : Nat} (h : HoldsKeys dhPub keyOf listed t) (hk : mkKey dhPub n = .ok k) :
    HoldsKeys dhPub keyOf (fun m => m ≠ n ∧ listed m) (t.erase k) := by
  intro k' v
  rw [KeyedTable.get?_erase]
  by_cases hsame : k' = k
  · rw [if_pos hsame]
    subst hsame
    constructor
    · intro hv
      cases hv
    · rintro ⟨m, ⟨hne, _⟩, hm, _⟩
      exact absurd (mkKey_same hm hk) hne
  · rw [if_neg hsame, h k' v]
    constructor
    · rintro ⟨m, hm, hkey, hv⟩
      refine ⟨m, ⟨?_, hm⟩, hkey, hv⟩
      rintro rfl
      exact hsame (Except.ok.inj (hkey.symm.trans hk))
    · rintro ⟨m, ⟨_, hm⟩, hkey, hv⟩
      exact ⟨m, hm, hkey, hv⟩

theorem skipKeysLoop_spec {dhPub ck0 : Bytes} {start : Nat} {listed : Nat → Prop} (h0 : ck0.length = 32)
    (turns : Nat) {n : Nat} {t : KeyedTable Bytes Bytes} (hstart : start ≤ n) (hend : n + turns ≤ 2 ^ 32)
    (ht : HoldsKeys dhPub (fun m => messageKey P (steppedKey P ck0 (m - start))) listed t) :
    ∃ u, skipKeysLoop P dhPub turns (steppedKey P ck0 (n - start)) n t =
        .ok (steppedKey P ck0 (n + turns - start), u) ∧
      HoldsKeys dhPub (fun m => messageKey P (steppedKey P ck0 (m - start)))
        (fun m => (n ≤ m ∧ m < n + turns) ∨ listed m) u := by
  induction turns generalizing n t listed with
  | zero =>
    refine ⟨t, rfl, holdsKeys_congr ht fun m => ?_⟩
    constructor
    · exact Or.inr
    · rintro (hm | hm)
      · omega
      · exact hm
  | succ turns ih =>
    have hkey : mkKey dhPub n = .ok (dhPub ++ bigEndian 4 n) := mkKey_ok.mpr ⟨by omega, rfl⟩
    have hset := ht.set hkey
    obtain ⟨u, hu, hholds⟩ := ih (n := n + 1) (by omega) (by omega) hset
    have hstep : steppedKey P ck0 (n + 1 - start) = nextChainKey P (steppedKey P ck0 (n - start)) := by
      rw [← steppedKey_succ]
      congr 1
      omega
    have hcount : n + 1 + turns = n + (turns + 1) := by omega
    rw [hstep, hcount] at hu
    refine ⟨u, ?_, holdsKeys_congr hholds fun m => ?_⟩
    · unfold skipKeysLoop
      rw [kdfCk_of_length (steppedKey_length h0 _)]
      simp only [bind, Except.bind, hkey]
      exact hu
    · constructor
      · rintro (hm | rfl | hm)
        · exact Or.inl (by omega)
        · exact Or.inl (by omega)
        · exact Or.inr hm
      · rintro (hm | hm)
        · by_cases hfirst : m = n
          · exact Or.inr (Or.inl hfirst)
          · exact Or.inl (by omega)
        · exact Or.inr (Or.inr hm)

/-! ## What a receiver has -/

section
variable {s : EcSendState} {r : EcRecvState} {delivered : Nat → Prop}

/-- The key of the message with this index. -/
def indexKey (P : Platform) (s : EcSendState) (n : Nat) : Bytes := messageKey P (steppedKey P s.ck (n - s.n))

/-- A receiver that began as its sender did, after the delivery of some messages. -/
structure Received (P : Platform) (s : EcSendState) (delivered : Nat → Prop) (r : EcRecvState) : Prop where
  start : s.n ≤ r.n
  bound : r.n ≤ 2 ^ 32
  dhPub : r.dhPub = s.dhPub
  ck : r.ck = steppedKey P s.ck (r.n - s.n)
  passed : ∀ n, delivered n → n < r.n
  counter : r.n = s.n ∨ ∃ n, delivered n ∧ r.n = n + 1
  skipped : HoldsKeys s.dhPub (indexKey P s) (fun n => s.n ≤ n ∧ n < r.n ∧ ¬ delivered n) r.mkskipped

/-- The receiver that knows the chain key of the sender. -/
def EcRecvState.ofSender (s : EcSendState) : EcRecvState where
  ck := s.ck
  n := s.n
  dhPub := s.dhPub

theorem received_start (hn : s.n ≤ 2 ^ 32) : Received P s (fun _ => False) (.ofSender s) where
  start := Nat.le_refl _
  bound := hn
  dhPub := rfl
  ck := by
    rw [EcRecvState.ofSender, Nat.sub_self]
    rfl
  passed := fun _ h => h.elim
  counter := Or.inl rfl
  skipped := by
    intro k v
    constructor
    · intro h
      cases h
    · rintro ⟨n, ⟨hlow, hhigh, _⟩, _⟩
      simp only [EcRecvState.ofSender] at hhigh
      omega

theorem mkKey_of_lt (dhPub : Bytes) {n : Nat} (hn : n < 2 ^ 32) :
    mkKey dhPub n = .ok (dhPub ++ bigEndian 4 n) :=
  mkKey_ok.mpr ⟨hn, rfl⟩

theorem Received.get_kept (h : Received P s delivered r) {n : Nat} (hn : n < 2 ^ 32)
    (hkept : s.n ≤ n ∧ n < r.n ∧ ¬ delivered n) :
    r.mkskipped.get? (s.dhPub ++ bigEndian 4 n) = some (indexKey P s n) :=
  (h.skipped _ _).mpr ⟨n, hkept, mkKey_of_lt s.dhPub hn, rfl⟩

theorem Received.get_absent (h : Received P s delivered r) {n : Nat} (hn : n < 2 ^ 32)
    (hnot : ¬(s.n ≤ n ∧ n < r.n ∧ ¬ delivered n)) : r.mkskipped.get? (s.dhPub ++ bigEndian 4 n) = none := by
  cases hget : r.mkskipped.get? (s.dhPub ++ bigEndian 4 n) with
  | none => rfl
  | some v =>
    obtain ⟨m, hkept, hm, _⟩ := (h.skipped _ _).mp hget
    rw [mkKey_same hm (mkKey_of_lt s.dhPub hn)] at hkept
    exact absurd hkept hnot

/-- A message that was delivered is refused. -/
theorem Received.refuses_delivered (h : Received P s delivered r) {maxSkip n : Nat} (hn : n < 2 ^ 32)
    (hdelivered : delivered n) :
    ecRecvMessage P maxSkip r s.dhPub n = valueError (lit "replay of consumed index") := by
  have hkey := mkKey_of_lt s.dhPub hn
  have hget := h.get_absent hn fun hkept => hkept.2.2 hdelivered
  have hbehind : ¬ r.n ≤ n := Nat.not_le.mpr (h.passed n hdelivered)
  unfold ecRecvMessage ecTrySkipped
  rw [orRaise_pos h.dhPub.symm]
  simp only [bind, Except.bind, hkey, hget, pure, Except.pure, orRaise, if_neg hbehind]
  rfl

/-- A message too far ahead is refused. -/
theorem Received.refuses_far (h : Received P s delivered r) {maxSkip n : Nat} (hn : n < 2 ^ 32)
    (hfar : r.n + maxSkip < n) :
    ecRecvMessage P maxSkip r s.dhPub n = valueError (lit "MAX_SKIP exceeded") := by
  have hkey := mkKey_of_lt s.dhPub hn
  have hget := h.get_absent hn (by omega)
  have hahead : r.n ≤ n := by omega
  have hjump : r.n < n := by omega
  have htoo : ¬ n - r.n ≤ maxSkip := by omega
  unfold ecRecvMessage ecTrySkipped skipAhead ecSkipKeys
  rw [orRaise_pos h.dhPub.symm]
  simp only [bind, Except.bind, hkey, hget, pure, Except.pure, orRaise, if_pos hahead, if_pos hjump, if_neg htoo]
  rfl

/-- A message that was passed is taken from the keys that were kept. -/
theorem Received.takes_skipped (h : Received P s delivered r) (maxSkip : Nat) {n : Nat} (hn : n < 2 ^ 32)
    (hlow : s.n ≤ n) (hpassed : n < r.n) (hnew : ¬ delivered n) :
    ∃ next, ecRecvMessage P maxSkip r s.dhPub n = .ok (next, indexKey P s n) ∧
      Received P s (fun m => m = n ∨ delivered m) next ∧ next.n = r.n := by
  have hkey := mkKey_of_lt s.dhPub hn
  have hget := h.get_kept hn ⟨hlow, hpassed, hnew⟩
  refine ⟨{ r with mkskipped := r.mkskipped.erase (s.dhPub ++ bigEndian 4 n) }, ?_, ?_, rfl⟩
  · unfold ecRecvMessage ecTrySkipped
    rw [orRaise_pos h.dhPub.symm]
    simp only [bind, Except.bind, hkey, hget, pure, Except.pure]
  · refine { h with passed := ?_, counter := ?_, skipped := ?_ }
    · rintro m (rfl | hm)
      · exact hpassed
      · exact h.passed m hm
    · rcases h.counter with hnone | ⟨m, hm, hcounter⟩
      · exact Or.inl hnone
      · exact Or.inr ⟨m, Or.inr hm, hcounter⟩
    · refine holdsKeys_congr (h.skipped.erase hkey) fun m => ?_
      constructor
      · rintro ⟨hne, hm, hm', hnot⟩
        exact ⟨hm, hm', fun hor => hor.elim hne hnot⟩
      · rintro ⟨hm, hm', hnot⟩
        exact ⟨fun heq => hnot (Or.inl heq), hm, hm', fun hd => hnot (Or.inr hd)⟩

/-- The chain is stepped to a message ahead. -/
theorem Received.steps_ahead (h : Received P s delivered r) (h0 : s.ck.length = 32) {maxSkip n : Nat}
    (hn : n < 2 ^ 32) (hahead : r.n ≤ n) (hnear : n ≤ r.n + maxSkip) :
    ∃ next, ecRecvMessage P maxSkip r s.dhPub n = .ok (next, indexKey P s n) ∧
      Received P s (fun m => m = n ∨ delivered m) next ∧ next.n = n + 1 := by
  have hkey := mkKey_of_lt s.dhPub hn
  have hget := h.get_absent hn (by omega)
  have hstart := h.start
  obtain ⟨u, hloop, hholds⟩ := skipKeysLoop_spec h0 (n - r.n) h.start (by omega) h.skipped
  have hsum : r.n + (n - r.n) = n := by omega
  rw [hsum, ← h.ck] at hloop
  rw [hsum] at hholds
  have hlast : kdfCk P (steppedKey P s.ck (n - s.n)) =
      .ok (steppedKey P s.ck (n + 1 - s.n), indexKey P s n) := by
    rw [kdfCk_of_length (steppedKey_length h0 _), ← steppedKey_succ]
    have hindex : n - s.n + 1 = n + 1 - s.n := by omega
    rw [hindex]
    rfl
  refine ⟨⟨steppedKey P s.ck (n + 1 - s.n), n + 1, r.dhPub, u⟩, ?_, ?_, rfl⟩
  · have hskip : skipAhead P maxSkip r n =
        .ok (EcRecvState.mk (steppedKey P s.ck (n - s.n)) n r.dhPub u) := by
      unfold skipAhead
      split
      · have hcount : n - r.n ≤ maxSkip := by omega
        unfold ecSkipKeys
        rw [orRaise_pos hahead, orRaise_pos hcount]
        simp only [bind, Except.bind, h.dhPub, hloop]
        rfl
      · rename_i hnot
        have hsame : n = r.n := by omega
        subst hsame
        rw [Nat.sub_self] at hloop
        obtain ⟨hck, hu⟩ := Prod.mk.inj (Except.ok.inj hloop)
        rw [← hck, ← hu]
    unfold ecRecvMessage ecTrySkipped
    rw [orRaise_pos h.dhPub.symm]
    simp only [bind, Except.bind, hkey, hget, pure, Except.pure, orRaise_pos hahead, hskip, ecRecvInOrder, hlast]
  · refine ⟨by show s.n ≤ n + 1; omega, by show n + 1 ≤ 2 ^ 32; omega, h.dhPub, rfl, ?_,
      Or.inr ⟨n, Or.inl rfl, rfl⟩, ?_⟩
    · rintro m (rfl | hm)
      · exact Nat.lt_succ_self m
      · have hpassed := h.passed m hm
        show m < n + 1
        omega
    · refine holdsKeys_congr hholds fun m => ?_
      show _ ↔ s.n ≤ m ∧ m < n + 1 ∧ ¬(m = n ∨ delivered m)
      constructor
      · rintro (hm | ⟨hm, hm', hnot⟩)
        · refine ⟨by omega, by omega, ?_⟩
          rintro (rfl | hd)
          · omega
          · have hpassed := h.passed m hd
            omega
        · refine ⟨hm, by omega, ?_⟩
          rintro (rfl | hd)
          · omega
          · exact hnot hd
      · rintro ⟨hm, hm', hnot⟩
        by_cases hpassed : m < r.n
        · exact Or.inr ⟨hm, hpassed, fun hd => hnot (Or.inr hd)⟩
        · refine Or.inl ⟨by omega, ?_⟩
          have hne : m ≠ n := fun heq => hnot (Or.inl heq)
          omega

/-! ## Messages in any order -/

/-- A message of the sender is presented. The source works on copies and returns a new state, so what raises
leaves the receiver as it was. -/
def present (P : Platform) (maxSkip : Nat) (s : EcSendState) (r : EcRecvState) (n : Nat) :
    EcRecvState × Except PyExc Bytes :=
  match ecRecvMessage P maxSkip r s.dhPub n with
  | .ok (next, mk) => (next, .ok mk)
  | .error e => (r, .error e)

/-- Messages are presented one after another: the receiver at the end, and the outcome of each. -/
def presentAll (P : Platform) (maxSkip : Nat) (s : EcSendState) :
    EcRecvState → List Nat → EcRecvState × List (Nat × Except PyExc Bytes)
  | r, [] => (r, [])
  | r, n :: ns =>
    let (next, outcome) := present P maxSkip s r n
    let (last, log) := presentAll P maxSkip s next ns
    (last, (n, outcome) :: log)

/-- A message that the receiver returned a key for. -/
def Delivered (log : List (Nat × Except PyExc Bytes)) (n : Nat) : Prop := ∃ mk, (n, .ok mk) ∈ log

/-- No message is further ahead of the highest one before it than may be skipped. -/
def WithinSkip (maxSkip : Nat) : Nat → List Nat → Prop
  | _, [] => True
  | counter, n :: ns => n ≤ counter + maxSkip ∧ WithinSkip maxSkip (max counter (n + 1)) ns

theorem Received.congr {p q : Nat → Prop} (h : Received P s p r) (hpq : ∀ n, p n ↔ q n) : Received P s q r := by
  obtain rfl : p = q := funext fun n => propext (hpq n)
  exact h

theorem delivered_cons_ok {log : List (Nat × Except PyExc Bytes)} {n m : Nat} {mk : Bytes} :
    Delivered ((n, .ok mk) :: log) m ↔ m = n ∨ Delivered log m := by
  unfold Delivered
  constructor
  · rintro ⟨mk', h⟩
    rcases List.mem_cons.mp h with heq | h
    · exact Or.inl (Prod.mk.inj heq).1
    · exact Or.inr ⟨mk', h⟩
  · rintro (rfl | ⟨mk', h⟩)
    · exact ⟨mk, List.mem_cons_self⟩
    · exact ⟨mk', List.mem_cons_of_mem _ h⟩

theorem delivered_cons_error {log : List (Nat × Except PyExc Bytes)} {n m : Nat} {e : PyExc} :
    Delivered ((n, .error e) :: log) m ↔ Delivered log m := by
  unfold Delivered
  constructor
  · rintro ⟨mk, h⟩
    rcases List.mem_cons.mp h with heq | h
    · cases (Prod.mk.inj heq).2
    · exact ⟨mk, h⟩
  · rintro ⟨mk, h⟩
    exact ⟨mk, List.mem_cons_of_mem _ h⟩

/-- What one message does: it is new and near enough and gives its key, or nothing changes. -/
theorem Received.present_cases (h : Received P s delivered r) (h0 : s.ck.length = 32) (maxSkip : Nat) {n : Nat}
    (hlow : s.n ≤ n) (hn : n < 2 ^ 32) :
    (¬ delivered n ∧ n ≤ r.n + maxSkip ∧ ∃ next, present P maxSkip s r n = (next, .ok (indexKey P s n)) ∧
      Received P s (fun m => m = n ∨ delivered m) next ∧ next.n = max r.n (n + 1)) ∨
    ((delivered n ∨ r.n + maxSkip < n) ∧ ∃ e, present P maxSkip s r n = (r, .error e)) := by
  unfold present
  by_cases hdelivered : delivered n
  · refine Or.inr ⟨Or.inl hdelivered, ?_⟩
    rw [h.refuses_delivered hn hdelivered]
    exact ⟨_, rfl⟩
  · by_cases hfar : r.n + maxSkip < n
    · refine Or.inr ⟨Or.inr hfar, ?_⟩
      rw [h.refuses_far hn hfar]
      exact ⟨_, rfl⟩
    · refine Or.inl ⟨hdelivered, by omega, ?_⟩
      by_cases hpassed : n < r.n
      · obtain ⟨next, hnext, hreceived, hcounter⟩ := h.takes_skipped maxSkip hn hlow hpassed hdelivered
        rw [hnext]
        exact ⟨next, rfl, hreceived, by omega⟩
      · obtain ⟨next, hnext, hreceived, hcounter⟩ :=
          h.steps_ahead h0 hn (by omega) (by omega : n ≤ r.n + maxSkip)
        rw [hnext]
        exact ⟨next, rfl, hreceived, by omega⟩

/-- What a run of messages leaves behind. -/
theorem Received.run (h : Received P s delivered r) (h0 : s.ck.length = 32) (maxSkip : Nat) {ns : List Nat}
    (hns : ∀ n ∈ ns, s.n ≤ n ∧ n < 2 ^ 32) :
    Received P s (fun n => delivered n ∨ Delivered (presentAll P maxSkip s r ns).2 n)
        (presentAll P maxSkip s r ns).1 ∧
      ∀ n mk, (n, .ok mk) ∈ (presentAll P maxSkip s r ns).2 → mk = indexKey P s n := by
  induction ns generalizing r delivered with
  | nil =>
    refine ⟨h.congr fun n => ?_, ?_⟩
    · constructor
      · exact Or.inl
      · rintro (hd | ⟨mk, hmem⟩)
        · exact hd
        · cases hmem
    · intro n mk hmem
      cases hmem
  | cons n ns ih =>
    obtain ⟨hlow, hn⟩ := hns n List.mem_cons_self
    have hrest : ∀ m ∈ ns, s.n ≤ m ∧ m < 2 ^ 32 := fun m hm => hns m (List.mem_cons_of_mem n hm)
    unfold presentAll
    rcases h.present_cases h0 maxSkip hlow hn with
      ⟨_, _, next, hpresent, hreceived, _⟩ | ⟨_, e, hpresent⟩
    · obtain ⟨hlast, hkeys⟩ := ih hreceived hrest
      rw [hpresent]
      refine ⟨hlast.congr fun m => ?_, ?_⟩
      · rw [delivered_cons_ok, or_assoc, or_left_comm]
      · intro m mk hmem
        rcases List.mem_cons.mp hmem with heq | hmem
        · obtain ⟨rfl, hmk⟩ := Prod.mk.inj heq
          exact Except.ok.inj hmk
        · exact hkeys m mk hmem
    · obtain ⟨hlast, hkeys⟩ := ih h hrest
      rw [hpresent]
      refine ⟨hlast.congr fun m => ?_, ?_⟩
      · rw [delivered_cons_error]
      · intro m mk hmem
        rcases List.mem_cons.mp hmem with heq | hmem
        · cases (Prod.mk.inj heq).2
        · exact hkeys m mk hmem

/-- Distinct messages within the skip give their keys. -/
theorem Received.run_keys (h : Received P s delivered r) (h0 : s.ck.length = 32) {maxSkip : Nat}
    {ns : List Nat} (hns : ∀ n ∈ ns, s.n ≤ n ∧ n < 2 ^ 32) (hnew : ∀ n ∈ ns, ¬ delivered n) (hnodup : ns.Nodup)
    (hwithin : WithinSkip maxSkip r.n ns) :
    (presentAll P maxSkip s r ns).2 = ns.map fun n => (n, .ok (indexKey P s n)) := by
  induction ns generalizing r delivered with
  | nil => rfl
  | cons n ns ih =>
    obtain ⟨hlow, hn⟩ := hns n List.mem_cons_self
    obtain ⟨hnot, hnodup⟩ := List.nodup_cons.mp hnodup
    obtain ⟨hnear, hwithin⟩ := hwithin
    unfold presentAll
    rcases h.present_cases h0 maxSkip hlow hn with
      ⟨_, _, next, hpresent, hreceived, hcounter⟩ | ⟨hrefused, _⟩
    · rw [← hcounter] at hwithin
      have hothers : ∀ m ∈ ns, ¬(m = n ∨ delivered m) := by
        rintro m hm (rfl | hd)
        · exact hnot hm
        · exact hnew m (List.mem_cons_of_mem n hm) hd
      have hlog := ih hreceived (fun m hm => hns m (List.mem_cons_of_mem n hm)) hothers hnodup hwithin
      rw [hpresent, List.map_cons, ← hlog]
    · rcases hrefused with hd | hfar
      · exact absurd hd (hnew n List.mem_cons_self)
      · omega

theorem ecRecvMessage_wide {maxSkip n : Nat} (hpub : r.dhPub = s.dhPub) (hn : ¬ n < 2 ^ 32) :
    ecRecvMessage P maxSkip r s.dhPub n = .error ⟨.overflowError, lit "int too big to convert"⟩ := by
  unfold ecRecvMessage ecTrySkipped mkKey
  rw [orRaise_pos hpub.symm, if_neg hn]
  rfl

/-- What is promised of a receiver that any messages of its sender were presented to, in any order. -/
structure Reception (P : Platform) (maxSkip : Nat) (s : EcSendState) (ns : List Nat) (last : EcRecvState)
    (log : List (Nat × Except PyExc Bytes)) : Prop where
  keys : ∀ n mk, (n, .ok mk) ∈ log → sentKey P s (n - s.n) = .ok mk
  counter : (∀ n, Delivered log n → n < last.n) ∧ (last.n = s.n ∨ ∃ n, Delivered log n ∧ last.n = n + 1)
  skipped : ∀ k v, last.mkskipped.get? k = some v ↔ ∃ n, (s.n ≤ n ∧ n < last.n ∧ ¬ Delivered log n) ∧
    mkKey s.dhPub n = .ok k ∧ sentKey P s (n - s.n) = .ok v
  accepts : ∀ n, s.n ≤ n → n < 2 ^ 32 → ¬ Delivered log n → n ≤ last.n + maxSkip →
    ∃ next mk, present P maxSkip s last n = (next, .ok mk) ∧ sentKey P s (n - s.n) = .ok mk
  refuses : ∀ n, Delivered log n ∨ last.n + maxSkip < n → ∃ e, present P maxSkip s last n = (last, .error e)
  inOrder : ns.Nodup → WithinSkip maxSkip s.n ns → log = ns.map fun n => (n, sentKey P s (n - s.n))

theorem chain_reception (P : Platform) {s : EcSendState} (h0 : s.ck.length = 32) (hstart : s.n ≤ 2 ^ 32)
    (maxSkip : Nat) {ns : List Nat} (hns : ∀ n ∈ ns, s.n ≤ n ∧ n < 2 ^ 32) :
    Reception P maxSkip s ns (presentAll P maxSkip s (.ofSender s) ns).1
      (presentAll P maxSkip s (.ofSender s) ns).2 := by
  obtain ⟨hrun, hkeys⟩ := (received_start (P := P) hstart).run h0 maxSkip hns
  have hlast : Received P s (Delivered (presentAll P maxSkip s (.ofSender s) ns).2)
      (presentAll P maxSkip s (.ofSender s) ns).1 :=
    hrun.congr fun n => ⟨fun h => h.elim False.elim id, Or.inr⟩
  have hsent : ∀ n, sentKey P s (n - s.n) = .ok (indexKey P s n) := fun n => sentKey_eq h0 _
  refine ⟨?_, ⟨hlast.passed, hlast.counter⟩, ?_, ?_, ?_, ?_⟩
  · intro n mk hmem
    rw [hkeys n mk hmem, hsent]
  · intro k v
    rw [hlast.skipped k v]
    simp only [hsent, Except.ok.injEq]
    constructor
    · rintro ⟨n, hn, hk, hv⟩
      exact ⟨n, hn, hk, hv.symm⟩
    · rintro ⟨n, hn, hk, hv⟩
      exact ⟨n, hn, hk, hv.symm⟩
  · intro n hlow hn hnew hnear
    rcases hlast.present_cases h0 maxSkip hlow hn with ⟨_, _, next, hpresent, _⟩ | ⟨hrefused, _⟩
    · exact ⟨next, indexKey P s n, hpresent, hsent n⟩
    · rcases hrefused with hd | hfar
      · exact absurd hd hnew
      · omega
  · intro n hrefused
    by_cases hn : n < 2 ^ 32
    · unfold present
      rcases hrefused with hd | hfar
      · rw [hlast.refuses_delivered hn hd]
        exact ⟨_, rfl⟩
      · rw [hlast.refuses_far hn hfar]
        exact ⟨_, rfl⟩
    · unfold present
      rw [ecRecvMessage_wide hlast.dhPub hn]
      exact ⟨_, rfl⟩
  · intro hnodup hwithin
    simp only [hsent]
    exact (received_start hstart).run_keys h0 hns (fun _ _ => id) hnodup hwithin

end

def sampleSender : EcSendState := ⟨List.replicate 32 1, 0, List.replicate 32 2⟩

theorem four_messages_received : Reception (Platform.ofTable []) 1000 sampleSender [0, 3, 1, 2]
    (presentAll (Platform.ofTable []) 1000 sampleSender (.ofSender sampleSender) [0, 3, 1, 2]).1
    (presentAll (Platform.ofTable []) 1000 sampleSender (.ofSender sampleSender) [0, 3, 1, 2]).2 :=
  chain_reception _ (by decide) (by decide) 1000 (by decide)

/-- A sender has a key for every index; a receiver has none for an index of more than four bytes. -/
theorem wide_index_raises : WithinSkip (2 ^ 32) sampleSender.n [2 ^ 32] ∧
    (∃ mk, sentKey (Platform.ofTable []) sampleSender (2 ^ 32 - sampleSender.n) = .ok mk) ∧
    (presentAll (Platform.ofTable []) (2 ^ 32) sampleSender (.ofSender sampleSender) [2 ^ 32]).2 =
      [(2 ^ 32, .error ⟨.overflowError, lit "int too big to convert"⟩)] := by
  refine ⟨⟨by decide, trivial⟩, ⟨_, sentKey_eq (by decide) _⟩, ?_⟩
  unfold presentAll present
  rw [ecRecvMessage_wide rfl (by decide)]
  rfl

end Rdap.Protocol
