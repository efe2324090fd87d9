import Rdap.Protocol.RatchetSession

/-!
# What a side holds

The state of a side is fixed by its place in the session: the keys up to its own latest one,
how many messages each chain has carried, and which headers it has accepted.
-/

set_option autoImplicit false

namespace Rdap.Protocol
open Python Lib

variable {P : Platform} {X : X25519} {rk0 : Bytes} {L l : List Bytes}

/-! ## Receiving -/

theorem skipTo_stores (hL : Apart X L) {c : List Bytes} (hc : InSession L c) {maxSkip cap limit : Nat}
    {st st' : EcDrState} {S : List Bytes → Nat → Prop} (hS : ∀ d i, S d i → InSession L d)
    (hnew : ∀ i, st.nr ≤ i → ¬S c i) (hstores : Stores P X rk0 st.mkskipped S) (hle : st.nr ≤ limit)
    (h : skipTo P maxSkip cap st (chainPub X c) (chainKeyAt P X rk0 c st.nr) limit = .ok st') :
    (∃ table, st' = { st with
      ckr := some (chainKeyAt P X rk0 c limit), nr := limit, mkskipped := table }) ∧
      Stores P X rk0 st'.mkskipped fun d i => S d i ∨ d = c ∧ st.nr ≤ i ∧ i < limit := by
  unfold skipTo at h
  simp only [bind_ok, orRaise_ok, pure_ok] at h
  obtain ⟨-, -, ⟨ck, table⟩, hloop, rfl⟩ := h
  have hlimit : st.nr + (limit - st.nr) = limit := by omega
  obtain ⟨rfl, hstored⟩ := skipLoop_stores hL hc hS hnew hstores hloop
  rw [hlimit] at hstored
  simp only [hlimit]
  exact ⟨⟨table, rfl⟩, hstored⟩

theorem receiveAt_stores (hL : Apart X L) {c : List Bytes} (hc : InSession L c) {maxSkip cap n : Nat}
    {st st' : EcDrState} {mk : Bytes} {S : List Bytes → Nat → Prop}
    (hS : ∀ d i, S d i → InSession L d) (hnew : ∀ i, st.nr ≤ i → ¬S c i)
    (hstores : Stores P X rk0 st.mkskipped S) (hdhr : st.dhrPub = some (chainPub X c))
    (hckr : st.ckr = some (chainKeyAt P X rk0 c st.nr))
    (h : receiveAt P maxSkip cap st n = .ok (st', mk)) :
    st.nr ≤ n ∧ mk = keyAt P X rk0 c n ∧
      (∃ table, st' = { st with
        ckr := some (chainKeyAt P X rk0 c (n + 1)), nr := n + 1, mkskipped := table }) ∧
      Stores P X rk0 st'.mkskipped fun d i => S d i ∨ d = c ∧ st.nr ≤ i ∧ i < n := by
  unfold receiveAt at h
  rw [hdhr, hckr] at h
  simp only [bind_ok, orRaise_ok, pure_ok] at h
  obtain ⟨-, hle, reached, hreach, ⟨ck, mk'⟩, hck, hresult⟩ := h
  have hskipped : (∃ table, reached = { st with
      ckr := some (chainKeyAt P X rk0 c n), nr := n, mkskipped := table }) ∧
      Stores P X rk0 reached.mkskipped fun d i => S d i ∨ d = c ∧ st.nr ≤ i ∧ i < n := by
    unfold advanceTo at hreach
    split at hreach
    · exact skipTo_stores hL hc hS hnew hstores hle hreach
    · rename_i hlt
      obtain rfl := Except.ok.inj hreach
      have heq : st.nr = n := by omega
      refine ⟨⟨st.mkskipped, ?_⟩, hstores.congr ?_⟩
      · rw [← heq, ← hckr]
      · intro d i
        constructor
        · exact Or.inl
        · rintro (hold | ⟨-, hge, hlt⟩)
          · exact hold
          · omega
  obtain ⟨⟨table, rfl⟩, hstored⟩ := hskipped
  simp only [Option.getD_some] at hck
  rw [kdfCk_of_length (chainKeyAt_length hc.2 n)] at hck
  obtain ⟨rfl, rfl⟩ := Prod.mk.inj (Except.ok.inj hck)
  obtain ⟨rfl, rfl⟩ := Prod.mk.inj hresult
  exact ⟨hle, rfl, ⟨table, rfl⟩, hstored⟩

/-! ## The place of a side -/

/-- The messages of the other side whose index the receiving chain has gone by. -/
def Passed (count : List Bytes → Nat) (l : List Bytes) (nr : Nat) (c : List Bytes) (n : Nat) : Prop :=
  c ∈ chains l.tail ∧ n < if c = l.tail then nr else count c

structure Holds (P : Platform) (X : X25519) (rk0 : Bytes) (count : List Bytes → Nat) (l : List Bytes)
    (party : Party) : Prop where
  priv : l.head? = some party.state.dhsPriv
  pub : party.state.dhsPub = chainPub X l
  rk : party.state.rk = (roots P X rk0 l).1
  dhr : party.state.dhrPub = l.tail.head?.map X.publicBytes
  cks : party.state.cks = if 2 ≤ l.length then some (chainKeyAt P X rk0 l (count l)) else none
  ns : party.state.ns = count l
  pn : party.state.pn = count l.tail.tail
  ckr : party.state.ckr =
    if 3 ≤ l.length then some (chainKeyAt P X rk0 l.tail party.state.nr) else none
  nr_le : party.state.nr ≤ count l.tail
  stored : Stores P X rk0 party.state.mkskipped fun c n =>
    Passed count l party.state.nr c n ∧ headerAt X count c n ∉ party.accepted.map Prod.fst
  sent : ∀ p, p ∈ party.sent ↔
    ∃ c ∈ chains l, ∃ n < count c, p = (headerAt X count c n, keyAt P X rk0 c n)
  accepted : ∀ p ∈ party.accepted, ∃ c n, (Passed count l party.state.nr c n ∧ n < 2 ^ 32) ∧
    p = (headerAt X count c n, keyAt P X rk0 c n)

theorem mem_chains_cases {c : List Bytes} (h : c ∈ chains l) : c = l ∨ c.length + 2 ≤ l.length := by
  by_cases hl : 2 ≤ l.length
  · rw [chains_of_long hl] at h
    rcases List.mem_cons.mp h with rfl | h
    · exact Or.inl rfl
    · have hlen := (mem_chains h).1.length_le
      simp only [List.length_tail] at hlen
      exact Or.inr (by omega)
  · rw [chains_of_short (by omega)] at h
    cases h

theorem headerAt_injective (hL : Apart X L) {count : List Bytes → Nat} {c d : List Bytes} {n i : Nat}
    (hc : InSession L c) (hd : InSession L d) (h : headerAt X count c n = headerAt X count d i) :
    c = d ∧ n = i := by
  unfold headerAt at h
  obtain ⟨hpub, -, hindex⟩ := EcHeader.mk.inj h
  exact ⟨hL.eq_of_pub hc.1 hd.1 hc.ne_nil hd.ne_nil hpub, hindex⟩

theorem Passed.inSession {count : List Bytes → Nat} {nr n : Nat} {c : List Bytes}
    (h : Passed count l nr c n) (hl : l <:+ L) : InSession L c :=
  inSession_of_chains h.1 ((List.tail_suffix l).trans hl)

theorem Holds.length_pos {count : List Bytes → Nat} {party : Party} (h : Holds P X rk0 count l party) :
    1 ≤ l.length := by
  have hpriv := h.priv
  cases l with
  | nil => cases hpriv
  | cons k rest => simp

theorem Holds.dhr_of_long {count : List Bytes → Nat} {party : Party}
    (h : Holds P X rk0 count l party) (hlong : 3 ≤ l.length) :
    party.state.dhrPub = some (chainPub X l.tail) := by
  rw [h.dhr]
  match l, hlong with
  | _ :: _ :: _, _ => rfl

/-- Messages of chains that are not the side's present ones do not touch what it holds. -/
theorem Holds.congr {count count' : List Bytes → Nat} {party : Party}
    (h : Holds P X rk0 count l party) (hown : count' l = count l)
    (holder : ∀ x : List Bytes, x.length + 2 ≤ l.length ∨ x = [] → count' x = count x)
    (hle : count l.tail ≤ count' l.tail) : Holds P X rk0 count' l party := by
  have hlen := h.length_pos
  have hsent : ∀ c ∈ chains l, count' c = count c := by
    intro c hc
    rcases mem_chains_cases hc with rfl | hshort
    · exact hown
    · exact holder c (Or.inl hshort)
  have hheader : ∀ c : List Bytes, 2 ≤ c.length → c.length ≤ l.length → ∀ n,
      headerAt X count' c n = headerAt X count c n := by
    intro c hlong hshort n
    unfold headerAt
    rw [holder c.tail.tail]
    simp only [List.length_tail]
    omega
  have hpassed : ∀ c n, Passed count' l party.state.nr c n ↔ Passed count l party.state.nr c n := by
    intro c n
    unfold Passed
    apply and_congr_right
    intro hc
    split
    · exact Iff.rfl
    · rename_i hother
      rcases mem_chains_cases hc with rfl | hshort
      · exact absurd rfl hother
      · rw [holder c]
        rw [List.length_tail] at hshort
        omega
  have hreceived : ∀ c n, Passed count l party.state.nr c n →
      headerAt X count' c n = headerAt X count c n := by
    intro c n hc
    obtain ⟨hsuffix, hlong⟩ := mem_chains hc.1
    have hshort := hsuffix.length_le
    rw [List.length_tail] at hshort
    exact hheader c hlong (by omega) n
  refine { h with
    cks := by rw [hown]; exact h.cks
    ns := by rw [hown]; exact h.ns
    pn := ?_
    nr_le := h.nr_le.trans hle
    stored := h.stored.congr ?_
    sent := ?_
    accepted := ?_ }
  · rw [holder l.tail.tail]
    · exact h.pn
    · simp only [List.length_tail]
      by_cases hlong : 2 ≤ l.length
      · exact Or.inl (by omega)
      · refine Or.inr (List.length_eq_zero_iff.mp ?_)
        simp only [List.length_tail]
        omega
  · intro c n
    rw [hpassed]
    apply and_congr_right
    intro hc
    rw [hreceived c n hc]
  · intro p
    rw [h.sent p]
    constructor
    · rintro ⟨c, hc, n, hn, rfl⟩
      obtain ⟨hsuffix, hlong⟩ := mem_chains hc
      exact ⟨c, hc, n, by rw [hsent c hc]; exact hn, by rw [hheader c hlong hsuffix.length_le]⟩
    · rintro ⟨c, hc, n, hn, rfl⟩
      obtain ⟨hsuffix, hlong⟩ := mem_chains hc
      exact ⟨c, hc, n, by rw [← hsent c hc]; exact hn, by rw [hheader c hlong hsuffix.length_le]⟩
  · intro p hp
    obtain ⟨c, n, hc, rfl⟩ := h.accepted p hp
    exact ⟨c, n, ⟨(hpassed c n).mpr hc.1, hc.2⟩, by rw [hreceived c n hc.1]⟩


/-! ## Encrypting -/

theorem Holds.encrypt_eq {count : List Bytes → Nat} {party : Party} (h : Holds P X rk0 count l party)
    (hl : 2 ≤ l.length) : ecDrEncrypt P party.state = .ok
      ({ party.state with
          cks := some (chainKeyAt P X rk0 l (count l + 1)), ns := count l + 1 },
        headerAt X count l (count l), keyAt P X rk0 l (count l)) := by
  unfold ecDrEncrypt
  rw [h.cks, if_pos hl]
  simp only [kdfCk_of_length (chainKeyAt_length hl (count l)), h.pub, h.pn, h.ns]
  rfl

/-- One more message on a chain. -/
def bump (count : List Bytes → Nat) (c : List Bytes) : List Bytes → Nat :=
  Function.update count c (count c + 1)

theorem bump_self (count : List Bytes → Nat) (c : List Bytes) : bump count c c = count c + 1 :=
  Function.update_self c _ count

theorem bump_ne {count : List Bytes → Nat} {c d : List Bytes} (h : d ≠ c) : bump count c d = count d :=
  Function.update_of_ne h _ count

theorem le_bump (count : List Bytes → Nat) (c d : List Bytes) : count d ≤ bump count c d := by
  by_cases h : d = c
  · rw [h, bump_self]
    omega
  · rw [bump_ne h]

theorem Holds.sent_one {count : List Bytes → Nat} {party : Party} (h : Holds P X rk0 count l party)
    (hl : 2 ≤ l.length) : Holds P X rk0 (bump count l) l
      { party with
        state := { party.state with
          cks := some (chainKeyAt P X rk0 l (count l + 1)), ns := count l + 1 }
        sent := party.sent ++ [(headerAt X count l (count l), keyAt P X rk0 l (count l))] } := by
  have hother : ∀ {x : List Bytes}, x.length < l.length → bump count l x = count x := by
    intro x hx
    apply bump_ne
    rintro rfl
    omega
  have hheader : ∀ c : List Bytes, 2 ≤ c.length → c.length ≤ l.length → ∀ n,
      headerAt X (bump count l) c n = headerAt X count c n := by
    intro c hlong hshort n
    unfold headerAt
    rw [hother]
    simp only [List.length_tail]
    omega
  have hreceived : ∀ c ∈ chains l.tail, 2 ≤ c.length ∧ c.length < l.length := by
    intro c hc
    obtain ⟨hsuffix, hlong⟩ := mem_chains hc
    have hshort := hsuffix.length_le
    rw [List.length_tail] at hshort
    exact ⟨hlong, by omega⟩
  have hpassed : ∀ c n, Passed (bump count l) l party.state.nr c n ↔
      Passed count l party.state.nr c n := by
    intro c n
    unfold Passed
    apply and_congr_right
    intro hc
    rw [hother (hreceived c hc).2]
  refine { h with
    cks := by rw [if_pos hl, bump_self]
    ns := (bump_self count l).symm
    pn := ?_
    nr_le := h.nr_le.trans (le_bump count l l.tail)
    stored := h.stored.congr ?_
    sent := ?_
    accepted := ?_ }
  · rw [hother]
    · exact h.pn
    · simp only [List.length_tail]
      omega
  · intro c n
    rw [hpassed]
    apply and_congr_right
    intro hc
    obtain ⟨hlong, hshort⟩ := hreceived c hc.1
    rw [hheader c hlong (by omega) n]
  · intro p
    rw [List.mem_append, h.sent p, List.mem_singleton]
    constructor
    · rintro (⟨c, hc, n, hn, rfl⟩ | rfl)
      · obtain ⟨hsuffix, hlong⟩ := mem_chains hc
        exact ⟨c, hc, n, lt_of_lt_of_le hn (le_bump count l c),
          by rw [hheader c hlong hsuffix.length_le]⟩
      · refine ⟨l, ?_, count l, ?_, ?_⟩
        · rw [chains_of_long hl]
          exact List.mem_cons_self
        · rw [bump_self]
          omega
        · rw [hheader l hl (Nat.le_refl _)]
    · rintro ⟨c, hc, n, hn, rfl⟩
      obtain ⟨hsuffix, hlong⟩ := mem_chains hc
      rw [hheader c hlong hsuffix.length_le]
      rcases mem_chains_cases hc with rfl | hshort
      · rw [bump_self] at hn
        by_cases hlast : n = count c
        · exact Or.inr (by rw [hlast])
        · exact Or.inl ⟨c, hc, n, by omega, rfl⟩
      · rw [hother (by omega)] at hn
        exact Or.inl ⟨c, hc, n, hn, rfl⟩
  · intro p hp
    obtain ⟨c, n, hc, rfl⟩ := h.accepted p hp
    obtain ⟨hlong, hshort⟩ := hreceived c hc.1.1
    exact ⟨c, n, ⟨(hpassed c n).mpr hc.1, hc.2⟩, by rw [hheader c hlong (by omega)]⟩

/-! ## Decrypting -/

theorem Holds.stored_inSession {count : List Bytes → Nat} {party : Party} (hl : l <:+ L) (c : List Bytes)
    (n : Nat) (h : Passed count l party.state.nr c n ∧
      headerAt X count c n ∉ party.accepted.map Prod.fst) : InSession L c :=
  h.1.inSession hl

theorem Holds.unpassed {count : List Bytes → Nat} {party : Party} (i : Nat)
    (hi : party.state.nr ≤ i) : ¬(Passed count l party.state.nr l.tail i ∧
      headerAt X count l.tail i ∉ party.accepted.map Prod.fst) := by
  rintro ⟨⟨-, hlt⟩, -⟩
  rw [if_pos rfl] at hlt
  omega

/-- A message of a chain the side knows, taken from the table or from the receiving chain. -/
theorem Holds.decrypt_known {count : List Bytes → Nat} {party : Party} (hL : Apart X L) (hl : l <:+ L)
    (h : Holds P X rk0 count l party) {c : List Bytes} (hc : c ∈ chains l.tail) {n : Nat}
    (hn : n < count c) (hnew : headerAt X count c n ∉ party.accepted.map Prod.fst)
    {maxSkip cap : Nat} {priv : Option Bytes} {st : EcDrState} {mk : Bytes}
    (hd : ecDrDecrypt P X maxSkip cap priv party.state (headerAt X count c n) = .ok (st, mk)) :
    mk = keyAt P X rk0 c n ∧ Holds P X rk0 count l (party.accept st (headerAt X count c n) mk) := by
  have hcL : InSession L c := inSession_of_chains hc ((List.tail_suffix l).trans hl)
  unfold ecDrDecrypt at hd
  obtain ⟨key, hkey, hd⟩ := bind_ok.mp hd
  have hkey' : mkKey (chainPub X c) n = .ok key := hkey
  split at hd
  · rename_i stored hget
    obtain ⟨rfl, rfl⟩ := Prod.mk.inj (pure_ok.mp hd)
    obtain ⟨⟨hpassed, -⟩, hmk⟩ := h.stored.get?_some hL (Holds.stored_inSession hl) hcL hkey' hget
    refine ⟨hmk, { h with stored := ?_, accepted := ?_ }⟩
    · refine (h.stored.erase hL (Holds.stored_inSession hl) hcL hkey').congr ?_
      intro d i
      simp only [Party.accept, List.map_cons, List.mem_cons, not_or]
      constructor
      · rintro ⟨⟨hp, hnot⟩, hother⟩
        refine ⟨hp, ?_, hnot⟩
        intro heq
        exact hother (headerAt_injective hL (hp.inSession hl) hcL heq)
      · rintro ⟨hp, hother, hnot⟩
        refine ⟨⟨hp, hnot⟩, ?_⟩
        rintro ⟨rfl, rfl⟩
        exact hother rfl
    · intro p hp
      rcases List.mem_cons.mp hp with rfl | hp
      · exact ⟨c, n, ⟨hpassed, (mkKey_ok.mp hkey').1⟩, by rw [hmk]⟩
      · exact h.accepted p hp
  · rename_i hnone
    have hunpassed : ¬Passed count l party.state.nr c n := by
      intro hpassed
      rw [h.stored.get?_of ⟨hpassed, hnew⟩ hkey'] at hnone
      cases hnone
    -- so the chain is the present one, and the index is still to come
    have hpresent : c = l.tail := by
      by_contra hother
      exact hunpassed ⟨hc, by rw [if_neg hother]; exact hn⟩
    subst hpresent
    have hlong : 3 ≤ l.length := by
      have hlen := hcL.2
      rw [List.length_tail] at hlen
      omega
    have hdhr := h.dhr_of_long hlong
    have hckr : party.state.ckr = some (chainKeyAt P X rk0 l.tail party.state.nr) := by
      rw [h.ckr, if_pos hlong]
    have hstays : turnRatchet P X maxSkip cap priv party.state (headerAt X count l.tail n) =
        .ok party.state := if_pos hdhr
    rw [hstays] at hd
    have hreceive : receiveAt P maxSkip cap party.state n = .ok (st, mk) := hd
    obtain ⟨hle, hmk, ⟨table, rfl⟩, hstored⟩ := receiveAt_stores hL hcL (Holds.stored_inSession hl)
      Holds.unpassed h.stored hdhr hckr hreceive
    have hpassed : ∀ d i, Passed count l (n + 1) d i ↔ Passed count l party.state.nr d i ∨
        d = l.tail ∧ party.state.nr ≤ i ∧ i < n + 1 := by
      intro d i
      unfold Passed
      by_cases hchain : d = l.tail
      · subst hchain
        simp only [hc, true_and, if_true]
        omega
      · simp only [hchain, if_false, false_and, or_false]
    have hfresh : ∀ i, party.state.nr ≤ i →
        headerAt X count l.tail i ∉ party.accepted.map Prod.fst := by
      intro i hi hmem
      obtain ⟨p, hp, heq⟩ := List.mem_map.mp hmem
      obtain ⟨d, j, ⟨hpass, -⟩, rfl⟩ := h.accepted p hp
      obtain ⟨rfl, rfl⟩ := headerAt_injective hL (hpass.inSession hl) hcL heq
      have hlt := hpass.2
      rw [if_pos rfl] at hlt
      omega
    refine ⟨hmk, { h with ckr := ?_, nr_le := ?_, stored := ?_, accepted := ?_ }⟩
    · rw [if_pos hlong]
      rfl
    · exact hn
    · refine hstored.congr ?_
      intro d i
      simp only [Party.accept, List.map_cons, List.mem_cons, not_or]
      rw [hpassed]
      constructor
      · rintro (⟨hp, hnot⟩ | ⟨rfl, hge, hlt⟩)
        · refine ⟨Or.inl hp, ?_, hnot⟩
          intro heq
          obtain ⟨rfl, rfl⟩ := headerAt_injective hL (hp.inSession hl) hcL heq
          exact hunpassed hp
        · refine ⟨Or.inr ⟨rfl, hge, by omega⟩, ?_, hfresh i hge⟩
          intro heq
          have hi := (headerAt_injective hL hcL hcL heq).2
          omega
      · rintro ⟨hp | ⟨rfl, hge, hlt⟩, hother, hnot⟩
        · exact Or.inl ⟨hp, hnot⟩
        · refine Or.inr ⟨rfl, hge, ?_⟩
          have hi : i ≠ n := by
            rintro rfl
            exact hother rfl
          omega
    · intro p hp
      rcases List.mem_cons.mp hp with rfl | hp
      · exact ⟨l.tail, n, ⟨(hpassed l.tail n).mpr (Or.inr ⟨rfl, hle, by omega⟩),
          (mkKey_ok.mp hkey').1⟩, by rw [hmk]⟩
      · obtain ⟨d, i, ⟨hpass, hindex⟩, rfl⟩ := h.accepted p hp
        exact ⟨d, i, ⟨(hpassed d i).mpr (Or.inl hpass), hindex⟩, rfl⟩

/-- Before the ratchet turns, the rest of the receiving chain is stored. -/
theorem Holds.closeChain_stores {count : List Bytes → Nat} {party : Party} (hL : Apart X L)
    (hl : l <:+ L) (h : Holds P X rk0 count l party) {maxSkip cap : Nat} {st : EcDrState}
    (hd : closeChain P maxSkip cap party.state (count l.tail) = .ok st) :
    st.dhsPriv = party.state.dhsPriv ∧ st.rk = party.state.rk ∧ st.ns = party.state.ns ∧
      Stores P X rk0 st.mkskipped fun c n => Passed count l (count l.tail) c n ∧
        headerAt X count c n ∉ party.accepted.map Prod.fst := by
  unfold closeChain at hd
  by_cases hlong : 3 ≤ l.length
  · have hdhr := h.dhr_of_long hlong
    have htail : InSession L l.tail := ⟨(List.tail_suffix l).trans hl, by rw [List.length_tail]; omega⟩
    have hpresent : l.tail ∈ chains l.tail := by
      rw [chains_of_long htail.2]
      exact List.mem_cons_self
    rw [hdhr, h.ckr, if_pos hlong] at hd
    simp only [bind_ok, orRaise_ok] at hd
    obtain ⟨-, hle, hskip⟩ := hd
    obtain ⟨⟨table, rfl⟩, hstored⟩ := skipTo_stores hL htail (Holds.stored_inSession hl)
      Holds.unpassed h.stored hle hskip
    refine ⟨rfl, rfl, rfl, hstored.congr ?_⟩
    intro d i
    unfold Passed
    by_cases hchain : d = l.tail
    · subst hchain
      simp only [hpresent, true_and, if_true]
      constructor
      · rintro (⟨hlt, hnot⟩ | ⟨hge, hlt⟩)
        · exact ⟨lt_of_lt_of_le hlt hle, hnot⟩
        · refine ⟨hlt, ?_⟩
          intro hmem
          obtain ⟨p, hp, heq⟩ := List.mem_map.mp hmem
          obtain ⟨e, j, ⟨hpass, -⟩, rfl⟩ := h.accepted p hp
          obtain ⟨rfl, rfl⟩ := headerAt_injective hL (hpass.inSession hl) htail heq
          have hbelow := hpass.2
          rw [if_pos rfl] at hbelow
          omega
      · rintro ⟨hlt, hnot⟩
        by_cases hi : i < party.state.nr
        · exact Or.inl ⟨hi, hnot⟩
        · exact Or.inr ⟨by omega, hlt⟩
    · simp only [hchain, if_false, false_and, or_false]
  · have hckr : party.state.ckr = none := by rw [h.ckr, if_neg hlong]
    have hnone : chains l.tail = [] := by
      apply chains_of_short
      rw [List.length_tail]
      omega
    have hsame : st = party.state := by
      rw [hckr] at hd
      cases hdhr : party.state.dhrPub with
      | none =>
        rw [hdhr] at hd
        exact (Except.ok.inj hd).symm
      | some dhr =>
        rw [hdhr] at hd
        exact (Except.ok.inj hd).symm
    subst hsame
    refine ⟨rfl, rfl, rfl, h.stored.congr ?_⟩
    intro d i
    unfold Passed
    simp only [hnone, List.not_mem_nil, false_and]

theorem not_mem_chains_tail (k : Bytes) (l : List Bytes) : k :: l ∉ chains l.tail := by
  intro hmem
  have hlen := (mem_chains hmem).1.length_le
  simp only [List.length_cons, List.length_tail] at hlen
  omega

theorem Holds.dhr_ne {count : List Bytes → Nat} {party : Party} {k : Bytes} (hL : Apart X (k :: l))
    (h : Holds P X rk0 count l party) : party.state.dhrPub ≠ some (X.publicBytes k) := by
  rw [h.dhr]
  intro heq
  obtain ⟨remote, hremote, hpub⟩ := Option.map_eq_some_iff.mp heq
  have hmem : remote ∈ l := List.mem_of_mem_tail (List.mem_of_mem_head? hremote)
  have hused := List.mem_map_of_mem (f := X.publicBytes) hmem
  rw [hpub] at hused
  exact (List.nodup_cons.mp hL.nodup).1 hused

/-- A message of the chain that the other side began last turns the ratchet. -/
theorem Holds.decrypt_new {count : List Bytes → Nat} {party : Party} {k : Bytes}
    (h0 : rk0.length = 32) (hL : Apart X (k :: l)) (h : Holds P X rk0 count l party)
    (hunsent : ∀ k', count (k' :: k :: l) = 0) {n : Nat} (hn : n < count (k :: l))
    {priv : Option Bytes} (hpriv : ∀ k', priv = some k' → ValidPriv k') {maxSkip cap : Nat}
    {st : EcDrState} {mk : Bytes}
    (hd : ecDrDecrypt P X maxSkip cap priv party.state (headerAt X count (k :: l) n) = .ok (st, mk)) :
    mk = keyAt P X rk0 (k :: l) n ∧ ∃ k', priv = some k' ∧ st.dhsPub = X.publicBytes k' ∧
      Holds P X rk0 count (k' :: k :: l) (party.accept st (headerAt X count (k :: l) n) mk) := by
  obtain ⟨own, rest, rfl⟩ : ∃ own rest, l = own :: rest := by
    have hlen := h.length_pos
    match l, hlen with
    | own :: rest, _ => exact ⟨own, rest, rfl⟩
  have hl : (own :: rest) <:+ (k :: own :: rest) := List.suffix_cons k _
  have hcL : InSession (k :: own :: rest) (k :: own :: rest) := ⟨List.suffix_rfl, by simp⟩
  have hpass : ∀ {nr i}, ¬Passed count (own :: rest) nr (k :: own :: rest) i :=
    fun hp => not_mem_chains_tail k _ hp.1
  unfold ecDrDecrypt at hd
  obtain ⟨key, hkey, hd⟩ := bind_ok.mp hd
  have hkey' : mkKey (chainPub X (k :: own :: rest)) n = .ok key := hkey
  rw [h.stored.get?_none hL (Holds.stored_inSession hl) hcL hkey' (fun hp => hpass hp.1)] at hd
  simp only [bind_ok] at hd
  obtain ⟨turned, hturn, hreceive⟩ := hd
  have hother : party.state.dhrPub ≠ some (headerAt X count (k :: own :: rest) n).dhPub := h.dhr_ne hL
  unfold turnRatchet at hturn
  rw [if_neg hother] at hturn
  obtain ⟨closed, hclose, hturn⟩ := bind_ok.mp hturn
  obtain ⟨hown, hroot, hns, hstored⟩ := h.closeChain_stores hL hl hclose
  cases hlocal : priv with
  | none =>
    rw [hlocal] at hturn
    cases hturn
  | some k' =>
    rw [hlocal] at hturn
    have hownKey : closed.dhsPriv = own := by
      rw [hown]
      exact (Option.some.inj h.priv).symm
    have hratchet : dhRatchet P X closed (X.publicBytes k) k' = .ok turned := hturn
    rw [dhRatchet_eq h0 (hL.valid k (by simp)) (hpriv k' hlocal) (hL.valid own (by simp)) hownKey
      (hroot.trans h.rk)] at hratchet
    have hturned := Except.ok.inj hratchet
    have hkept : Stores P X rk0 turned.mkskipped fun c n => Passed count (own :: rest) (count rest) c n ∧
        headerAt X count c n ∉ party.accepted.map Prod.fst := by
      rw [← hturned]
      exact hstored
    have hremote : turned.dhrPub = some (chainPub X (k :: own :: rest)) := by
      rw [← hturned]
      rfl
    have hchain : turned.ckr = some (chainKeyAt P X rk0 (k :: own :: rest) turned.nr) := by
      rw [← hturned]
      rfl
    have htaken : receiveAt P maxSkip cap turned n = .ok (st, mk) := hreceive
    obtain ⟨-, hmk, ⟨table, rfl⟩, hstored'⟩ := receiveAt_stores hL hcL
      (fun d i hd => hd.1.inSession hl) (fun i _ hd => hpass hd.1) hkept hremote hchain htaken
    subst hturned
    have hpassed : ∀ d i, Passed count (k' :: k :: own :: rest) (n + 1) d i ↔
        Passed count (own :: rest) (count rest) d i ∨ d = k :: own :: rest ∧ i < n + 1 := by
      intro d i
      have hchains : chains (k :: own :: rest) = (k :: own :: rest) :: chains rest := rfl
      unfold Passed
      simp only [List.tail_cons, hchains, List.mem_cons]
      by_cases hchain : d = k :: own :: rest
      · subst hchain
        have hnot : k :: own :: rest ∉ chains rest := not_mem_chains_tail k (own :: rest)
        simp only [hnot, true_or, true_and, if_true, false_and, false_or]
      · simp only [hchain, false_or, if_false, false_and, or_false]
        apply and_congr_right
        intro _
        by_cases hrest : d = rest
        · simp only [hrest, if_true]
        · simp only [hrest, if_false]
    refine ⟨hmk, k', rfl, rfl, ?_⟩
    exact {
      priv := rfl
      pub := rfl
      rk := rfl
      dhr := rfl
      cks := by
        rw [if_pos (by simp), hunsent k']
        rfl
      ns := (hunsent k').symm
      pn := hns.trans h.ns
      ckr := by
        rw [if_pos (by simp)]
        rfl
      nr_le := hn
      stored := by
        refine hstored'.congr ?_
        intro d i
        simp only [Party.accept, List.map_cons, List.mem_cons, not_or]
        rw [hpassed]
        constructor
        · rintro (⟨hp, hnot⟩ | ⟨rfl, -, hlt⟩)
          · refine ⟨Or.inl hp, ?_, hnot⟩
            intro heq
            obtain ⟨rfl, rfl⟩ := headerAt_injective hL (hp.inSession hl) hcL heq
            exact hpass hp
          · refine ⟨Or.inr ⟨rfl, by omega⟩, ?_, ?_⟩
            · intro heq
              have hi := (headerAt_injective hL hcL hcL heq).2
              omega
            · intro hmem
              obtain ⟨p, hp, heq⟩ := List.mem_map.mp hmem
              obtain ⟨e, j, ⟨hacc, -⟩, rfl⟩ := h.accepted p hp
              obtain ⟨rfl, rfl⟩ := headerAt_injective hL (hacc.inSession hl) hcL heq
              exact hpass hacc
        · rintro ⟨hp | ⟨rfl, hlt⟩, hne, hnot⟩
          · exact Or.inl ⟨hp, hnot⟩
          · refine Or.inr ⟨rfl, Nat.zero_le i, ?_⟩
            have hi : i ≠ n := by
              rintro rfl
              exact hne rfl
            omega
      sent := by
        intro p
        have hchains : chains (k' :: k :: own :: rest) =
            (k' :: k :: own :: rest) :: chains (own :: rest) := rfl
        simp only [Party.accept]
        rw [h.sent p, hchains]
        constructor
        · rintro ⟨c, hc, hrest⟩
          exact ⟨c, List.mem_cons_of_mem _ hc, hrest⟩
        · rintro ⟨c, hc, i, hi, rfl⟩
          rcases List.mem_cons.mp hc with rfl | hc
          · rw [hunsent k'] at hi
            omega
          · exact ⟨c, hc, i, hi, rfl⟩
      accepted := by
        intro p hp
        rcases List.mem_cons.mp hp with rfl | hp
        · exact ⟨k :: own :: rest, n, ⟨(hpassed _ n).mpr (Or.inr ⟨rfl, by omega⟩),
            (mkKey_ok.mp hkey').1⟩, by rw [hmk]⟩
        · obtain ⟨d, i, ⟨hacc, hindex⟩, rfl⟩ := h.accepted p hp
          refine ⟨d, i, ⟨(hpassed d i).mpr (Or.inl ⟨hacc.1, ?_⟩), hindex⟩, rfl⟩
          have hlt := hacc.2
          split
          · rename_i hpresent
            rw [if_pos hpresent] at hlt
            exact lt_of_lt_of_le hlt h.nr_le
          · rename_i hpresent
            rw [if_neg hpresent] at hlt
            exact hlt }

end Rdap.Protocol
