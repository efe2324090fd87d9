import Rdap.Protocol.RatchetHolds

/-!
# Agreement of the two ratchets

One side has turned the ratchet last and leads, the other is one key behind. Each message
that is accepted yields the key it was sent with, whatever the order of the messages.
-/

set_option autoImplicit false

namespace Rdap.Protocol
open Python Lib

variable {P : Platform} {X : X25519} {rk0 : Bytes}

/-! ## The joint invariant -/

structure Joint (P : Platform) (X : X25519) (rk0 : Bytes) (L : List Bytes) (count : List Bytes → Nat)
    (lead : Side) (s : EcSession) : Prop where
  long : 2 ≤ L.length
  root : rk0.length = 32
  apart : Apart X L
  used : ∀ k ∈ L, X.publicBytes k ∈ s.used
  unsent : ∀ c : List Bytes, c.length < 2 ∨ L.length < c.length → count c = 0
  leads : Holds P X rk0 count L (s.party lead)
  follows : Holds P X rk0 count L.tail (s.party lead.other)

/-- What `ecMachine` does to a session when a side accepts. -/
def EcSession.accepting (s : EcSession) (side : Side) (st : EcDrState) (header : EcHeader) (mk : Bytes) :
    EcSession :=
  { s.setParty side ((s.party side).accept st header mk) with used := st.dhsPub :: s.used }

@[simp] theorem EcSession.party_accepting (s : EcSession) (side : Side) (st : EcDrState)
    (header : EcHeader) (mk : Bytes) : (s.accepting side st header mk).party side =
      (s.party side).accept st header mk := by cases side <;> rfl

@[simp] theorem EcSession.party_accepting_other (s : EcSession) (side : Side) (st : EcDrState)
    (header : EcHeader) (mk : Bytes) : (s.accepting side st header mk).party side.other =
      s.party side.other := by cases side <;> rfl

@[simp] theorem EcSession.used_accepting (s : EcSession) (side : Side) (st : EcDrState)
    (header : EcHeader) (mk : Bytes) : (s.accepting side st header mk).used = st.dhsPub :: s.used := rfl

/-- A message that the party has not yet accepted is the only kind it accepts. -/
def NoSecond (P : Platform) (X : X25519) (s : EcSession) : EcEvent → Prop
  | .encrypt _ => True
  | .decrypt side header maxSkip maxMkskipped priv =>
    header ∈ (s.party side).accepted.map Prod.fst → s.Fresh X priv →
      ∀ result, ecDrDecrypt P X maxSkip maxMkskipped priv (s.party side).state header ≠ .ok result

variable {L : List Bytes} {count : List Bytes → Nat} {lead : Side} {s t : EcSession}

theorem tail_ne (hL : 2 ≤ L.length) : L ≠ L.tail := by
  intro heq
  have hlen := congrArg List.length heq
  rw [List.length_tail] at hlen
  omega

theorem joint_encrypt_lead (h : Joint P X rk0 L count lead s) {st : EcDrState} {header : EcHeader}
    {mk : Bytes} (he : ecDrEncrypt P (s.party lead).state = .ok (st, header, mk)) :
    Joint P X rk0 L (bump count L) lead (s.setParty lead
      { s.party lead with state := st, sent := (s.party lead).sent ++ [(header, mk)] }) := by
  rw [h.leads.encrypt_eq h.long] at he
  obtain ⟨rfl, hsent⟩ := Prod.mk.inj (Except.ok.inj he)
  obtain ⟨rfl, rfl⟩ := Prod.mk.inj hsent
  refine { h with used := ?_, unsent := ?_, leads := ?_, follows := ?_ }
  · simpa using h.used
  · intro c hc
    rw [bump_ne]
    · exact h.unsent c hc
    · rintro rfl
      have hlong := h.long
      omega
  · rw [EcSession.party_setParty]
    exact h.leads.sent_one h.long
  · rw [EcSession.party_setParty_other]
    have hlong := h.long
    apply h.follows.congr
    · exact bump_ne (tail_ne h.long).symm
    · intro x hx
      apply bump_ne
      rintro rfl
      rw [List.length_tail] at hx
      rcases hx with hlen | rfl
      · omega
      · simp at hlong
    · exact le_bump count L L.tail.tail

theorem joint_encrypt_follow (h : Joint P X rk0 L count lead s) {st : EcDrState} {header : EcHeader}
    {mk : Bytes} (he : ecDrEncrypt P (s.party lead.other).state = .ok (st, header, mk)) :
    Joint P X rk0 L (bump count L.tail) lead (s.setParty lead.other
      { s.party lead.other with
        state := st, sent := (s.party lead.other).sent ++ [(header, mk)] }) := by
  have hlong := h.long
  have hchain : 2 ≤ L.tail.length := by
    by_contra hshort
    have hnone := h.follows.cks
    rw [if_neg hshort] at hnone
    unfold ecDrEncrypt at he
    rw [hnone] at he
    cases he
  rw [h.follows.encrypt_eq hchain] at he
  obtain ⟨rfl, hsent⟩ := Prod.mk.inj (Except.ok.inj he)
  obtain ⟨rfl, rfl⟩ := Prod.mk.inj hsent
  refine { h with used := ?_, unsent := ?_, leads := ?_, follows := ?_ }
  · simpa using h.used
  · intro c hc
    rw [bump_ne]
    · exact h.unsent c hc
    · rintro rfl
      rw [List.length_tail] at hc hchain
      omega
  · have hother := s.party_setParty_other lead.other
      { s.party lead.other with
        state := { (s.party lead.other).state with
          cks := some (chainKeyAt P X rk0 L.tail (count L.tail + 1)), ns := count L.tail + 1 }
        sent := (s.party lead.other).sent ++
          [(headerAt X count L.tail (count L.tail), keyAt P X rk0 L.tail (count L.tail))] }
    rw [Side.other_other] at hother
    rw [hother]
    apply h.leads.congr
    · exact bump_ne (tail_ne h.long)
    · intro x hx
      apply bump_ne
      rintro rfl
      rw [List.length_tail] at hx hchain
      rcases hx with hlen | hnil
      · omega
      · have hzero := congrArg List.length hnil
        rw [List.length_tail] at hzero
        simp at hzero
        omega
    · exact le_bump count L.tail L.tail
  · rw [EcSession.party_setParty]
    exact h.follows.sent_one hchain

theorem joint_known (h : Joint P X rk0 L count lead s) {side : Side} {l : List Bytes}
    (hside : lead = side ∧ l = L ∨ lead = side.other ∧ l = L.tail)
    {st : EcDrState} {header : EcHeader} {mk : Bytes}
    (hheld : Holds P X rk0 count l ((s.party side).accept st header mk)) :
    Joint P X rk0 L count lead (s.accepting side st header mk) := by
  refine { h with used := ?_, leads := ?_, follows := ?_ }
  · intro k hk
    rw [EcSession.used_accepting]
    exact List.mem_cons_of_mem _ (h.used k hk)
  · rcases hside with ⟨rfl, rfl⟩ | ⟨rfl, rfl⟩
    · rw [EcSession.party_accepting]
      exact hheld
    · rw [EcSession.party_accepting_other]
      exact h.leads
  · rcases hside with ⟨rfl, rfl⟩ | ⟨rfl, rfl⟩
    · rw [EcSession.party_accepting_other]
      exact h.follows
    · rw [Side.other_other, EcSession.party_accepting]
      exact hheld

theorem joint_new {k : Bytes} {l : List Bytes} (h : Joint P X rk0 (k :: l) count lead s) {k' : Bytes}
    (hvalid : ValidPriv k') (hfresh : X.publicBytes k' ∉ s.used) {st : EcDrState} {header : EcHeader}
    {mk : Bytes} (hpub : st.dhsPub = X.publicBytes k')
    (hheld : Holds P X rk0 count (k' :: k :: l) ((s.party lead.other).accept st header mk)) :
    Joint P X rk0 (k' :: k :: l) count lead.other (s.accepting lead.other st header mk) where
  long := by simp
  root := h.root
  apart := by
    refine ⟨?_, ?_⟩
    · intro key hkey
      rcases List.mem_cons.mp hkey with rfl | hkey
      · exact hvalid
      · exact h.apart.valid key hkey
    · rw [List.map_cons]
      refine List.nodup_cons.mpr ⟨?_, h.apart.nodup⟩
      intro hmem
      obtain ⟨key, hkey, heq⟩ := List.mem_map.mp hmem
      exact hfresh (heq ▸ h.used key hkey)
  used := by
    intro key hkey
    rw [EcSession.used_accepting]
    rcases List.mem_cons.mp hkey with rfl | hkey
    · rw [hpub]
      exact List.mem_cons_self
    · exact List.mem_cons_of_mem _ (h.used key hkey)
  unsent := by
    intro c hc
    apply h.unsent
    simp only [List.length_cons] at hc ⊢
    omega
  leads := by
    rw [EcSession.party_accepting]
    exact hheld
  follows := by
    rw [EcSession.party_accepting_other, Side.other_other]
    exact h.leads

/-- Where a header of the other side stands, seen from the side that is offered it. -/
theorem Joint.header_cases (h : Joint P X rk0 L count lead s) {side : Side} {header : EcHeader}
    {mk : Bytes} (hsent : (header, mk) ∈ (s.party side.other).sent) :
    ∃ c n, n < count c ∧ header = headerAt X count c n ∧ mk = keyAt P X rk0 c n ∧
      ((lead = side ∧ c ∈ chains L.tail) ∨ (lead = side.other ∧ c ∈ chains L.tail.tail) ∨
        (lead = side.other ∧ c = L)) := by
  rcases Side.eq_or_other side lead with rfl | rfl
  · obtain ⟨c, hc, n, hn, heq⟩ := (h.follows.sent _).mp hsent
    obtain ⟨rfl, rfl⟩ := Prod.mk.inj heq
    exact ⟨c, n, hn, rfl, rfl, Or.inl ⟨rfl, hc⟩⟩
  · obtain ⟨c, hc, n, hn, heq⟩ := (h.leads.sent _).mp hsent
    obtain ⟨rfl, rfl⟩ := Prod.mk.inj heq
    rw [chains_of_long h.long] at hc
    rcases List.mem_cons.mp hc with rfl | hc
    · exact ⟨_, n, hn, rfl, rfl, Or.inr (Or.inr ⟨rfl, rfl⟩)⟩
    · exact ⟨c, n, hn, rfl, rfl, Or.inr (Or.inl ⟨rfl, hc⟩)⟩

/-- A new message that is accepted yields the key it was sent with. -/
theorem joint_decrypt (h : Joint P X rk0 L count lead s) {side : Side} {header : EcHeader} {mk : Bytes}
    (hsent : (header, mk) ∈ (s.party side.other).sent)
    (hnew : header ∉ (s.party side).accepted.map Prod.fst) {priv : Option Bytes}
    (hfresh : s.Fresh X priv) {maxSkip cap : Nat} {st : EcDrState} {key : Bytes}
    (hd : ecDrDecrypt P X maxSkip cap priv (s.party side).state header = .ok (st, key)) :
    key = mk ∧ ∃ L' lead', Joint P X rk0 L' count lead' (s.accepting side st header key) := by
  obtain ⟨c, n, hn, rfl, rfl, ⟨rfl, hc⟩ | ⟨rfl, hc⟩ | ⟨rfl, rfl⟩⟩ := h.header_cases hsent
  · obtain ⟨hkey, hheld⟩ := h.leads.decrypt_known h.apart List.suffix_rfl hc hn hnew hd
    exact ⟨hkey, L, lead, joint_known h (Or.inl ⟨rfl, rfl⟩) hheld⟩
  · have hfollows := h.follows
    rw [Side.other_other] at hfollows
    obtain ⟨hkey, hheld⟩ := hfollows.decrypt_known h.apart (List.tail_suffix L) hc hn hnew hd
    exact ⟨hkey, L, side.other, joint_known h (Or.inr ⟨rfl, rfl⟩) hheld⟩
  · obtain ⟨k, l, rfl⟩ : ∃ k l, c = k :: l := by
      have hlong := h.long
      match c, hlong with
      | k :: l, _ => exact ⟨k, l, rfl⟩
    have hfollows := h.follows
    rw [Side.other_other] at hfollows
    have hpriv : ∀ k', priv = some k' → ValidPriv k' := by
      rintro k' rfl
      exact hfresh.1
    obtain ⟨hkey, k', rfl, hpub, hheld⟩ := hfollows.decrypt_new h.root h.apart
      (fun k' => h.unsent _ (Or.inr (by simp))) hn hpriv hd
    have hnext : Joint P X rk0 (k' :: k :: l) count side.other.other
        (s.accepting side.other.other st (headerAt X count (k :: l) n) key) :=
      joint_new h hfresh.1 hfresh.2 hpub (by rw [Side.other_other]; exact hheld)
    rw [Side.other_other] at hnext
    exact ⟨hkey, _, _, hnext⟩

/-! ## Runs of a session -/

/-- Some joint place of the two sides. -/
def Agrees (P : Platform) (X : X25519) (rk0 : Bytes) (s : EcSession) : Prop :=
  ∃ L count lead, Joint P X rk0 L count lead s

theorem agrees_step {event : EcEvent} (hsecond : NoSecond P X s event) (h : Agrees P X rk0 s)
    (hstep : ecMachine P X s event = some t) : Agrees P X rk0 t := by
  obtain ⟨L, count, lead, h⟩ := h
  cases event with
  | encrypt side =>
    simp only [ecMachine] at hstep
    cases he : ecDrEncrypt P (s.party side).state with
    | error e =>
      rw [he] at hstep
      obtain rfl := Option.some.inj hstep
      exact ⟨L, count, lead, h⟩
    | ok result =>
      obtain ⟨st, header, mk⟩ := result
      rw [he] at hstep
      obtain rfl := Option.some.inj hstep
      rcases Side.eq_or_other lead side with rfl | rfl
      · exact ⟨L, _, _, joint_encrypt_lead h he⟩
      · exact ⟨L, _, _, joint_encrypt_follow h he⟩
  | decrypt side header maxSkip cap priv =>
    simp only [ecMachine] at hstep
    split at hstep
    · rename_i hguard
      obtain ⟨hsent, hfresh⟩ := hguard
      cases hd : ecDrDecrypt P X maxSkip cap priv (s.party side).state header with
      | error e =>
        rw [hd] at hstep
        obtain rfl := Option.some.inj hstep
        exact ⟨L, count, lead, h⟩
      | ok result =>
        obtain ⟨st, key⟩ := result
        rw [hd] at hstep
        obtain rfl := Option.some.inj hstep
        obtain ⟨⟨header', mk⟩, hmem, rfl⟩ := List.mem_map.mp hsent
        have hnew : header' ∉ (s.party side).accepted.map Prod.fst :=
          fun hold => hsecond hold hfresh _ hd
        obtain ⟨-, L', lead', hjoint⟩ := joint_decrypt h hmem hnew hfresh hd
        exact ⟨L', count, lead', hjoint⟩
    · cases hstep

theorem x25519Public_ok {priv pub : Bytes} (h : x25519Public X priv = .ok pub) :
    ValidPriv priv ∧ pub = X.publicBytes priv := by
  unfold x25519Public at h
  simp only [bind_ok, orRaise_ok, pure_ok] at h
  obtain ⟨-, hvalid, rfl⟩ := h
  exact ⟨hvalid, rfl⟩

/-- Two sides that were set up with the same root and matching keys agree. -/
theorem agrees_start {alicePriv bobPriv : Bytes} {alice bob : EcDrState}
    (ha : ecDrInitAlice P X rk0 alicePriv (X.publicBytes bobPriv) = .ok alice)
    (hb : ecDrInitBob X rk0 bobPriv = .ok bob)
    (hne : X.publicBytes alicePriv ≠ X.publicBytes bobPriv) :
    Joint P X rk0 [alicePriv, bobPriv] (fun _ => 0) .alice (EcSession.start alice bob) := by
  unfold ecDrInitBob at hb
  simp only [bind_ok, pure_ok] at hb
  obtain ⟨bobPub, hbobPub, rfl⟩ := hb
  obtain ⟨hbob, rfl⟩ := x25519Public_ok hbobPub
  unfold ecDrInitAlice at ha
  simp only [bind_ok, pure_ok] at ha
  obtain ⟨ss, hss, ⟨rk, cks⟩, hrk, alicePub, halicePub, rfl⟩ := ha
  obtain ⟨halice, rfl⟩ := x25519Public_ok halicePub
  rw [x25519Dh_of_valid halice hbob] at hss
  obtain rfl := Except.ok.inj hss
  have hroot : rk0.length = 32 := by
    unfold kdfRk at hrk
    simp only [bind_ok, orRaise_ok] at hrk
    obtain ⟨-, hlen, -⟩ := hrk
    exact hlen.1
  rw [kdfRk_of_valid hroot halice hbob] at hrk
  have hroots : roots P X rk0 [alicePriv, bobPriv] = (rk, cks) := Except.ok.inj hrk
  have hempty : ∀ {l : List Bytes} {nr c n}, l.length < 3 → ¬Passed (fun _ => 0) l nr c n := by
    rintro l nr c n hl ⟨hc, -⟩
    rw [chains_of_short (by rw [List.length_tail]; omega)] at hc
    cases hc
  have hstored : ∀ {l : List Bytes} {accepted : List (EcHeader × Bytes)}, l.length < 3 →
      Stores P X rk0 .empty fun c n => Passed (fun _ => 0) l 0 c n ∧
        headerAt X (fun _ => 0) c n ∉ accepted.map Prod.fst := by
    intro l accepted hl key mk
    constructor
    · simp
    · rintro ⟨c, n, ⟨hp, -⟩, -⟩
      exact absurd hp (hempty hl)
  refine {
    long := by simp
    root := hroot
    apart := ⟨by simp [halice, hbob], by simpa using hne⟩
    used := by simp [EcSession.start]
    unsent := fun _ _ => rfl
    leads := ?_
    follows := ?_ }
  · exact {
      priv := rfl
      pub := rfl
      rk := by rw [hroots]; rfl
      dhr := rfl
      cks := by
        rw [if_pos (by simp)]
        change some cks = some (roots P X rk0 [alicePriv, bobPriv]).2
        rw [hroots]
      ns := rfl
      pn := rfl
      ckr := by rw [if_neg (by simp)]; rfl
      nr_le := Nat.le_refl 0
      stored := hstored (by simp)
      sent := by
        intro p
        constructor
        · intro hp
          cases hp
        · rintro ⟨c, -, n, hn, -⟩
          omega
      accepted := by
        intro p hp
        cases hp }
  · exact {
      priv := rfl
      pub := rfl
      rk := rfl
      dhr := rfl
      cks := by rw [if_neg (by simp)]; rfl
      ns := rfl
      pn := rfl
      ckr := by rw [if_neg (by simp)]; rfl
      nr_le := Nat.le_refl 0
      stored := hstored (by simp)
      sent := by
        intro p
        constructor
        · intro hp
          cases hp
        · rintro ⟨c, -, n, hn, -⟩
          omega
      accepted := by
        intro p hp
        cases hp }

/-! ## When a message is accepted -/

theorem insertSkipped_defined {cap : Nat} {table : KeyedTable Bytes Bytes} (key mk : Bytes)
    (h : table.count < cap) : ∃ table', insertSkipped cap table key mk = .ok table' ∧
      table'.count ≤ table.count + 1 := by
  unfold insertSkipped
  split
  · exact ⟨table, rfl, by omega⟩
  · rename_i hnew
    rw [if_neg (by omega)]
    refine ⟨table.set key mk, rfl, ?_⟩
    have habsent : table.get? key = none := by
      simpa [KeyedTable.contains] using hnew
    rw [KeyedTable.count_eq_weight, KeyedTable.count_eq_weight,
      KeyedTable.weight_set_of_absent table mk _ habsent]

theorem skipLoop_defined {cap steps nr : Nat} (dhPub : Bytes) {ck : Bytes} {table : KeyedTable Bytes Bytes}
    (hck : ck.length = 32) (hindex : steps = 0 ∨ nr + steps ≤ 2 ^ 32)
    (hroom : steps = 0 ∨ table.count + steps ≤ cap) :
    ∃ ck' table', skipLoop P cap dhPub steps ck nr table = .ok (ck', table') ∧
      table'.count ≤ table.count + steps := by
  induction steps generalizing nr ck table with
  | zero => exact ⟨ck, table, rfl, Nat.le_refl _⟩
  | succ steps ih =>
    have hkey : mkKey dhPub nr = .ok (dhPub ++ bigEndian 4 nr) := if_pos (by omega)
    have hspace : table.count < cap := by omega
    obtain ⟨table₁, hinsert, hcount⟩ :=
      insertSkipped_defined (dhPub ++ bigEndian 4 nr) (messageKey P ck) hspace
    have hindex' : steps = 0 ∨ nr + 1 + steps ≤ 2 ^ 32 := by omega
    have hroom' : steps = 0 ∨ table₁.count + steps ≤ cap := by omega
    obtain ⟨ck', table', hloop, hle⟩ := ih (nextChainKey_length (P := P) ck) hindex' hroom'
    refine ⟨ck', table', ?_, by omega⟩
    unfold skipLoop
    rw [kdfCk_of_length hck]
    simp only [bind, Except.bind, hkey, hinsert]
    exact hloop

theorem skipLoop_length {cap steps nr : Nat} {dhPub ck ck' : Bytes}
    {table table' : KeyedTable Bytes Bytes} (hck : ck.length = 32)
    (h : skipLoop P cap dhPub steps ck nr table = .ok (ck', table')) : ck'.length = 32 := by
  induction steps generalizing nr ck table with
  | zero =>
    obtain ⟨rfl, -⟩ := Prod.mk.inj (Except.ok.inj h)
    exact hck
  | succ steps ih =>
    unfold skipLoop at h
    rw [kdfCk_of_length hck] at h
    simp only [bind_ok] at h
    obtain ⟨⟨next, mk⟩, hnext, key, -, table₁, -, hloop⟩ := h
    obtain ⟨rfl, rfl⟩ := Prod.mk.inj (Except.ok.inj hnext)
    exact ih (nextChainKey_length ck) hloop

theorem skipTo_defined {maxSkip cap limit : Nat} {st : EcDrState} (dhPub : Bytes) {ck : Bytes}
    (hck : ck.length = 32) (hskip : limit - st.nr ≤ maxSkip)
    (hindex : limit - st.nr = 0 ∨ limit ≤ 2 ^ 32)
    (hroom : limit - st.nr = 0 ∨ st.mkskipped.count + (limit - st.nr) ≤ cap) :
    ∃ st' ck', skipTo P maxSkip cap st dhPub ck limit = .ok st' ∧ st'.ckr = some ck' ∧
      ck'.length = 32 ∧ st'.mkskipped.count ≤ st.mkskipped.count + (limit - st.nr) := by
  have hindex' : limit - st.nr = 0 ∨ st.nr + (limit - st.nr) ≤ 2 ^ 32 := by omega
  obtain ⟨ck', table', hloop, hle⟩ := skipLoop_defined (P := P) dhPub hck hindex' hroom
  refine ⟨{ st with ckr := some ck', nr := limit, mkskipped := table' }, ck', ?_, rfl,
    skipLoop_length hck hloop, hle⟩
  unfold skipTo
  rw [orRaise_pos hskip]
  simp only [bind, Except.bind, hloop]
  rfl

/-- The messages that a header makes its receiver skip in the present chain and in a new one. -/
def skipsPresent (st : EcDrState) (header : EcHeader) : Nat :=
  if st.dhrPub = some header.dhPub then header.n - st.nr else header.pn - st.nr

def skipsNext (st : EcDrState) (header : EcHeader) : Nat :=
  if st.dhrPub = some header.dhPub then 0 else header.n

/-- The key of the message is stored, or the skipped messages keep to the two limits. -/
def WithinLimits (maxSkip maxMkskipped : Nat) (st : EcDrState) (header : EcHeader) : Prop :=
  (∃ key, mkKey header.dhPub header.n = .ok key ∧ (st.mkskipped.get? key).isSome = true) ∨
  (skipsPresent st header ≤ maxSkip ∧ skipsNext st header ≤ maxSkip ∧
    (skipsPresent st header + skipsNext st header = 0 ∨
      st.mkskipped.count + skipsPresent st header + skipsNext st header ≤ maxMkskipped))

theorem decrypt_stored {maxSkip cap : Nat} {priv : Option Bytes} {st : EcDrState} {header : EcHeader}
    {key mk : Bytes} (hkey : mkKey header.dhPub header.n = .ok key)
    (hget : st.mkskipped.get? key = some mk) :
    ∃ result, ecDrDecrypt P X maxSkip cap priv st header = .ok result := by
  unfold ecDrDecrypt
  rw [hkey]
  simp only [bind, Except.bind, hget]
  exact ⟨_, rfl⟩

theorem decrypt_unstored {maxSkip cap : Nat} {priv : Option Bytes} {st : EcDrState} {header : EcHeader}
    {key : Bytes} (hkey : mkKey header.dhPub header.n = .ok key)
    (hget : st.mkskipped.get? key = none) :
    ecDrDecrypt P X maxSkip cap priv st header =
      (turnRatchet P X maxSkip cap priv st header).bind fun st =>
        receiveAt P maxSkip cap st header.n := by
  unfold ecDrDecrypt
  rw [hkey]
  simp only [bind, Except.bind, hget]

theorem receiveAt_defined {maxSkip cap n : Nat} {st : EcDrState} {dhPub ck : Bytes}
    (hdhr : st.dhrPub = some dhPub) (hckr : st.ckr = some ck) (hck : ck.length = 32) (hle : st.nr ≤ n)
    (hn : n < 2 ^ 32) (hskip : n - st.nr ≤ maxSkip)
    (hroom : n - st.nr = 0 ∨ st.mkskipped.count + (n - st.nr) ≤ cap) :
    ∃ result, receiveAt P maxSkip cap st n = .ok result := by
  have hadvance : ∃ st' ck', advanceTo P maxSkip cap st dhPub ck n = .ok st' ∧ st'.ckr = some ck' ∧
      ck'.length = 32 := by
    unfold advanceTo
    by_cases hlt : st.nr < n
    · rw [if_pos hlt]
      obtain ⟨st', ck', hskipTo, hckr', hlen, -⟩ :=
        skipTo_defined (P := P) dhPub hck hskip (Or.inr (Nat.le_of_lt hn)) hroom
      exact ⟨st', ck', hskipTo, hckr', hlen⟩
    · rw [if_neg hlt]
      exact ⟨st, ck, rfl, hckr, hck⟩
  obtain ⟨st', ck', hreach, hckr', hlen⟩ := hadvance
  unfold receiveAt
  rw [hdhr, hckr]
  simp only [orRaise_pos hle, bind, Except.bind, hreach, hckr', Option.getD_some,
    kdfCk_of_length hlen]
  exact ⟨_, rfl⟩

theorem Holds.known_defined {l : List Bytes} {party : Party} (hl : l <:+ L)
    (h : Holds P X rk0 count l party) {c : List Bytes} (hc : c ∈ chains l.tail) {n : Nat}
    (hn : n < count c) (hnew : headerAt X count c n ∉ party.accepted.map Prod.fst)
    (hindex : n < 2 ^ 32) {maxSkip cap : Nat} {priv : Option Bytes}
    (hlimits : WithinLimits maxSkip cap party.state (headerAt X count c n)) :
    ∃ result, ecDrDecrypt P X maxSkip cap priv party.state (headerAt X count c n) = .ok result := by
  have hcL : InSession L c := inSession_of_chains hc ((List.tail_suffix l).trans hl)
  have hkey : mkKey (headerAt X count c n).dhPub (headerAt X count c n).n =
      .ok (chainPub X c ++ bigEndian 4 n) := if_pos hindex
  cases hget : party.state.mkskipped.get? (chainPub X c ++ bigEndian 4 n) with
  | some mk => exact decrypt_stored hkey hget
  | none =>
    have hunpassed : ¬Passed count l party.state.nr c n := by
      intro hpassed
      rw [h.stored.get?_of ⟨hpassed, hnew⟩ hkey] at hget
      cases hget
    have hpresent : c = l.tail := by
      by_contra hother
      exact hunpassed ⟨hc, by rw [if_neg hother]; exact hn⟩
    subst hpresent
    have hle : party.state.nr ≤ n := by
      by_contra hlt
      exact hunpassed ⟨hc, by rw [if_pos rfl]; omega⟩
    have hlong : 3 ≤ l.length := by
      have hlen := hcL.2
      rw [List.length_tail] at hlen
      omega
    have hdhr : party.state.dhrPub = some (headerAt X count l.tail n).dhPub := h.dhr_of_long hlong
    have hckr : party.state.ckr = some (chainKeyAt P X rk0 l.tail party.state.nr) := by
      rw [h.ckr, if_pos hlong]
    have hskips : skipsPresent party.state (headerAt X count l.tail n) = n - party.state.nr :=
      if_pos hdhr
    have hstays : turnRatchet P X maxSkip cap priv party.state (headerAt X count l.tail n) =
        .ok party.state := if_pos hdhr
    rw [decrypt_unstored hkey hget, hstays]
    rcases hlimits with ⟨key, hkey', hsome⟩ | ⟨hskip, -, hroom⟩
    · rw [hkey] at hkey'
      rw [← Except.ok.inj hkey', hget] at hsome
      cases hsome
    · have hnone : skipsNext party.state (headerAt X count l.tail n) = 0 := if_pos hdhr
      rw [hskips] at hskip hroom
      rw [hnone] at hroom
      have hreceive : ∃ result, receiveAt P maxSkip cap party.state n = .ok result :=
        receiveAt_defined hdhr hckr (chainKeyAt_length hcL.2 _) hle hindex hskip (by omega)
      exact hreceive

theorem Holds.closeChain_defined {l : List Bytes} {party : Party} (h : Holds P X rk0 count l party)
    {maxSkip cap : Nat} (hindex : count l.tail ≤ 2 ^ 32)
    (hskip : count l.tail - party.state.nr ≤ maxSkip)
    (hroom : count l.tail - party.state.nr = 0 ∨
      party.state.mkskipped.count + (count l.tail - party.state.nr) ≤ cap) :
    ∃ st, closeChain P maxSkip cap party.state (count l.tail) = .ok st ∧
      st.mkskipped.count ≤ party.state.mkskipped.count + (count l.tail - party.state.nr) := by
  by_cases hlong : 3 ≤ l.length
  · have hlen : 2 ≤ l.tail.length := by
      rw [List.length_tail]
      omega
    obtain ⟨st, ck, hskipTo, -, -, hcount⟩ := skipTo_defined (P := P) (chainPub X l.tail)
      (show (chainKeyAt P X rk0 l.tail party.state.nr).length = 32 from chainKeyAt_length hlen _)
      hskip (Or.inr hindex) hroom
    refine ⟨st, ?_, hcount⟩
    unfold closeChain
    rw [h.dhr_of_long hlong, h.ckr, if_pos hlong]
    simp only [orRaise_pos h.nr_le, bind, Except.bind]
    exact hskipTo
  · have hckr : party.state.ckr = none := by rw [h.ckr, if_neg hlong]
    refine ⟨party.state, ?_, by omega⟩
    unfold closeChain
    rw [hckr]
    cases party.state.dhrPub <;> rfl

theorem Holds.new_defined {l : List Bytes} {party : Party} {k k' : Bytes} (h0 : rk0.length = 32)
    (hL : Apart X (k :: l)) (h : Holds P X rk0 count l party) {n : Nat} (hindex : n < 2 ^ 32)
    (hpn : count l.tail ≤ 2 ^ 32) (hvalid : ValidPriv k') {maxSkip cap : Nat}
    (hlimits : WithinLimits maxSkip cap party.state (headerAt X count (k :: l) n)) :
    ∃ result, ecDrDecrypt P X maxSkip cap (some k') party.state (headerAt X count (k :: l) n) =
      .ok result := by
  obtain ⟨own, rest, rfl⟩ : ∃ own rest, l = own :: rest := by
    have hlen := h.length_pos
    match l, hlen with
    | own :: rest, _ => exact ⟨own, rest, rfl⟩
  have hl : (own :: rest) <:+ (k :: own :: rest) := List.suffix_cons k _
  have hcL : InSession (k :: own :: rest) (k :: own :: rest) := ⟨List.suffix_rfl, by simp⟩
  have hkey : mkKey (headerAt X count (k :: own :: rest) n).dhPub
      (headerAt X count (k :: own :: rest) n).n =
        .ok (chainPub X (k :: own :: rest) ++ bigEndian 4 n) := if_pos hindex
  have hget := h.stored.get?_none hL (Holds.stored_inSession hl) hcL hkey
    (fun hp => not_mem_chains_tail k _ hp.1.1)
  have hother : party.state.dhrPub ≠ some (headerAt X count (k :: own :: rest) n).dhPub := h.dhr_ne hL
  have hpresent : skipsPresent party.state (headerAt X count (k :: own :: rest) n) =
      count rest - party.state.nr := if_neg hother
  have hnext : skipsNext party.state (headerAt X count (k :: own :: rest) n) = n := if_neg hother
  have hbounds : count rest - party.state.nr ≤ maxSkip ∧ n ≤ maxSkip ∧
      (count rest - party.state.nr + n = 0 ∨
        party.state.mkskipped.count + (count rest - party.state.nr) + n ≤ cap) := by
    rcases hlimits with ⟨key, hkey', hsome⟩ | hbounds
    · rw [hkey] at hkey'
      rw [← Except.ok.inj hkey', hget] at hsome
      cases hsome
    · rw [hpresent, hnext] at hbounds
      exact hbounds
  obtain ⟨hskip, hskip', hroom⟩ := hbounds
  have hspace : count rest - party.state.nr = 0 ∨
      party.state.mkskipped.count + (count rest - party.state.nr) ≤ cap := by omega
  obtain ⟨closed, hclose, hcount⟩ := h.closeChain_defined hpn hskip hspace
  obtain ⟨hown, hroot, -, -⟩ := h.closeChain_stores hL hl hclose
  have hownKey : closed.dhsPriv = own := by
    rw [hown]
    exact (Option.some.inj h.priv).symm
  have hratchet := dhRatchet_eq h0 (hL.valid k (by simp)) hvalid (hL.valid own (by simp)) hownKey
    (hroot.trans h.rk)
  have hturn : turnRatchet P X maxSkip cap (some k') party.state
      (headerAt X count (k :: own :: rest) n) = dhRatchet P X closed (X.publicBytes k) k' := by
    unfold turnRatchet
    rw [if_neg hother]
    have hclose' : closeChain P maxSkip cap party.state
        (headerAt X count (k :: own :: rest) n).pn = .ok closed := hclose
    rw [hclose']
    rfl
  obtain ⟨turned, hturned, hdhr, hckr, hzero, htable⟩ : ∃ turned,
      dhRatchet P X closed (X.publicBytes k) k' = .ok turned ∧
      turned.dhrPub = some (X.publicBytes k) ∧
      turned.ckr = some (roots P X rk0 (k :: own :: rest)).2 ∧ turned.nr = 0 ∧
      turned.mkskipped = closed.mkskipped := ⟨_, hratchet, rfl, rfl, rfl, rfl⟩
  rw [decrypt_unstored hkey hget, hturn, hturned]
  simp only [List.tail_cons] at hcount
  have hlen : (roots P X rk0 (k :: own :: rest)).2.length = 32 :=
    chainKeyAt_length (P := P) hcL.2 0
  have hreceive : ∃ result, receiveAt P maxSkip cap turned n = .ok result := by
    refine receiveAt_defined hdhr hckr hlen (by omega) hindex (by omega) ?_
    rw [htable, hzero]
    omega
  exact hreceive

/-! ## Agreement -/

/-- No message is delivered again once it was accepted. -/
def FirstDelivery (s : EcSession) : EcEvent → Prop
  | .encrypt _ => True
  | .decrypt side header _ _ _ => header ∉ (s.party side).accepted.map Prod.fst

theorem noSecond_of_firstDelivery {event : EcEvent} (h : FirstDelivery s event) : NoSecond P X s event := by
  cases event with
  | encrypt side => trivial
  | decrypt side header maxSkip cap priv => exact fun hold => absurd hold h

theorem Joint.accepted_sent (h : Joint P X rk0 L count lead s) {side : Side} {p : EcHeader × Bytes}
    (hp : p ∈ (s.party side).accepted) : p ∈ (s.party side.other).sent := by
  have hcount : ∀ {l : List Bytes} {party : Party} {c n}, Holds P X rk0 count l party →
      Passed count l party.state.nr c n → n < count c := by
    rintro l party c n hheld ⟨-, hlt⟩
    split at hlt
    · rename_i hpresent
      rw [hpresent]
      exact lt_of_lt_of_le hlt hheld.nr_le
    · exact hlt
  rcases Side.eq_or_other side lead with rfl | rfl
  · obtain ⟨c, n, ⟨hpassed, -⟩, rfl⟩ := h.leads.accepted p hp
    exact (h.follows.sent _).mpr ⟨c, hpassed.1, n, hcount h.leads hpassed, rfl⟩
  · have hfollows := h.follows
    rw [Side.other_other] at hfollows
    obtain ⟨c, n, ⟨hpassed, -⟩, rfl⟩ := hfollows.accepted p hp
    refine (h.leads.sent _).mpr ⟨c, ?_, n, hcount hfollows hpassed, rfl⟩
    rw [chains_of_long h.long]
    exact List.mem_cons_of_mem _ hpassed.1

/-- A new message within the limits is accepted. -/
theorem Joint.decrypt_defined (h : Joint P X rk0 L count lead s) {side : Side} {header : EcHeader}
    {mk : Bytes} (hsent : (header, mk) ∈ (s.party side.other).sent)
    (hnew : header ∉ (s.party side).accepted.map Prod.fst) (hindex : header.n < 2 ^ 32)
    (hpn : header.pn ≤ 2 ^ 32) {priv : Bytes} (hvalid : ValidPriv priv) {maxSkip cap : Nat}
    (hlimits : WithinLimits maxSkip cap (s.party side).state header) :
    ∃ result, ecDrDecrypt P X maxSkip cap (some priv) (s.party side).state header = .ok result := by
  obtain ⟨c, n, hn, rfl, rfl, ⟨rfl, hc⟩ | ⟨rfl, hc⟩ | ⟨rfl, rfl⟩⟩ := h.header_cases hsent
  · exact h.leads.known_defined List.suffix_rfl hc hn hnew hindex hlimits
  · have hfollows := h.follows
    rw [Side.other_other] at hfollows
    exact hfollows.known_defined (List.tail_suffix L) hc hn hnew hindex hlimits
  · obtain ⟨k, l, rfl⟩ : ∃ k l, c = k :: l := by
      have hlong := h.long
      match c, hlong with
      | k :: l, _ => exact ⟨k, l, rfl⟩
    have hfollows := h.follows
    rw [Side.other_other] at hfollows
    exact hfollows.new_defined h.root h.apart hindex hpn hvalid hlimits

/-- Each message within the limits is accepted with the key it was sent with. -/
theorem ratchet_agreement {alicePriv bobPriv : Bytes} {alice bob : EcDrState}
    (ha : ecDrInitAlice P X rk0 alicePriv (X.publicBytes bobPriv) = .ok alice)
    (hb : ecDrInitBob X rk0 bobPriv = .ok bob)
    (hne : X.publicBytes alicePriv ≠ X.publicBytes bobPriv) {events : List EcEvent}
    (honce : (ecMachine P X).Along FirstDelivery (EcSession.start alice bob) events)
    (hrun : (ecMachine P X).run (EcSession.start alice bob) events = some s) :
    (∀ side header mk maxSkip maxMkskipped priv, (header, mk) ∈ (s.party side.other).sent →
      header ∉ (s.party side).accepted.map Prod.fst → header.n < 2 ^ 32 → header.pn ≤ 2 ^ 32 →
      s.Fresh X (some priv) → WithinLimits maxSkip maxMkskipped (s.party side).state header →
      ∃ st, ecDrDecrypt P X maxSkip maxMkskipped (some priv) (s.party side).state header =
        .ok (st, mk)) ∧
    (∀ side, ∀ p ∈ (s.party side).accepted, p ∈ (s.party side.other).sent) ∧
    (∀ side e, ecDrEncrypt P (s.party side).state = .error e →
      ecMachine P X s (.encrypt side) = some s) ∧
    (∀ side header maxSkip maxMkskipped priv e t,
      ecDrDecrypt P X maxSkip maxMkskipped priv (s.party side).state header = .error e →
      ecMachine P X s (.decrypt side header maxSkip maxMkskipped priv) = some t → t = s) := by
  obtain ⟨L, count, lead, h⟩ : Agrees P X rk0 s :=
    Machine.invariant_along (fun hfirst => agrees_step (noSecond_of_firstDelivery hfirst)) honce
      ⟨_, _, _, agrees_start ha hb hne⟩ hrun
  refine ⟨?_, ?_, ?_, ?_⟩
  · intro side header mk maxSkip cap priv hsent hnew hindex hpn hfresh hlimits
    obtain ⟨⟨st, key⟩, hd⟩ := h.decrypt_defined hsent hnew hindex hpn hfresh.1 hlimits
    obtain ⟨rfl, -⟩ := joint_decrypt h hsent hnew hfresh hd
    exact ⟨st, hd⟩
  · intro side p hp
    exact h.accepted_sent hp
  · intro side e he
    simp only [ecMachine, he]
  · intro side header maxSkip cap priv e t he hstep
    simp only [ecMachine, he] at hstep
    split at hstep
    · exact (Option.some.inj hstep).symm
    · cases hstep

/-! ## Many messages on one chain -/

theorem start_defined {alicePriv bobPriv : Bytes} (h0 : rk0.length = 32) (ha : ValidPriv alicePriv)
    (hb : ValidPriv bobPriv) : ∃ alice bob,
      ecDrInitAlice P X rk0 alicePriv (X.publicBytes bobPriv) = .ok alice ∧
      ecDrInitBob X rk0 bobPriv = .ok bob := by
  unfold ecDrInitAlice ecDrInitBob
  simp only [x25519Dh_of_valid ha hb, kdfRk_of_valid h0 ha hb, x25519Public_of_valid ha,
    x25519Public_of_valid hb, bind, Except.bind]
  exact ⟨_, _, rfl, rfl⟩

theorem ecMachine_encrypt {side : Side} {st : EcDrState} {header : EcHeader} {mk : Bytes}
    (he : ecDrEncrypt P (s.party side).state = .ok (st, header, mk)) :
    ecMachine P X s (.encrypt side) = some (s.setParty side
      { s.party side with state := st, sent := (s.party side).sent ++ [(header, mk)] }) := by
  simp only [ecMachine, he]

/-- The leading side encrypts as often as it likes. -/
theorem joint_encrypt_many (h : Joint P X rk0 L count lead s) (k : Nat) :
    ∃ t count', (ecMachine P X).run s (List.replicate k (.encrypt lead)) = some t ∧
      (ecMachine P X).Along FirstDelivery s (List.replicate k (.encrypt lead)) ∧
      Joint P X rk0 L count' lead t ∧ count' L = count L + k ∧
      t.party lead.other = s.party lead.other ∧ t.used = s.used := by
  induction k generalizing s count with
  | zero => exact ⟨s, count, rfl, trivial, h, rfl, rfl, rfl⟩
  | succ k ih =>
    have he := h.leads.encrypt_eq h.long
    have hnext := joint_encrypt_lead h he
    obtain ⟨t, count', hrun, halong, hjoint, hcount, hother, hused⟩ := ih hnext
    have hstep := ecMachine_encrypt (X := X) he
    refine ⟨t, count', ?_, ?_, hjoint, ?_, ?_, ?_⟩
    · exact ((ecMachine P X).run_cons).mpr ⟨_, hstep, hrun⟩
    · refine ⟨trivial, ?_⟩
      intro u hu
      rw [hstep] at hu
      obtain rfl := Option.some.inj hu
      exact halong
    · rw [hcount, bump_self]
      omega
    · rw [hother, EcSession.party_setParty_other]
    · rw [hused, EcSession.used_setParty]

section Sample

/-- Keys that are their own public keys and agree on their union. -/
def sampleCurve : X25519 where
  publicBytes priv := priv
  exchange a b := some (List.zipWith (· ||| ·) a b)
  publicBytes_valid := fun h => h
  exchange_agrees := by
    intro a b ha hb
    refine ⟨List.zipWith (· ||| ·) a b, rfl, ?_, ?_, ?_⟩
    · rw [List.zipWith_comm_of_comm]
      intro x y
      exact UInt8.or_comm x y
    · rw [List.length_zipWith, ha.1, hb.1]
      rfl
    · intro hzero
      apply ha.2
      apply List.ext_getElem
      · rw [ha.1]
        rfl
      · intro i hi hi'
        have hlen := ha.1
        have hlen' := hb.1
        have hbyte : (List.zipWith (· ||| ·) a b)[i]? = some 0 := by
          rw [hzero]
          simp only [zeroKey, List.getElem?_replicate]
          rw [if_pos (by omega)]
        rw [List.getElem?_zipWith, List.getElem?_eq_getElem hi,
          List.getElem?_eq_getElem (by omega : i < b.length)] at hbyte
        have hor : a[i] ||| b[i] = 0 := Option.some.inj hbyte
        have hbot : a[i] = 0 := (UInt8.or_eq_zero_iff.mp hor).1
        rw [hbot]
        exact (List.getElem_replicate hi').symm

def ratchetPlatform : Platform := Platform.ofTable []

def aliceKey : Bytes := List.replicate 32 1
def bobKey : Bytes := List.replicate 32 2
def freshKey : Bytes := List.replicate 32 3

/-- Alice has sent this many messages, Bob has received none. -/
theorem sample_many (k : Nat) : ∃ alice bob s,
    ecDrInitAlice ratchetPlatform sampleCurve zeroKey aliceKey bobKey = .ok alice ∧
    ecDrInitBob sampleCurve zeroKey bobKey = .ok bob ∧
    (ecMachine ratchetPlatform sampleCurve).run (EcSession.start alice bob)
      (List.replicate k (.encrypt .alice)) = some s ∧
    (ecMachine ratchetPlatform sampleCurve).Along FirstDelivery (EcSession.start alice bob)
      (List.replicate k (.encrypt .alice)) ∧
    (∀ n < k, ∃ mk, (⟨aliceKey, 0, n⟩, mk) ∈ s.alice.sent) ∧ s.bob.accepted = [] ∧
    s.Fresh sampleCurve (some freshKey) ∧
    ∀ n, WithinLimits n n s.bob.state ⟨aliceKey, 0, n⟩ := by
  have halice : ValidPriv aliceKey := by decide
  have hbob : ValidPriv bobKey := by decide
  have hne : sampleCurve.publicBytes aliceKey ≠ sampleCurve.publicBytes bobKey :=
    show aliceKey ≠ bobKey by decide
  obtain ⟨alice, bob, ha, hb⟩ := start_defined (P := ratchetPlatform) (X := sampleCurve)
    (show zeroKey.length = 32 from rfl) halice hbob
  have hstart := agrees_start ha hb hne
  obtain ⟨s, count, hrun, halong, hjoint, hcount, hother, hused⟩ := joint_encrypt_many hstart k
  have hbobState : bob = ⟨zeroKey, bobKey, bobKey, none, none, none, 0, 0, 0, .empty⟩ := by
    have heq := hb
    unfold ecDrInitBob at heq
    rw [x25519Public_of_valid hbob] at heq
    exact (Except.ok.inj heq).symm
  have hparty : s.bob = { state := bob } := hother
  refine ⟨alice, bob, s, ha, hb, hrun, halong, ?_, ?_, ?_, ?_⟩
  · intro n hn
    refine ⟨keyAt ratchetPlatform sampleCurve zeroKey [aliceKey, bobKey] n,
      (hjoint.leads.sent _).mpr ⟨[aliceKey, bobKey], List.mem_cons_self, n, by omega, ?_⟩⟩
    have hpn : count [] = 0 := hjoint.unsent [] (Or.inl (by simp))
    simp only [headerAt, List.tail_cons, hpn]
    rfl
  · rw [hparty]
  · refine ⟨by decide, ?_⟩
    have halicePub : alice.dhsPub = aliceKey := hstart.leads.pub
    have hbobPub : bob.dhsPub = bobKey := hstart.follows.pub
    rw [hused]
    simp only [EcSession.start, halicePub, hbobPub]
    decide
  · intro n
    rw [hparty, hbobState]
    refine Or.inr ⟨?_, ?_, ?_⟩
    · simp [skipsPresent]
    · simp [skipsNext]
    · simp [skipsPresent, skipsNext]

/-- The message after the first `2 ^ 32` of a chain has no index of four bytes. -/
theorem index_overflow : ∃ alice bob s mk,
    ecDrInitAlice ratchetPlatform sampleCurve zeroKey aliceKey bobKey = .ok alice ∧
    ecDrInitBob sampleCurve zeroKey bobKey = .ok bob ∧
    (ecMachine ratchetPlatform sampleCurve).run (EcSession.start alice bob)
      (List.replicate (2 ^ 32 + 1) (.encrypt .alice)) = some s ∧
    (⟨aliceKey, 0, 2 ^ 32⟩, mk) ∈ s.alice.sent ∧ s.bob.accepted = [] ∧
    s.Fresh sampleCurve (some freshKey) ∧
    WithinLimits (2 ^ 32) (2 ^ 32) s.bob.state ⟨aliceKey, 0, 2 ^ 32⟩ ∧
    ecDrDecrypt ratchetPlatform sampleCurve (2 ^ 32) (2 ^ 32) (some freshKey) s.bob.state
      ⟨aliceKey, 0, 2 ^ 32⟩ = .error ⟨.overflowError, lit "int too big to convert"⟩ := by
  obtain ⟨alice, bob, s, ha, hb, hrun, -, hsent, hnone, hfresh, hlimits⟩ := sample_many (2 ^ 32 + 1)
  obtain ⟨mk, hmk⟩ := hsent (2 ^ 32) (Nat.lt_succ_self _)
  refine ⟨alice, bob, s, mk, ha, hb, hrun, hmk, hnone, hfresh, hlimits _, ?_⟩
  have hkey : mkKey aliceKey (2 ^ 32) = .error ⟨.overflowError, lit "int too big to convert"⟩ :=
    if_neg (Nat.lt_irrefl _)
  unfold ecDrDecrypt
  rw [hkey]
  rfl

theorem ratchet_agreement_sample : ∃ alice bob s mk st,
    ecDrInitAlice ratchetPlatform sampleCurve zeroKey aliceKey bobKey = .ok alice ∧
    ecDrInitBob sampleCurve zeroKey bobKey = .ok bob ∧
    (ecMachine ratchetPlatform sampleCurve).run (EcSession.start alice bob)
      (List.replicate 3 (.encrypt .alice)) = some s ∧
    (⟨aliceKey, 0, 2⟩, mk) ∈ s.alice.sent ∧
    ecDrDecrypt ratchetPlatform sampleCurve 2 2 (some freshKey) s.bob.state ⟨aliceKey, 0, 2⟩ =
      .ok (st, mk) := by
  obtain ⟨alice, bob, s, ha, hb, hrun, halong, hsent, hnone, hfresh, hlimits⟩ := sample_many 3
  obtain ⟨mk, hmk⟩ := hsent 2 (by omega)
  have hne : sampleCurve.publicBytes aliceKey ≠ sampleCurve.publicBytes bobKey :=
    show aliceKey ≠ bobKey by decide
  have hnew : (⟨aliceKey, 0, 2⟩ : EcHeader) ∉ (s.party .bob).accepted.map Prod.fst := by
    change _ ∉ s.bob.accepted.map Prod.fst
    rw [hnone]
    simp
  obtain ⟨st, hst⟩ := (ratchet_agreement ha hb hne halong hrun).1 .bob ⟨aliceKey, 0, 2⟩ mk 2 2 freshKey
    hmk hnew (by simp) (by simp) hfresh (hlimits 2)
  exact ⟨alice, bob, s, mk, st, ha, hb, hrun, hmk, hst⟩

end Sample

end Rdap.Protocol
