import Mathlib.Data.List.Infix
import Rdap.Protocol.EcRatchet

/-!
# The chains of a session

The private keys of a session, the latest first, decide every root, every chain and every
message key. The chains of one side are every second one of them.
-/

set_option autoImplicit false

namespace Rdap.Protocol
open Python Lib

variable (P : Platform) (X : X25519) (rk0 : Bytes)

/-- The shared secret of two private keys. -/
def dhSecret (a b : Bytes) : Bytes := (X.exchange a (X.publicBytes b)).getD []

/-- The root after the latest key, and the chain that begins with it. -/
def roots : List Bytes → Bytes × Bytes
  | k :: k' :: rest => rkStep P (roots (k' :: rest)).1 (dhSecret X k k')
  | _ => (rk0, [])

def chainKeyAt (l : List Bytes) : Nat → Bytes
  | 0 => (roots P X rk0 l).2
  | n + 1 => nextChainKey P (chainKeyAt l n)

def keyAt (l : List Bytes) (n : Nat) : Bytes := messageKey P (chainKeyAt P X rk0 l n)

/-- The public key that goes with the messages of a chain. -/
def chainPub : List Bytes → Bytes
  | k :: _ => X.publicBytes k
  | [] => []

/-- The sending chains of the side whose latest key comes first. -/
def chains : List Bytes → List (List Bytes)
  | k :: k' :: rest => (k :: k' :: rest) :: chains rest
  | _ => []

def headerAt (count : List Bytes → Nat) (c : List Bytes) (n : Nat) : EcHeader where
  dhPub := chainPub X c
  pn := count c.tail.tail
  n := n

variable {P X rk0}

/-! ## The pieces -/

theorem nextChainKey_length (ck : Bytes) : (nextChainKey P ck).length = 32 := hmacSha256_length P ck [2]

theorem rkStep_length (rk dhOut : Bytes) :
    (rkStep P rk dhOut).1.length = 32 ∧ (rkStep P rk dhOut).2.length = 32 := by
  have hlen := hkdfSha256_length P dhOut rk ecRkInfo 64
  unfold rkStep
  refine ⟨?_, ?_⟩
  · simp [hlen]
  · simp [hlen]

theorem kdfCk_of_length {ck : Bytes} (h : ck.length = 32) :
    kdfCk P ck = .ok (nextChainKey P ck, messageKey P ck) := by
  unfold kdfCk
  rw [orRaise_pos h]
  rfl

theorem dhSecret_spec {a b : Bytes} (ha : ValidPriv a) (hb : ValidPriv b) :
    X.exchange a (X.publicBytes b) = some (dhSecret X a b) ∧ dhSecret X a b = dhSecret X b a ∧
      (dhSecret X a b).length = 32 ∧ dhSecret X a b ≠ zeroKey := by
  obtain ⟨ss, hab, hba, hlen, hne⟩ := X.exchange_agrees ha hb
  unfold dhSecret
  rw [hab, hba]
  exact ⟨rfl, rfl, hlen, hne⟩

theorem x25519Public_of_valid {priv : Bytes} (h : ValidPriv priv) :
    x25519Public X priv = .ok (X.publicBytes priv) := by
  unfold x25519Public
  rw [orRaise_pos h]
  rfl

theorem x25519Dh_of_valid {a b : Bytes} (ha : ValidPriv a) (hb : ValidPriv b) :
    x25519Dh X a (X.publicBytes b) = .ok (dhSecret X a b) := by
  obtain ⟨hex, -, hlen, hne⟩ := dhSecret_spec (X := X) ha hb
  obtain ⟨hpub, hzero⟩ := X.publicBytes_valid hb
  unfold x25519Dh exchangeOrRaise
  rw [orRaise_pos ⟨ha.1, hpub⟩, orRaise_pos ⟨ha.2, hzero⟩, hex]
  simp only [bind, Except.bind, orRaise_pos hne]
  rfl

theorem kdfRk_of_valid {rk a b : Bytes} (hrk : rk.length = 32) (ha : ValidPriv a) (hb : ValidPriv b) :
    kdfRk P rk (dhSecret X a b) = .ok (rkStep P rk (dhSecret X a b)) := by
  obtain ⟨-, -, hlen, hne⟩ := dhSecret_spec (X := X) ha hb
  unfold kdfRk
  rw [orRaise_pos ⟨hrk, hlen⟩, orRaise_pos hne]
  rfl

theorem roots_length (h0 : rk0.length = 32) (l : List Bytes) : (roots P X rk0 l).1.length = 32 := by
  unfold roots
  split
  · exact (rkStep_length _ _).1
  · exact h0

theorem chainKeyAt_length {l : List Bytes} (hl : 2 ≤ l.length) (n : Nat) :
    (chainKeyAt P X rk0 l n).length = 32 := by
  cases n with
  | zero =>
    match l, hl with
    | k :: k' :: rest, _ => exact (rkStep_length _ _).2
  | succ n => exact nextChainKey_length _

/-- The ratchet turns to the next two chains of the session. -/
theorem dhRatchet_eq {st : EcDrState} {k k' own : Bytes} {rest : List Bytes} (h0 : rk0.length = 32)
    (hk : ValidPriv k) (hk' : ValidPriv k') (hown : ValidPriv own)
    (hpriv : st.dhsPriv = own) (hrk : st.rk = (roots P X rk0 (own :: rest)).1) :
    dhRatchet P X st (X.publicBytes k) k' = .ok
      { rk := (roots P X rk0 (k' :: k :: own :: rest)).1, dhsPriv := k', dhsPub := X.publicBytes k'
        dhrPub := some (X.publicBytes k)
        cks := some (roots P X rk0 (k' :: k :: own :: rest)).2
        ckr := some (roots P X rk0 (k :: own :: rest)).2
        ns := 0, nr := 0, pn := st.ns, mkskipped := st.mkskipped } := by
  have hroot : (roots P X rk0 (k :: own :: rest)) =
      rkStep P st.rk (dhSecret X own k) := by
    rw [hrk, (dhSecret_spec (X := X) hown hk).2.1]
    rfl
  have hroot' : roots P X rk0 (k' :: k :: own :: rest) =
      rkStep P (roots P X rk0 (k :: own :: rest)).1 (dhSecret X k' k) := rfl
  have hlen : st.rk.length = 32 := hrk ▸ roots_length h0 _
  unfold dhRatchet
  rw [hpriv, x25519Dh_of_valid hown hk]
  simp only [bind, Except.bind]
  rw [kdfRk_of_valid hlen hown hk, ← hroot]
  simp only [x25519Public_of_valid hk', x25519Dh_of_valid hk' hk]
  rw [kdfRk_of_valid (roots_length h0 _) hk' hk, ← hroot']
  rfl

/-! ## Telling chains apart -/

theorem mem_chains {c l : List Bytes} (h : c ∈ chains l) : c <:+ l ∧ 2 ≤ c.length := by
  induction l using chains.induct with
  | case1 k k' rest ih =>
    unfold chains at h
    rcases List.mem_cons.mp h with rfl | h
    · exact ⟨List.suffix_rfl, by simp⟩
    · obtain ⟨hsuffix, hlen⟩ := ih h
      exact ⟨hsuffix.trans ((List.suffix_cons k' rest).trans (List.suffix_cons k _)), hlen⟩
  | case2 l hl =>
    unfold chains at h
    split at h
    · exact absurd rfl (hl _ _ _)
    · cases h

theorem chains_of_long {l : List Bytes} (h : 2 ≤ l.length) : chains l = l :: chains l.tail.tail := by
  match l, h with
  | k :: k' :: rest, _ => rfl

theorem chains_of_short {l : List Bytes} (h : l.length < 2) : chains l = [] := by
  match l, h with
  | [], _ => rfl
  | [_], _ => rfl

/-- The keys of a session have different public keys of the right length. -/
structure Apart (X : X25519) (L : List Bytes) : Prop where
  valid : ∀ k ∈ L, ValidPriv k
  nodup : (L.map X.publicBytes).Nodup

theorem Apart.suffix {l L : List Bytes} (h : Apart X L) (hl : l <:+ L) : Apart X l where
  valid := fun k hk => h.valid k (hl.subset hk)
  nodup := h.nodup.sublist (hl.sublist.map _)

theorem Apart.chainPub_length {c L : List Bytes} (h : Apart X L) (hc : c <:+ L) (hne : c ≠ []) :
    (chainPub X c).length = 32 := by
  match c, hne with
  | k :: rest, _ => exact (X.publicBytes_valid (h.valid k (hc.subset List.mem_cons_self))).1

theorem chainPub_mem {c L : List Bytes} (hc : c <:+ L) (hne : c ≠ []) :
    chainPub X c ∈ L.map X.publicBytes := by
  match c, hne with
  | k :: rest, _ => exact List.mem_map_of_mem (hc.subset List.mem_cons_self)

theorem Apart.eq_of_pub {c d L : List Bytes} (h : Apart X L) (hc : c <:+ L) (hd : d <:+ L)
    (hcne : c ≠ []) (hdne : d ≠ []) (hpub : chainPub X c = chainPub X d) : c = d := by
  induction L with
  | nil => exact absurd (List.suffix_nil.mp hc) hcne
  | cons k rest ih =>
    obtain ⟨hnot, hrest⟩ := List.nodup_cons.mp h.nodup
    have hrestApart : Apart X rest := h.suffix (List.suffix_cons k rest)
    rcases List.suffix_cons_iff.mp hc with rfl | hc
    · rcases List.suffix_cons_iff.mp hd with rfl | hd
      · rfl
      · have hmem := chainPub_mem (X := X) hd hdne
        rw [← hpub] at hmem
        exact absurd hmem hnot
    · rcases List.suffix_cons_iff.mp hd with rfl | hd
      · have hmem := chainPub_mem (X := X) hc hcne
        rw [hpub] at hmem
        exact absurd hmem hnot
      · exact ih hrestApart hc hd

theorem mkKey_ok {dhPub key : Bytes} {n : Nat} :
    mkKey dhPub n = .ok key ↔ n < 2 ^ 32 ∧ key = dhPub ++ bigEndian 4 n := by
  unfold mkKey
  split
  · rename_i hn
    rw [Except.ok.injEq]
    exact ⟨fun h => ⟨hn, h.symm⟩, fun h => h.2.symm⟩
  · rename_i hn
    exact ⟨by simp, fun h => absurd h.1 hn⟩

theorem mkKey_injective {dhPub dhPub' key : Bytes} {n n' : Nat} (hlen : dhPub.length = dhPub'.length)
    (h : mkKey dhPub n = .ok key) (h' : mkKey dhPub' n' = .ok key) : dhPub = dhPub' ∧ n = n' := by
  obtain ⟨hn, rfl⟩ := mkKey_ok.mp h
  obtain ⟨hn', heq⟩ := mkKey_ok.mp h'
  obtain ⟨hpub, hindex⟩ := List.append_inj heq hlen
  exact ⟨hpub, bigEndian_injective (w := 4) (by omega) (by omega) hindex⟩

end Rdap.Protocol
