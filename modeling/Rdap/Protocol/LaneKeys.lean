import Rdap.Protocol.Display
import Rdap.Protocol.IndexedSession
import Rdap.Python.Hex

/-!
# Keys of a lane

Where the digest is injective on what is hashed, the key of an index belongs to one root, one sender, one
recipient and one index, and the associated data to one message.
-/

set_option autoImplicit false

namespace Rdap.Protocol.IndexedSession
open Python Lib Braid Identity Pairing
open Pairing.V1 (hmacInputs hmacSha256_injOn hmacKey_injective)

variable (P : Platform)

/-! ## One block -/

/-- `salt`, or zeros where there is none. -/
def hkdfSalt (salt : Bytes) : Bytes := if salt = [] then List.replicate 32 0 else salt

/-- The two strings that an HMAC hashes. -/
def hmacStrings (key msg : Bytes) : List Bytes :=
  let inner := (hmacKey P key).map (· ^^^ 0x36) ++ msg
  [inner, (hmacKey P key).map (· ^^^ 0x5c) ++ P.sha256 inner]

/-- What is hashed for one block of key material. -/
def hkdfStrings (ikm salt info : Bytes) : List Bytes :=
  hmacStrings P (hkdfSalt salt) ikm ++ hmacStrings P (hmacSha256 P (hkdfSalt salt) ikm) (info ++ [1])

theorem hkdfSha256_block (ikm salt info : Bytes) :
    hkdfSha256 P ikm salt info 32 = hmacSha256 P (hmacSha256 P (hkdfSalt salt) ikm) (info ++ [1]) := by
  have hblock : hkdfSha256 P ikm salt info 32 =
      (hmacSha256 P (hmacSha256 P (hkdfSalt salt) ikm) (info ++ [1]) ++ []).take 32 := rfl
  rw [hblock, List.append_nil]
  exact List.take_of_length_le (Nat.le_of_eq (hmacSha256_length P _ _))

variable {P} {hashed : Set Bytes}

theorem hmacInputs_subset {key msg : Bytes} (h : ∀ x ∈ hmacStrings P key msg, x ∈ hashed) :
    hmacInputs P key msg ⊆ hashed := by
  rintro x (rfl | rfl)
  · exact h _ List.mem_cons_self
  · exact h _ (List.mem_cons_of_mem _ List.mem_cons_self)

theorem hkdfSha256_injOn (hfree : Set.InjOn P.sha256 hashed) {ikm ikm' salt info info' : Bytes}
    (h : ∀ x ∈ hkdfStrings P ikm salt info, x ∈ hashed) (h' : ∀ x ∈ hkdfStrings P ikm' salt info', x ∈ hashed)
    (heq : hkdfSha256 P ikm salt info 32 = hkdfSha256 P ikm' salt info' 32) : ikm = ikm' ∧ info = info' := by
  rw [hkdfSha256_block, hkdfSha256_block] at heq
  obtain ⟨hextract, hexpand⟩ := List.forall_mem_append.mp h
  obtain ⟨hextract', hexpand'⟩ := List.forall_mem_append.mp h'
  obtain ⟨hkey, hinfo⟩ := hmacSha256_injOn hfree (hmacInputs_subset hexpand) (hmacInputs_subset hexpand') heq
  have hprk := hmacKey_injective (hmacSha256_length P _ _) (hmacSha256_length P _ _) hkey
  have hikm := hmacSha256_injOn hfree (hmacInputs_subset hextract) (hmacInputs_subset hextract') hprk
  exact ⟨hikm.2, List.append_cancel_right hinfo⟩

/-! ## Names -/

theorem canonicalBytes_ok {value : PyStr} {b : Bytes} (h : canonicalBytes P value = .ok b) :
    requireCanonicalAddress P value = .ok () ∧ encodeAscii value = .ok b := by
  obtain ⟨_, hcanonical, hencode⟩ := bind_ok.mp h
  exact ⟨hcanonical, hencode⟩

theorem requireCanonicalAddress_plain {value : PyStr} (h : requireCanonicalAddress P value = .ok ()) :
    ∀ c ∈ value, Bech32m.Plain c := by
  unfold requireCanonicalAddress at h
  simp only [bind_ok, orRaise_ok, exists_const] at h
  obtain ⟨-, hascii, h⟩ := h
  split at h
  · cases h
  · rename_i hash version hdecode
    simp only [bind_ok, orRaise_ok, exists_const] at h
    obtain ⟨⟨hstrip, hlower⟩, -⟩ := h
    unfold Address.decode at hdecode
    split at hdecode
    · rename_i hrp first payload hread
      split at hdecode
      · cases hdecode
      · rename_i hshape
        obtain rfl : hrp = lit "rvn" := not_not.mp fun hne => hshape (Or.inl hne)
        have hback := Bech32m.encode_decode hread
        rw [← hstrip, ← P.lower_ascii hascii, ← hlower] at hback
        rw [← hback]
        exact Bech32m.encode_plain Address.hrp_plain _
    · cases hdecode

theorem canonicalBytes_no_nul {value : PyStr} {b : Bytes} (h : canonicalBytes P value = .ok b) : 0 ∉ b := by
  obtain ⟨hcanonical, hencode⟩ := canonicalBytes_ok h
  obtain ⟨-, rfl⟩ := encodeAscii_ok hencode
  intro hmem
  obtain ⟨c, hc, hzero⟩ := List.mem_map.mp hmem
  obtain ⟨hlow, hhigh, -⟩ := requireCanonicalAddress_plain hcanonical c hc
  have hval : (UInt8.ofNat c.val).toNat = c.val := by
    rw [UInt8.toNat_ofNat']
    omega
  rw [hzero] at hval
  have hzero' : (0 : UInt8).toNat = 0 := rfl
  omega

theorem canonicalBytes_injective {s t : PyStr} {b : Bytes} (hs : canonicalBytes P s = .ok b)
    (ht : canonicalBytes P t = .ok b) : s = t :=
  encodeAscii_injective (canonicalBytes_ok hs).2 (canonicalBytes_ok ht).2

/-- A text ends with the first occurrence of what it does not contain. -/
theorem split_at_first {α : Type} {x : α} {s s' r r' : List α} (hs : x ∉ s) (hs' : x ∉ s')
    (h : s ++ x :: r = s' ++ x :: r') : s = s' ∧ r = r' := by
  induction s generalizing s' with
  | nil =>
    cases s' with
    | nil => exact ⟨rfl, (List.cons.inj h).2⟩
    | cons y rest => exact absurd (List.mem_cons.mpr (Or.inl (List.cons.inj h).1)) hs'
  | cons y rest ih =>
    cases s' with
    | nil => exact absurd (List.mem_cons.mpr (Or.inl (List.cons.inj h).1.symm)) hs
    | cons z rest' =>
      obtain ⟨rfl, htail⟩ := List.cons.inj h
      obtain ⟨rfl, hr⟩ := ih (fun hx => hs (List.mem_cons_of_mem _ hx))
        (fun hx => hs' (List.mem_cons_of_mem _ hx)) htail
      exact ⟨rfl, hr⟩

/-! ## Chains -/

/-- `label || NUL || sender || NUL || recipient` -/
def laneInfo (label sender recipient : Bytes) : Bytes := label ++ [0] ++ sender ++ [0] ++ recipient

theorem laneInfo_injective {label s s' r r' : Bytes} (hs : 0 ∉ s) (hs' : 0 ∉ s')
    (h : laneInfo label s r = laneInfo label s' r') : s = s' ∧ r = r' := by
  unfold laneInfo at h
  simp only [List.append_assoc, List.singleton_append] at h
  have htail := (List.cons.inj (List.append_cancel_left h)).2
  exact split_at_first hs hs' htail

variable (P) in
def chainKey (root sender recipient : Bytes) : Nat → Bytes
  | 0 => hkdfSha256 P root [] (laneInfo labelChainInit sender recipient) 32
  | n + 1 => hkdfSha256 P (chainKey root sender recipient n) [] labelChainAdvance 32

variable (P) in
/-- What is hashed for a chain key. -/
def chainStrings (root sender recipient : Bytes) : Nat → List Bytes
  | 0 => hkdfStrings P root [] (laneInfo labelChainInit sender recipient)
  | n + 1 =>
    chainStrings root sender recipient n ++ hkdfStrings P (chainKey P root sender recipient n) [] labelChainAdvance

theorem chainKey_length (root sender recipient : Bytes) (n : Nat) :
    (chainKey P root sender recipient n).length = 32 := by
  cases n <;> exact hkdfSha256_length P _ _ _ _

theorem labelChainInit_ne (s r : Bytes) : laneInfo labelChainInit s r ≠ labelChainAdvance := by
  have hne : labelChainInit ≠ labelChainAdvance.take labelChainInit.length := by decide
  intro h
  apply hne
  rw [← h, laneInfo]
  simp only [List.append_assoc, List.take_left]

/-- A chain key belongs to one root, one sender, one recipient and one index. -/
theorem chainKey_injOn (hfree : Set.InjOn P.sha256 hashed) {root root' s s' r r' : Bytes} {m n : Nat} (hs : 0 ∉ s)
    (hs' : 0 ∉ s') (h : ∀ x ∈ chainStrings P root s r m, x ∈ hashed)
    (h' : ∀ x ∈ chainStrings P root' s' r' n, x ∈ hashed)
    (heq : chainKey P root s r m = chainKey P root' s' r' n) : root = root' ∧ s = s' ∧ r = r' ∧ m = n := by
  induction m generalizing n with
  | zero =>
    cases n with
    | zero =>
      obtain ⟨hroot, hinfo⟩ := hkdfSha256_injOn hfree h h' heq
      obtain ⟨hsender, hrecipient⟩ := laneInfo_injective hs hs' hinfo
      exact ⟨hroot, hsender, hrecipient, rfl⟩
    | succ n =>
      obtain ⟨-, hinfo⟩ := hkdfSha256_injOn hfree h (List.forall_mem_append.mp h').2 heq
      exact absurd hinfo (labelChainInit_ne s r)
  | succ m ih =>
    obtain ⟨hbefore, hlast⟩ := List.forall_mem_append.mp h
    cases n with
    | zero =>
      obtain ⟨-, hinfo⟩ := hkdfSha256_injOn hfree hlast h' heq
      exact absurd hinfo.symm (labelChainInit_ne s' r')
    | succ n =>
      obtain ⟨hbefore', hlast'⟩ := List.forall_mem_append.mp h'
      obtain ⟨hkey, -⟩ := hkdfSha256_injOn hfree hlast hlast' heq
      obtain ⟨hroot, hsender, hrecipient, rfl⟩ := ih hbefore hbefore' hkey
      exact ⟨hroot, hsender, hrecipient, rfl⟩

theorem advanceTimes_chainKey (root sender recipient : Bytes) (m n : Nat) :
    advanceTimes P n (chainKey P root sender recipient m) = .ok (chainKey P root sender recipient (m + n)) := by
  induction n generalizing m with
  | zero => rfl
  | succ n ih =>
    have hnext : advanceChainKey P (chainKey P root sender recipient m) =
        .ok (chainKey P root sender recipient (m + 1)) := by
      unfold advanceChainKey
      rw [orRaise_pos (chainKey_length root sender recipient m)]
      rfl
    rw [advanceTimes, hnext, ok_bind, ih, Nat.add_right_comm, Nat.add_assoc]

theorem chainKeyAtIndex_ok {root : Bytes} {sender recipient : PyStr} {index : Int} {key : Bytes}
    (h : chainKeyAtIndex P root sender recipient index = .ok key) : Word 4 index ∧ ∃ s r,
      canonicalBytes P sender = .ok s ∧ canonicalBytes P recipient = .ok r ∧
        key = chainKey P root s r index.toNat := by
  unfold chainKeyAtIndex initialChainKey at h
  simp only [bind_ok, orRaise_ok, pure_ok, exists_const] at h
  obtain ⟨hindex, _, ⟨_, -, s, hs, r, hr, -, rfl⟩, hadvance⟩ := h
  have hchain := advanceTimes_chainKey (P := P) root s r 0 index.toNat
  rw [Nat.zero_add] at hchain
  have hkey : Except.ok (chainKey P root s r index.toNat) = Except.ok key := hchain.symm.trans hadvance
  exact ⟨⟨hindex.1, by omega⟩, s, r, hs, hr, (Except.ok.inj hkey).symm⟩

/-! ## Associated data -/

theorem asciiLower_asciiUpper (c : CodePoint) : asciiLower (asciiUpper c) = asciiLower c := by
  unfold asciiUpper
  split
  · rename_i hlow
    unfold asciiLower
    rw [dif_pos (by simp only; omega), dif_neg (by omega)]
    exact Fin.ext (Nat.sub_add_cancel (by omega))
  · rfl

theorem upper_hex_injective {a b : Bytes} (h : P.upper (hex a) = P.upper (hex b)) : a = b := by
  rw [P.upper_ascii (hex_ascii a), P.upper_ascii (hex_ascii b)] at h
  have hlower : ∀ x : Bytes, fromhex (((hex x).map asciiUpper).map asciiLower) = .ok x := by
    intro x
    have hfold : ((hex x).map asciiUpper).map asciiLower = (hex x).map asciiLower := by
      rw [List.map_map]
      exact List.map_congr_left fun c _ => asciiLower_asciiUpper c
    rw [hfold, fromhex_map_lower, fromhex_hex]
  have hback := hlower a
  rw [h, hlower b] at hback
  exact (Except.ok.inj hback).symm

theorem uuidText_injective {a b : Bytes} {text : PyStr} (ha : uuidText P a = .ok text)
    (hb : uuidText P b = .ok text) : a = b := by
  unfold uuidText between at ha hb
  simp only [bind_ok, orRaise_ok, pure_ok, exists_const] at ha hb
  obtain ⟨hlengthA, rfl⟩ := ha
  obtain ⟨hlengthB, h⟩ := hb
  have hlength : ∀ x : Bytes, x.length = 16 → (P.upper (hex x)).length = 32 := by
    intro x hx
    rw [P.upper_ascii (hex_ascii x), List.length_map, hex_length, hx]
  apply upper_hex_injective (P := P)
  have hA := hlength a hlengthA
  have hB := hlength b hlengthB
  generalize P.upper (hex a) = v at h hA
  generalize P.upper (hex b) = w at h hB
  simp only [List.append_assoc] at h
  obtain ⟨h0, h⟩ := List.append_inj h (by simp [hA, hB])
  obtain ⟨h1, h⟩ := List.append_inj (List.append_cancel_left h) (by simp [hA, hB])
  obtain ⟨h2, h⟩ := List.append_inj (List.append_cancel_left h) (by simp [hA, hB])
  obtain ⟨h3, h⟩ := List.append_inj (List.append_cancel_left h) (by simp [hA, hB])
  have h4 := List.append_cancel_left h
  have hparts : ∀ x : PyStr, x = x.take 8 ++ ((x.drop 8).take 4 ++ ((x.drop 12).take 4 ++
      ((x.drop 16).take 4 ++ x.drop 20))) := by
    intro x
    have hstep : ∀ k, (x.drop k).take 4 ++ x.drop (k + 4) = x.drop k := fun k => by
      rw [← List.drop_drop, List.take_append_drop]
    rw [hstep 16, hstep 12, hstep 8, List.take_append_drop]
  rw [hparts v, hparts w, h0, h1, h2, h3, h4]

/-- What the digest of the associated data covers. -/
def aadText (index : Int) (sender recipient msgId : Bytes) : Bytes :=
  aadDomain ++ [0] ++ [rvna1Proto, rvna1Suite] ++ word 4 index ++ [0] ++ sender ++ [0] ++ recipient ++ [0] ++ msgId

theorem aadText_injective {i i' : Int} {s s' r r' t t' : Bytes} (hi : Word 4 i) (hi' : Word 4 i') (hs : 0 ∉ s)
    (hs' : 0 ∉ s') (hr : 0 ∉ r) (hr' : 0 ∉ r') (h : aadText i s r t = aadText i' s' r' t') :
    i = i' ∧ s = s' ∧ r = r' ∧ t = t' := by
  unfold aadText at h
  simp only [List.append_assoc, List.singleton_append] at h
  have htail := List.append_cancel_left (List.cons.inj (List.append_cancel_left h)).2
  obtain ⟨hindex, htail⟩ := List.append_inj htail (by rw [word_length, word_length])
  obtain ⟨hsender, htail⟩ := split_at_first hs hs' (List.cons.inj htail).2
  obtain ⟨hrecipient, hid⟩ := split_at_first hr hr' htail
  exact ⟨word_injective hi hi' hindex, hsender, hrecipient, hid⟩

theorem buildAad_ok {index : Int} {sender recipient : PyStr} {messageId aad : Bytes}
    (h : buildAad P index sender recipient messageId = .ok aad) : Word 4 index ∧ ∃ s r text t,
      canonicalBytes P sender = .ok s ∧ canonicalBytes P recipient = .ok r ∧ uuidText P messageId = .ok text ∧
        encodeAscii text = .ok t ∧ aad = P.sha256 (aadText index s r t) := by
  unfold buildAad at h
  simp only [bind_ok, orRaise_ok, pure_ok, exists_const, toBytes_ok] at h
  obtain ⟨-, s, hs, r, hr, text, htext, t, ht, _, ⟨hindex, rfl⟩, rfl⟩ := h
  exact ⟨hindex, s, r, text, t, hs, hr, htext, ht, rfl⟩

/-! ## The context of an acknowledgement -/

variable (P) in
def ackKey (root sender recipient : Bytes) (n : Nat) : Bytes :=
  hkdfSha256 P (chainKey P (hkdfSha256 P root [] labelAckBase 32) sender recipient n) saltMsgSeal
    (laneInfo labelMsgKey sender recipient) 32

variable (P) in
/-- What is hashed for the key of an acknowledgement. -/
def ackStrings (root sender recipient : Bytes) (n : Nat) : List Bytes :=
  let base := hkdfSha256 P root [] labelAckBase 32
  hkdfStrings P root [] labelAckBase ++ (chainStrings P base sender recipient n ++
    hkdfStrings P (chainKey P base sender recipient n) saltMsgSeal (laneInfo labelMsgKey sender recipient))

/-- A key belongs to one root, one sender, one recipient and one index. -/
theorem ackKey_injOn (hfree : Set.InjOn P.sha256 hashed) {root root' s s' r r' : Bytes} {m n : Nat} (hs : 0 ∉ s)
    (hs' : 0 ∉ s') (h : ∀ x ∈ ackStrings P root s r m, x ∈ hashed) (h' : ∀ x ∈ ackStrings P root' s' r' n, x ∈ hashed)
    (heq : ackKey P root s r m = ackKey P root' s' r' n) : root = root' ∧ s = s' ∧ r = r' ∧ m = n := by
  obtain ⟨hbase, hrest⟩ := List.forall_mem_append.mp h
  obtain ⟨hbase', hrest'⟩ := List.forall_mem_append.mp h'
  obtain ⟨hchain, hlane⟩ := List.forall_mem_append.mp hrest
  obtain ⟨hchain', hlane'⟩ := List.forall_mem_append.mp hrest'
  obtain ⟨hkey, -⟩ := hkdfSha256_injOn hfree hlane hlane' heq
  obtain ⟨hbases, hsender, hrecipient, hindex⟩ := chainKey_injOn hfree hs hs' hchain hchain' hkey
  obtain ⟨hroot, -⟩ := hkdfSha256_injOn hfree hbase hbase' hbases
  exact ⟨hroot, hsender, hrecipient, hindex⟩

end Rdap.Protocol.IndexedSession
