import Rdap.Protocol.Envelope

/-!
# The envelope codec is a bijection

Packing is defined on the envelopes of the declared widths, unpacking takes just the packed ones,
and either undoes the other. The length of what is taken is written in its prefix, so that nothing
that goes on from it, or stops short of it, is taken too.
-/

set_option autoImplicit false

namespace Rdap.Protocol.Rvn1
open Python Lib Braid

/-- Fields of the declared widths, a registered type, allowed flags, a lifetime, and a size that is
allowed on the wire. -/
structure Envelope.Valid (e : Envelope) : Prop where
  envType : e.envType ∈ registeredEnvTypes
  flags : 0 ≤ e.flags ∧ e.flags ≤ allowedFlags
  messageId : e.messageId.length = 16
  routingTag : e.routingTag.length = 16
  destDeviceHint : Word 8 e.destDeviceHint
  createdAt : Word 8 e.createdAt
  expiresAt : Word 8 e.expiresAt
  lifetime : e.createdAt < e.expiresAt
  hopLimit : Word 1 e.hopLimit
  replicationBudget : Word 1 e.replicationBudget
  nonce : e.antiReplayNonce.length = 12
  header : e.ratchetHeaderCiphertext.length < 256 ^ 2
  authentication : e.senderAuthentication.length = authenticationLen
  size : prefixLen + e.ratchetHeaderCiphertext.length + e.messageCiphertext.length + authenticationLen ≤
    maxWireEnvelopeBytes

/-! ## Packing -/

theorem packBytes_of_length {n : Nat} {b : Bytes} (h : b.length = n) : packBytes n b = b := by
  subst h
  simp [packBytes]

theorem packUnsigned_pos {w : Nat} {n : Int} (h : Word w n) : packUnsigned w n = .ok (word w n) := if_pos h

theorem ofBigEndian_word_natCast {w n : Nat} (h : n < 256 ^ w) : ofBigEndian (word w n) = n :=
  ofBigEndian_bigEndian h

theorem registered_word {n : Int} (h : n ∈ registeredEnvTypes) : Word 1 n := by
  revert n
  decide

/-- The fields of the prefix. -/
def Envelope.fields (e : Envelope) : List Bytes :=
  [magic, word 1 version, word 1 e.envType, word 2 e.flags, e.messageId, e.routingTag, word 8 e.destDeviceHint,
    word 8 e.createdAt, word 8 e.expiresAt, word 1 e.hopLimit, word 1 e.replicationBudget, e.antiReplayNonce,
    word 2 e.ratchetHeaderCiphertext.length, word 4 e.messageCiphertext.length,
    word 2 e.senderAuthentication.length]

theorem Envelope.Valid.flags_word {e : Envelope} (h : e.Valid) : Word 2 e.flags := by
  obtain ⟨hlow, hhigh⟩ := h.flags
  refine ⟨hlow, ?_⟩
  simp only [allowedFlags] at hhigh
  omega

theorem Envelope.Valid.body {e : Envelope} (h : e.Valid) : e.messageCiphertext.length < 256 ^ 4 := by
  have hsize := h.size
  simp only [maxWireEnvelopeBytes] at hsize
  omega

theorem Envelope.Valid.lengths {e : Envelope} (h : e.Valid) : e.fields.map List.length = prefixFmt := by
  simp only [Envelope.fields, List.map_cons, List.map_nil, word_length, h.messageId, h.routingTag, h.nonce]
  rfl

theorem pack_eq {e : Envelope} (h : e.Valid) :
    pack e = .ok (e.fields.flatten ++ e.ratchetHeaderCiphertext ++ e.messageCiphertext ++
      e.senderAuthentication) := by
  have hversion : Word 1 version := by decide
  have hheader : Word 2 (e.ratchetHeaderCiphertext.length : Int) := word_natCast h.header
  have hbody : Word 4 (e.messageCiphertext.length : Int) := word_natCast h.body
  have hauth : Word 2 (e.senderAuthentication.length : Int) := by
    rw [h.authentication]
    decide
  have hmagic : magic.length = 4 := rfl
  unfold pack packPrefix
  rw [packUnsigned_pos hversion, packUnsigned_pos (registered_word h.envType), packUnsigned_pos h.flags_word,
    packUnsigned_pos h.destDeviceHint, packUnsigned_pos h.createdAt, packUnsigned_pos h.expiresAt,
    packUnsigned_pos h.hopLimit, packUnsigned_pos h.replicationBudget, packUnsigned_pos hheader,
    packUnsigned_pos hbody, packUnsigned_pos hauth, packBytes_of_length hmagic, packBytes_of_length h.messageId,
    packBytes_of_length h.routingTag, packBytes_of_length h.nonce]
  rfl

/-! ## Unpacking what was packed -/

theorem strayFlags_zero {n : Nat} (hn : n < 256 ^ 2) : strayFlags n = 0 ↔ n ≤ allowedFlags := by
  constructor
  · intro h
    have hshift : strayFlags n >>> 2 = n / 4 % 2 ^ 14 := by
      have hmask : (0xFFFF ^^^ allowedFlags) >>> 2 = 2 ^ 14 - 1 := by decide
      rw [strayFlags, Nat.shiftRight_and_distrib, hmask, Nat.and_two_pow_sub_one_eq_mod, Nat.shiftRight_eq_div_pow]
    rw [h] at hshift
    simp only [allowedFlags]
    simp only [Nat.zero_shiftRight] at hshift
    omega
  · intro h
    have hsmall : ∀ m ≤ allowedFlags, strayFlags m = 0 := by decide
    exact hsmall n h

theorem fields_length {e : Envelope} (h : e.fields.map List.length = prefixFmt) :
    e.fields.flatten.length = prefixLen := by
  rw [List.length_flatten, h]
  rfl

/-- The wire form of an envelope. -/
def Envelope.wire (e : Envelope) : Bytes :=
  e.fields.flatten ++ (e.ratchetHeaderCiphertext ++ (e.messageCiphertext ++ e.senderAuthentication))

theorem unpack_wire {e : Envelope} (h : e.Valid) : unpack e.wire = some e := by
  have hstem := fields_length h.lengths
  have htake : e.wire.take prefixLen = e.fields.flatten := List.take_left' hstem
  have hdrop : e.wire.drop prefixLen =
      e.ratchetHeaderCiphertext ++ (e.messageCiphertext ++ e.senderAuthentication) := List.drop_left' hstem
  have hsize := h.size
  have hauth := h.authentication
  have hheader := ofBigEndian_word_natCast h.header
  have hbody := ofBigEndian_word_natCast h.body
  have hlast : ofBigEndian (word 2 e.senderAuthentication.length) = authenticationLen := by
    rw [hauth]
    decide
  have hlength : e.wire.length =
      prefixLen + e.ratchetHeaderCiphertext.length + e.messageCiphertext.length + authenticationLen := by
    simp only [Envelope.wire, List.length_append, hstem, hauth]
    omega
  have hmagic : e.wire.take 4 = magic := rfl
  have hversion : ((e.wire.getD 4 0).toNat : Int) = version := rfl
  have hflags : strayFlags (ofBigEndian (word 2 e.flags)) = 0 := by
    have hword := ofBigEndian_word h.flags_word
    have hbound := h.flags.2
    apply (strayFlags_zero ?_).mpr <;> simp only [allowedFlags] at hbound ⊢ <;> omega
  have hlife : ¬ofBigEndian (word 8 e.expiresAt) ≤ ofBigEndian (word 8 e.createdAt) := by
    have hcreated := ofBigEndian_word h.createdAt
    have hexpires := ofBigEndian_word h.expiresAt
    have hlt := h.lifetime
    omega
  unfold unpack
  rw [if_neg, htake, cut_flatten h.lengths]
  · have hchecks : ¬(((ofBigEndian (word 1 e.envType) : Nat) : Int) ∉ registeredEnvTypes ∨
        strayFlags (ofBigEndian (word 2 e.flags)) ≠ 0 ∨
        ofBigEndian (word 8 e.expiresAt) ≤ ofBigEndian (word 8 e.createdAt) ∨
        ofBigEndian (word 2 e.senderAuthentication.length) ≠ authenticationLen) := by
      rw [ofBigEndian_word (registered_word h.envType)]
      simp only [not_or, ne_eq, not_not]
      exact ⟨h.envType, hflags, hlife, hlast⟩
    unfold Envelope.fields unpackFields
    dsimp only
    rw [if_neg hchecks, hheader, hbody, hlast, if_neg (by rw [hlength]; omega)]
    rw [Nat.add_sub_cancel_left, Nat.add_sub_cancel_left, Nat.add_sub_cancel_left, hdrop]
    have hrest : e.wire.drop (prefixLen + e.ratchetHeaderCiphertext.length) =
        e.messageCiphertext ++ e.senderAuthentication := by
      rw [← List.drop_drop, hdrop, List.drop_left]
    have hend : e.wire.drop (prefixLen + e.ratchetHeaderCiphertext.length + e.messageCiphertext.length) =
        e.senderAuthentication := by
      rw [← List.drop_drop, hrest, List.drop_left]
    rw [hrest, hend, List.take_left, List.take_left, ← hauth, List.take_length,
      ofBigEndian_word (registered_word h.envType), ofBigEndian_word h.flags_word,
      ofBigEndian_word h.destDeviceHint, ofBigEndian_word h.createdAt, ofBigEndian_word h.expiresAt,
      ofBigEndian_word h.hopLimit, ofBigEndian_word h.replicationBudget]
  · rw [hlength]
    simp only [not_or, not_lt, ne_eq, not_not]
    refine ⟨by omega, by omega, hmagic, hversion⟩

/-! ## Packing what was unpacked -/

/-- The three slices after the prefix are all that is there. -/
theorem slices {raw : Bytes} {a b c : Nat} (h : raw.length = prefixLen + a + b + c) :
    raw.drop prefixLen = (raw.drop prefixLen).take a ++
      ((raw.drop (prefixLen + a)).take b ++ (raw.drop (prefixLen + a + b)).take c) := by
  have hlast : (raw.drop (prefixLen + a + b)).take c = raw.drop (prefixLen + a + b) := by
    apply List.take_of_length_le
    rw [List.length_drop]
    omega
  rw [hlast, ← List.drop_drop (i := b), List.take_append_drop, ← List.drop_drop (i := a), List.take_append_drop]

theorem unpack_some {raw : Bytes} {e : Envelope} (h : unpack raw = some e) : e.Valid ∧ raw = e.wire := by
  unfold unpack at h
  split at h
  · cases h
  rename_i hstart
  simp only [not_or, not_lt, ne_eq, not_not] at hstart
  obtain ⟨hlow, hhigh, hmagic, hversion⟩ := hstart
  have hlen : (raw.take prefixLen).length = prefixFmt.sum := by
    rw [List.length_take, Nat.min_eq_left hlow]
    rfl
  unfold unpackFields at h
  split at h
  · rename_i head ver envType flags messageId routingTag hint created expires hops budget nonce hdrLen bodyLen
      authLen heq
    obtain ⟨hwidths, hflat⟩ := (cut_eq_iff hlen).mp heq
    simp only [List.map_cons, List.map_nil, prefixFmt, List.cons.injEq, and_true] at hwidths
    obtain ⟨hhead, hver, hType, hflags, hid, htag, hhint, hcreated, hexpires, hhops, hbudget, hnonce, hhdr, hbody,
      hauth⟩ := hwidths
    split at h
    · cases h
    rename_i hchecks
    simp only [not_or, not_not, ne_eq, not_le] at hchecks
    obtain ⟨hregistered, hallowed, hlife, hauthLen⟩ := hchecks
    dsimp only at h
    split at h
    · cases h
    rename_i hsizes
    simp only [not_or, not_lt, ne_eq, not_not] at hsizes
    obtain ⟨hsize, hraw⟩ := hsizes
    rw [Nat.add_sub_cancel_left, Nat.add_sub_cancel_left, Nat.add_sub_cancel_left, Option.some_inj] at h
    have hstart : raw.take 4 = head := by
      rw [← List.take_left' hhead, ← List.flatten_cons, hflat, List.take_take]
      rfl
    have hheader : ((raw.drop prefixLen).take (ofBigEndian hdrLen)).length = ofBigEndian hdrLen := by
      rw [List.length_take, List.length_drop]
      omega
    have hmessage : ((raw.drop (prefixLen + ofBigEndian hdrLen)).take (ofBigEndian bodyLen)).length =
        ofBigEndian bodyLen := by
      rw [List.length_take, List.length_drop]
      omega
    have hsignature : ((raw.drop (prefixLen + ofBigEndian hdrLen + ofBigEndian bodyLen)).take
        (ofBigEndian authLen)).length = ofBigEndian authLen := by
      rw [List.length_take, List.length_drop]
      omega
    have hone : ver = word 1 version := by
      have hcut : some ver = some (((raw.take prefixLen).drop 4).take 1) := by
        have hget := congrArg (·[1]?) heq
        exact hget.symm
      have hfour : 4 < raw.length := Nat.lt_of_lt_of_le (by decide) hlow
      rw [Option.some_inj, List.drop_take, List.take_take, Nat.min_eq_left (by decide),
        take_one_drop 0 hfour] at hcut
      have hbyte : raw.getD 4 0 = 1 := UInt8.toNat_inj.mp (Int.ofNat_inj.mp hversion)
      rw [hcut, hbyte]
      rfl
    have hfields : e.fields = [head, ver, envType, flags, messageId, routingTag, hint, created, expires, hops,
        budget, nonce, hdrLen, bodyLen, authLen] := by
      subst h
      unfold Envelope.fields
      dsimp only
      rw [hheader, hmessage, hsignature, word_ofBigEndian hType, word_ofBigEndian hflags, word_ofBigEndian hhint,
        word_ofBigEndian hcreated, word_ofBigEndian hexpires, word_ofBigEndian hhops, word_ofBigEndian hbudget,
        word_ofBigEndian hhdr, word_ofBigEndian hbody, word_ofBigEndian hauth, ← hone, ← hstart, hmagic]
    constructor
    · subst h
      refine ⟨hregistered, ⟨Int.natCast_nonneg _, ?_⟩, hid, htag, word_of_length hhint, word_of_length hcreated,
        word_of_length hexpires, Int.ofNat_lt.mpr hlife, word_of_length hhops, word_of_length hbudget, hnonce, ?_,
        hsignature.trans hauthLen, ?_⟩
      · have hbound := (strayFlags_zero (hflags ▸ ofBigEndian_lt flags)).mp hallowed
        exact Int.ofNat_le.mpr hbound
      · rw [hheader]
        exact hhdr ▸ ofBigEndian_lt hdrLen
      · rw [hheader, hmessage, ← hauthLen]
        exact hsize
    · have hwire : raw = raw.take prefixLen ++ raw.drop prefixLen := (List.take_append_drop prefixLen raw).symm
      rw [slices hraw, ← hflat, ← hfields] at hwire
      rw [hwire, Envelope.wire]
      subst h
      rfl
  · cases h

/-! ## The codec -/

theorem pack_valid {e : Envelope} (h : e.Valid) : pack e = .ok e.wire := by
  rw [pack_eq h, Envelope.wire, List.append_assoc, List.append_assoc]

theorem pack_unpack {raw : Bytes} {e : Envelope} (h : unpack raw = some e) : pack e = .ok raw := by
  obtain ⟨hvalid, rfl⟩ := unpack_some h
  exact pack_valid hvalid

/-- What the prefix says the whole length is. -/
def declaredLength (raw : Bytes) : Nat := prefixLen + (((cut prefixFmt raw).drop 12).map ofBigEndian).sum

theorem declaredLength_wire_append {e : Envelope} (h : e.Valid) (rest : Bytes) :
    declaredLength (e.wire ++ rest) = e.wire.length := by
  have hheader := ofBigEndian_word_natCast h.header
  have hbody := ofBigEndian_word_natCast h.body
  have hauth : ofBigEndian (word 2 e.senderAuthentication.length) = e.senderAuthentication.length := by
    rw [h.authentication]
    decide
  have hcut : cut prefixFmt (e.wire ++ rest) = e.fields := by
    rw [Envelope.wire, List.append_assoc]
    exact cut_append h.lengths _
  rw [declaredLength, hcut, Envelope.wire, List.length_append, fields_length h.lengths]
  simp only [Envelope.fields, List.drop_succ_cons, List.drop_zero, List.map_cons, List.map_nil, List.sum_cons,
    List.sum_nil, hheader, hbody, hauth, List.length_append]
  rfl

theorem unpack_length {raw : Bytes} {e : Envelope} (h : unpack raw = some e) :
    raw.length = declaredLength raw := by
  obtain ⟨hvalid, rfl⟩ := unpack_some h
  have hlength := declaredLength_wire_append hvalid []
  rw [List.append_nil] at hlength
  exact hlength.symm

theorem unpack_append {raw rest : Bytes} {e f : Envelope} (h : unpack raw = some e)
    (hrest : unpack (raw ++ rest) = some f) : rest = [] := by
  obtain ⟨hvalid, rfl⟩ := unpack_some h
  have hlength := unpack_length hrest
  rw [declaredLength_wire_append hvalid, List.length_append] at hlength
  exact List.length_eq_zero_iff.mp (by omega)

theorem envelope_codec :
    (∀ e : Envelope, e.Valid → ∃ raw, pack e = .ok raw ∧ unpack raw = some e) ∧
    (∀ raw e, unpack raw = some e → e.Valid ∧ pack e = .ok raw) ∧
    (∀ raw, (unpack raw).isSome ↔ ∃ e : Envelope, e.Valid ∧ pack e = .ok raw) ∧
    (∀ raw, (unpack raw).isSome → raw.length = declaredLength raw) ∧
    (∀ raw rest, (unpack raw).isSome → (unpack (raw ++ rest)).isSome → rest = []) := by
  refine ⟨fun e he => ⟨e.wire, pack_valid he, unpack_wire he⟩, fun raw e h => ⟨(unpack_some h).1, pack_unpack h⟩,
    ?_, ?_, ?_⟩
  · intro raw
    rw [Option.isSome_iff_exists]
    constructor
    · rintro ⟨e, h⟩
      exact ⟨e, (unpack_some h).1, pack_unpack h⟩
    · rintro ⟨e, he, hpack⟩
      have hraw : e.wire = raw := Except.ok.inj ((pack_valid he).symm.trans hpack)
      exact ⟨e, hraw ▸ unpack_wire he⟩
  · intro raw h
    obtain ⟨e, he⟩ := Option.isSome_iff_exists.mp h
    exact unpack_length he
  · intro raw rest h hrest
    obtain ⟨e, he⟩ := Option.isSome_iff_exists.mp h
    obtain ⟨f, hf⟩ := Option.isSome_iff_exists.mp hrest
    exact unpack_append he hf

end Rdap.Protocol.Rvn1
