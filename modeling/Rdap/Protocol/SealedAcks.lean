import Rdap.Lib.Layout
import Rdap.Protocol.LaneKeys

/-!
# Sealed acknowledgements

A receiver opens just what was sealed under its own root, for its own direction and for the message that it
came in.
-/

set_option autoImplicit false

namespace Rdap.Protocol.IndexedSession
open Python Lib Braid Identity

variable {P : Platform} {A : Aead}

/-! ## The plaintext -/

theorem encodeSignedAck_ok {record : Ack} {signature data : Bytes} :
    encodeSignedAck record signature = .ok data ↔ record.ackedMessageId.length = 16 ∧ record.ackNonce.length = 12 ∧
      Word 8 record.createdAt ∧ (record.status = 1 ∨ record.status = 2) ∧ signature.length = 64 ∧
      [record.ackedMessageId, word 1 record.status, record.ackNonce, word 8 record.createdAt, signature].flatten =
        data := by
  unfold encodeSignedAck Ack.signingBytes canonU64
  simp only [bind_ok, orRaise_ok, pure_ok, exists_const, toBytes_ok, List.flatten_cons, List.flatten_nil,
    List.append_nil]
  constructor
  · rintro ⟨_, ⟨hid, hnonce, -, _, ⟨hcreated, rfl⟩, -⟩, hstatus, hsignature, _, ⟨-, rfl⟩, rfl⟩
    exact ⟨hid, hnonce, hcreated, hstatus, hsignature, rfl⟩
  · rintro ⟨hid, hnonce, hcreated, hstatus, hsignature, rfl⟩
    exact ⟨_, ⟨hid, hnonce, by omega, _, ⟨hcreated, rfl⟩, rfl⟩, hstatus, hsignature, _, ⟨hcreated, rfl⟩, rfl⟩

/-- The widths of an acknowledgement with its signature. -/
def ackWidths : List Nat := [16, 1, 12, 8, 64]

theorem cut_ack (data : Bytes) : cut ackWidths data =
    [data.take 16, (data.drop 16).take 1, (data.drop 17).take 12, (data.drop 29).take 8, (data.drop 37).take 64] := by
  simp only [ackWidths, cut, List.drop_drop, Nat.reduceAdd]

theorem word_status {b : UInt8} : word 1 ((b.toNat : Nat) : Int) = [b] := by
  have hbyte : ofBigEndian [b] = b.toNat := by
    unfold ofBigEndian
    simp
  rw [← hbyte]
  exact word_ofBigEndian rfl

/-- What is opened is the encoding of just one acknowledgement with its signature. -/
theorem signedAck_codec {record : Ack} {signature data : Bytes} :
    encodeSignedAck record signature = .ok data ↔ decodeSignedAck data = .ok ⟨record, signature⟩ := by
  rw [encodeSignedAck_ok]
  unfold decodeSignedAck
  simp only [bind_ok, orRaise_ok, pure_ok, exists_const]
  constructor
  · rintro ⟨hid, hnonce, hcreated, hstatus, hsignature, hdata⟩
    have hwidths : [record.ackedMessageId, word 1 record.status, record.ackNonce, word 8 record.createdAt,
        signature].map List.length = ackWidths := by
      simp only [List.map_cons, List.map_nil, hid, hnonce, hsignature, word_length, ackWidths]
    have hcut := cut_flatten hwidths
    rw [hdata, cut_ack] at hcut
    have hlength : data.length = ackPlaintextLen := by
      rw [← hdata]
      simp only [List.flatten_cons, List.flatten_nil, List.length_append, List.length_nil, hid, hnonce, hsignature,
        word_length]
      rfl
    injection hcut with hid' hcut
    injection hcut with hstatus' hcut
    injection hcut with hnonce' hcut
    injection hcut with hcreated' hcut
    injection hcut with hsignature' hcut
    rw [take_one_drop 0 (by rw [hlength]; decide)] at hstatus'
    have hbyte : (((data.getD 16 0).toNat : Nat) : Int) = record.status := by
      apply word_injective (w := 1) ⟨by omega, _⟩ ⟨by omega, _⟩ (word_status.trans hstatus')
      · have hbound := (data.getD 16 0).toNat_lt
        omega
      · omega
    rw [hbyte, hid', hnonce', hcreated', hsignature', ofBigEndian_word hcreated]
    exact ⟨hlength, hstatus, rfl⟩
  · rintro ⟨hlength, hstatus, hrecord⟩
    obtain ⟨rfl, rfl⟩ := SignedAck.mk.inj hrecord
    have hsum : ackWidths.sum = data.length := hlength.symm
    have hwidths := cut_lengths (Nat.le_of_eq hsum)
    have hflat := flatten_cut ackWidths data
    rw [hsum, List.take_length, cut_ack, take_one_drop 0 (by rw [hlength]; decide)] at hflat
    refine ⟨?_, ?_, ?_, hstatus, ?_, ?_⟩
    · simp [hlength, ackPlaintextLen]
    · simp [hlength, ackPlaintextLen]
    · exact word_of_length (by simp [hlength, ackPlaintextLen])
    · simp [hlength, ackPlaintextLen]
    · rw [word_status, word_ofBigEndian (by simp [hlength, ackPlaintextLen])]
      exact hflat

/-! ## The wire -/

/-- The widths of a sealed acknowledgement. -/
def sealedWidths : List Nat := [8, 1, 1, 4, 12, 117]

theorem cut_sealed (wire : Bytes) : cut sealedWidths wire = [wire.take 8, (wire.drop 8).take 1, (wire.drop 9).take 1,
    (wire.drop 10).take 4, wireNonce wire, (wire.drop 26).take 117] := by
  simp only [sealedWidths, cut, wireNonce, List.drop_drop, Nat.reduceAdd]

def sealedFields (index nonce ciphertext : Bytes) : List Bytes :=
  [rvna1Magic, [rvna1Proto], [rvna1Suite], index, nonce, ciphertext]

theorem cut_sealed_iff {wire index nonce ciphertext : Bytes} (hlength : wire.length = ackSealedWireLen) :
    cut sealedWidths wire = sealedFields index nonce ciphertext ↔
      (wire.take 8 = rvna1Magic ∧ wire.getD 8 0 = rvna1Proto ∧ wire.getD 9 0 = rvna1Suite) ∧
        (wire.drop 10).take 4 = index ∧ wireNonce wire = nonce ∧ wire.drop 26 = ciphertext := by
  have hlast : (wire.drop 26).take 117 = wire.drop 26 :=
    List.take_of_length_le (by rw [List.length_drop, hlength]; decide)
  rw [cut_sealed, take_one_drop 0 (by rw [hlength]; decide), take_one_drop 0 (by rw [hlength]; decide), hlast]
  unfold sealedFields
  simp only [List.cons.injEq, and_true, and_assoc]

theorem sealAck_ok {root : Bytes} {initiatorAddress responderAddress : PyStr} {direction index : Int}
    {outerMessageId plaintext nonce wire : Bytes} :
    sealAck P A root initiatorAddress responderAddress direction index outerMessageId plaintext nonce = .ok wire ↔
      plaintext.length = ackPlaintextLen ∧ (∃ a, decodeSignedAck plaintext = .ok a) ∧ nonce.length = 12 ∧
        Word 4 index ∧ ∃ key aad,
          ackContext P root initiatorAddress responderAddress direction index outerMessageId = .ok (key, aad) ∧
            (sealedFields (word 4 index) nonce (A.encrypt key nonce plaintext aad)).flatten = wire := by
  unfold sealAck sealedFields
  simp only [bind_ok, orRaise_ok, pure_ok, exists_const, toBytes_ok, Prod.exists, List.flatten_cons,
    List.flatten_nil, List.append_nil, List.append_assoc, List.cons_append, List.nil_append]
  constructor
  · rintro ⟨hlength, a, hdecoded, hnonce, key, aad, hcontext, _, ⟨hindex, rfl⟩, rfl⟩
    exact ⟨hlength, ⟨a, hdecoded⟩, hnonce, hindex, key, aad, hcontext, rfl⟩
  · rintro ⟨hlength, ⟨a, hdecoded⟩, hnonce, hindex, key, aad, hcontext, rfl⟩
    exact ⟨hlength, a, hdecoded, hnonce, key, aad, hcontext, _, ⟨hindex, rfl⟩, rfl⟩

theorem openAck_ok {root : Bytes} {initiatorAddress responderAddress : PyStr} {direction : Int}
    {outerMessageId wire plaintext : Bytes} :
    openAck P A root initiatorAddress responderAddress direction outerMessageId wire = .ok plaintext ↔
      wire.length = ackSealedWireLen ∧
        (wire.take 8 = rvna1Magic ∧ wire.getD 8 0 = rvna1Proto ∧ wire.getD 9 0 = rvna1Suite) ∧
        (∃ key aad,
          ackContext P root initiatorAddress responderAddress direction (wireIndex wire) outerMessageId =
            .ok (key, aad) ∧ A.decrypt key (wireNonce wire) (wire.drop 26) aad = .ok plaintext) ∧
        plaintext.length = ackPlaintextLen ∧ ∃ a, decodeSignedAck plaintext = .ok a := by
  unfold openAck
  simp only [bind_ok, orRaise_ok, pure_ok, exists_const, Prod.exists]
  constructor
  · rintro ⟨hlength, hheader, key, aad, hcontext, opened, hdecrypted, hsize, a, hdecoded, rfl⟩
    exact ⟨hlength, hheader, ⟨key, aad, hcontext, hdecrypted⟩, hsize, a, hdecoded⟩
  · rintro ⟨hlength, hheader, ⟨key, aad, hcontext, hdecrypted⟩, hsize, a, hdecoded⟩
    exact ⟨hlength, hheader, key, aad, hcontext, plaintext, hdecrypted, hsize, a, hdecoded, rfl⟩

/-- A wire of these fields, and nothing else, is cut into them. -/
theorem sealed_wire {wire nonce ciphertext : Bytes} {index : Int} (hindex : Word 4 index) (hnonce : nonce.length = 12)
    (hciphertext : ciphertext.length = 117) : (sealedFields (word 4 index) nonce ciphertext).flatten = wire ↔
      wire.length = ackSealedWireLen ∧
        (wire.take 8 = rvna1Magic ∧ wire.getD 8 0 = rvna1Proto ∧ wire.getD 9 0 = rvna1Suite) ∧
        wireIndex wire = index ∧ wireNonce wire = nonce ∧ wire.drop 26 = ciphertext := by
  have hwidths : (sealedFields (word 4 index) nonce ciphertext).map List.length = sealedWidths := by
    simp only [sealedFields, List.map_cons, List.map_nil, hnonce, hciphertext, word_length]
    rfl
  have hread : ∀ w : Bytes, w.length = ackSealedWireLen →
      (wireIndex w = index ↔ (w.drop 10).take 4 = word 4 index) := by
    intro w hw
    have hstretch : ((w.drop 10).take 4).length = 4 := by
      rw [List.length_take, List.length_drop, hw]
      rfl
    unfold wireIndex
    constructor
    · rintro rfl
      exact (word_ofBigEndian hstretch).symm
    · intro h
      rw [h, ofBigEndian_word hindex]
  constructor
  · rintro rfl
    have hlength : (sealedFields (word 4 index) nonce ciphertext).flatten.length = ackSealedWireLen := by
      rw [List.length_flatten, hwidths]
      rfl
    obtain ⟨hheader, hindexB, hnonceB, hrest⟩ := (cut_sealed_iff hlength).mp (cut_flatten hwidths)
    exact ⟨hlength, hheader, (hread _ hlength).mpr hindexB, hnonceB, hrest⟩
  · rintro ⟨hlength, hheader, hindexB, hnonceB, hrest⟩
    have hcut := (cut_sealed_iff hlength).mpr ⟨hheader, (hread wire hlength).mp hindexB, hnonceB, hrest⟩
    exact ((cut_eq_iff hlength).mp hcut).2

/-! ## Contexts -/

/-- One side's view: a root, the endpoints by role, a direction, an index and the message that carries. -/
structure AckContext where
  root : Bytes
  initiatorAddress : PyStr
  responderAddress : PyStr
  direction : Int
  index : Int
  outerMessageId : Bytes

namespace AckContext

variable (P)

def endpoints (c : AckContext) : Except PyExc (PyStr × PyStr) :=
  IndexedSession.endpoints P c.initiatorAddress c.responderAddress c.direction

/-- The key and the associated data. -/
def derive (c : AckContext) : Except PyExc (Bytes × Bytes) :=
  ackContext P c.root c.initiatorAddress c.responderAddress c.direction c.index c.outerMessageId

/-- What is hashed to derive them. -/
def inputs (c : AckContext) : Set Bytes :=
  {x | ∃ sender recipient s r, c.endpoints P = .ok (sender, recipient) ∧ canonicalBytes P sender = .ok s ∧
    canonicalBytes P recipient = .ok r ∧ (x ∈ ackStrings P c.root s r c.index.toNat ∨
      ∃ text t, uuidText P c.outerMessageId = .ok text ∧ encodeAscii text = .ok t ∧ x = aadText c.index s r t)}

/-- Two sides mean the same: they may name the roles the other way round with the other direction. -/
structure Same (c d : AckContext) : Prop where
  root : c.root = d.root
  endpoints : c.endpoints P = d.endpoints P
  index : c.index = d.index
  outerMessageId : c.outerMessageId = d.outerMessageId

variable {P}

theorem derive_ok {c : AckContext} {key aad : Bytes} (h : c.derive P = .ok (key, aad)) :
    Word 4 c.index ∧ ∃ sender recipient s r text t, c.endpoints P = .ok (sender, recipient) ∧
      canonicalBytes P sender = .ok s ∧ canonicalBytes P recipient = .ok r ∧ uuidText P c.outerMessageId = .ok text ∧
      encodeAscii text = .ok t ∧ key = ackKey P c.root s r c.index.toNat ∧
      aad = P.sha256 (aadText c.index s r t) := by
  unfold derive ackContext ackKeyAtIndex ackChainKeyAtIndex laneMessageKey ackBaseKey requireRoot at h
  simp only [bind_ok, orRaise_ok, pure_ok, exists_const, Prod.exists, Prod.mk.injEq] at h
  obtain ⟨sender, recipient, hends, _, ⟨sender', recipient', hends', chain,
    ⟨sender'', recipient'', hends'', base, ⟨-, rfl⟩, hchain⟩, -, s, hs, r, hr, rfl⟩, _, haad, rfl, rfl⟩ := h
  obtain ⟨rfl, rfl⟩ := Prod.mk.inj (Except.ok.inj (hends'.symm.trans hends))
  obtain ⟨rfl, rfl⟩ := Prod.mk.inj (Except.ok.inj (hends''.symm.trans hends'))
  obtain ⟨hindex, s', r', hs', hr', rfl⟩ := chainKeyAtIndex_ok hchain
  obtain rfl := Except.ok.inj (hs'.symm.trans hs)
  obtain rfl := Except.ok.inj (hr'.symm.trans hr)
  obtain ⟨-, s', r', text, t, hs', hr', htext, ht, rfl⟩ := buildAad_ok haad
  obtain rfl := Except.ok.inj (hs'.symm.trans hs)
  obtain rfl := Except.ok.inj (hr'.symm.trans hr)
  exact ⟨hindex, sender'', recipient'', s', r', text, t, hends, hs, hr, htext, ht, rfl, rfl⟩

theorem Same.derive_eq {c d : AckContext} (h : Same P c d) : c.derive P = d.derive P := by
  obtain ⟨root, initiator, responder, direction, index, message⟩ := c
  obtain ⟨root', initiator', responder', direction', index', message'⟩ := d
  obtain ⟨rfl, hends, rfl, rfl⟩ := h
  have hends : IndexedSession.endpoints P initiator responder direction =
      IndexedSession.endpoints P initiator' responder' direction' := hends
  unfold derive ackContext ackKeyAtIndex ackChainKeyAtIndex
  simp only [hends]

theorem Same.inputs_eq {c d : AckContext} (h : Same P c d) : c.inputs P = d.inputs P := by
  unfold inputs
  rw [h.root, h.endpoints, h.index, h.outerMessageId]

/-- A key with associated data belongs to one context. -/
theorem derive_injOn {hashed : Set Bytes} (hfree : Set.InjOn P.sha256 hashed) {c d : AckContext} {out : Bytes × Bytes}
    (hc : c.inputs P ⊆ hashed) (hd : d.inputs P ⊆ hashed) (h : c.derive P = .ok out) (h' : d.derive P = .ok out) :
    Same P c d := by
  obtain ⟨hindex, sender, recipient, s, r, text, t, hends, hs, hr, htext, ht, hkey, haad⟩ := derive_ok h
  obtain ⟨hindex', sender', recipient', s', r', text', t', hends', hs', hr', htext', ht', hkey', haad'⟩ :=
    derive_ok h'
  have hin : ∀ x ∈ ackStrings P c.root s r c.index.toNat, x ∈ hashed := fun x hx =>
    hc ⟨sender, recipient, s, r, hends, hs, hr, Or.inl hx⟩
  have hin' : ∀ x ∈ ackStrings P d.root s' r' d.index.toNat, x ∈ hashed := fun x hx =>
    hd ⟨sender', recipient', s', r', hends', hs', hr', Or.inl hx⟩
  obtain ⟨hroot, rfl, rfl, -⟩ :=
    ackKey_injOn hfree (canonicalBytes_no_nul hs) (canonicalBytes_no_nul hs') hin hin' (hkey.symm.trans hkey')
  obtain rfl := canonicalBytes_injective hs hs'
  obtain rfl := canonicalBytes_injective hr hr'
  have htexts := hfree (hc ⟨sender, recipient, s, r, hends, hs, hr, Or.inr ⟨text, t, htext, ht, rfl⟩⟩)
    (hd ⟨sender, recipient, s, r, hends', hs', hr', Or.inr ⟨text', t', htext', ht', rfl⟩⟩) (haad.symm.trans haad')
  have hs0 := canonicalBytes_no_nul hs
  have hr0 := canonicalBytes_no_nul hr
  obtain ⟨hsame, -, -, rfl⟩ := aadText_injective hindex hindex' hs0 hs0 hr0 hr0 htexts
  obtain rfl := encodeAscii_injective ht ht'
  exact ⟨hroot, hends.trans hends'.symm, hsame, uuidText_injective htext htext'⟩

end AckContext

/-! ## What is opened -/

/-- An acknowledgement that was sealed. -/
structure Sealing where
  context : AckContext
  plaintext : Bytes
  nonce : Bytes

variable (P A) in
def Sealing.wire (s : Sealing) : Except PyExc Bytes :=
  sealAck P A s.context.root s.context.initiatorAddress s.context.responderAddress s.context.direction
    s.context.index s.context.outerMessageId s.plaintext s.nonce

/-- The context in which a wire is opened. -/
def opening (root : Bytes) (initiatorAddress responderAddress : PyStr) (direction : Int)
    (outerMessageId wire : Bytes) : AckContext :=
  ⟨root, initiatorAddress, responderAddress, direction, wireIndex wire, outerMessageId⟩

variable (P A) in
/-- What decrypts for the receiver was encrypted by a party that sealed it under the same key, with the same
nonce and the same associated data. -/
def Authentic (sent : Sealing → Prop) (c : AckContext) (wire : Bytes) : Prop :=
  ∀ key aad plaintext, c.derive P = .ok (key, aad) →
    A.decrypt key (wireNonce wire) (wire.drop 26) aad = .ok plaintext →
    ∃ s, sent s ∧ s.context.derive P = .ok (key, aad) ∧ s.nonce = wireNonce wire ∧
      A.encrypt key s.nonce s.plaintext aad = wire.drop 26

/-- A receiver takes a sealed acknowledgement just when a party has sealed this very wire under the
receiver's root, from the sender to the recipient that the receiver takes, for the message that it came in,
and opens what was sealed. What it opens is the encoding of one acknowledgement with its signature. -/
theorem sealed_acks (P : Platform) (A : Aead) (sent : Sealing → Prop) (root : Bytes)
    (initiatorAddress responderAddress : PyStr) (direction : Int) (outerMessageId wire plaintext : Bytes)
    (hfree : Set.InjOn P.sha256
      ((opening root initiatorAddress responderAddress direction outerMessageId wire).inputs P ∪
        {x | ∃ s, sent s ∧ x ∈ s.context.inputs P}))
    (hauthentic : Authentic P A sent (opening root initiatorAddress responderAddress direction outerMessageId wire)
      wire) :
    (openAck P A root initiatorAddress responderAddress direction outerMessageId wire = .ok plaintext ↔
      ∃ s, sent s ∧ s.wire P A = .ok wire ∧ s.plaintext = plaintext ∧
        s.context.Same P (opening root initiatorAddress responderAddress direction outerMessageId wire)) ∧
    (openAck P A root initiatorAddress responderAddress direction outerMessageId wire = .ok plaintext →
      ∃ record signature, encodeSignedAck record signature = .ok plaintext) := by
  refine ⟨⟨?_, ?_⟩, ?_⟩
  · intro hopen
    obtain ⟨hlength, hheader, ⟨key, aad, hcontext, hdecrypted⟩, hsize, hdecoded⟩ := openAck_ok.mp hopen
    obtain ⟨s, hs, hderive, hnonce, hcipher⟩ := hauthentic key aad plaintext hcontext hdecrypted
    have hsame := AckContext.derive_injOn hfree
      (fun x hx => Or.inr ⟨s, hs, hx⟩) Set.subset_union_left hderive hcontext
    have hplain : s.plaintext = plaintext := by
      rw [← hcipher, ← hnonce, A.decrypt_encrypt] at hdecrypted
      exact Except.ok.inj hdecrypted
    have hindex := (AckContext.derive_ok hderive).1
    have hnonceLength : s.nonce.length = 12 := by
      rw [hnonce, wireNonce, List.length_take, List.length_drop, hlength]
      rfl
    refine ⟨s, hs, sealAck_ok.mpr ⟨?_, ?_, hnonceLength, hindex, key, aad, hderive, ?_⟩, hplain, hsame⟩
    · rw [hplain, hsize]
    · rw [hplain]
      exact hdecoded
    · apply (sealed_wire hindex hnonceLength _).mpr
      · exact ⟨hlength, hheader, hsame.index.symm, hnonce.symm, hcipher.symm⟩
      · rw [A.encrypt_length, hplain, hsize]
        rfl
  · rintro ⟨s, hs, hwire, rfl, hsame⟩
    obtain ⟨hsize, hdecoded, hnonceLength, hindex, key, aad, hcontext, hfields⟩ := sealAck_ok.mp hwire
    obtain ⟨hlength, hheader, -, hnonce, hcipher⟩ := (sealed_wire hindex hnonceLength (by
      rw [A.encrypt_length, hsize]
      rfl)).mp hfields
    refine openAck_ok.mpr ⟨hlength, hheader, ⟨key, aad, ?_, ?_⟩, hsize, hdecoded⟩
    · exact hsame.derive_eq.symm.trans hcontext
    · rw [hnonce, hcipher, A.decrypt_encrypt]
  · intro hopen
    obtain ⟨-, -, -, -, ⟨record, signature⟩, hdecoded⟩ := openAck_ok.mp hopen
    exact ⟨record, signature, signedAck_codec.mpr hdecoded⟩

namespace AckSample

def digest (b : Bytes) : Bytes :=
  bigEndian 32 (b.foldl (fun n x => (n * 263 + x.toNat + 1) % (2 ^ 256 - 189)) 7)

def platform : Platform :=
  { Platform.ofTable [] with
    sha256 := digest
    sha256_length := fun _ => bigEndian_length _ _ }

/-- The text with a tag over everything. -/
def tagged (key nonce plaintext aad : Bytes) : Bytes :=
  plaintext ++ (digest (key ++ nonce ++ aad ++ plaintext)).take 16

def aead : Aead where
  encrypt := tagged
  decrypt key nonce ciphertext aad :=
    let plaintext := ciphertext.take (ciphertext.length - 16)
    if tagged key nonce plaintext aad = ciphertext then .ok plaintext else valueError (lit "InvalidTag")
  decrypt_encrypt key nonce plaintext aad := by
    have hdigest : ∀ b, (digest b).length = 32 := fun _ => bigEndian_length _ _
    have hplain : (tagged key nonce plaintext aad).take ((tagged key nonce plaintext aad).length - 16) =
        plaintext := by
      simp [tagged, hdigest]
    simp only [hplain, if_true]
  encrypt_length key nonce plaintext aad := by
    have hdigest : ∀ b, (digest b).length = 32 := fun _ => bigEndian_length _ _
    simp [tagged, hdigest]

def senderAddress : PyStr := Pairing.V1.Sample.sampleAddress
def recipientAddress : PyStr := Pairing.V1.Sample.otherAddress

def root : Bytes := List.replicate 32 5
def carrier : Bytes := List.replicate 16 6

def sealing : Sealing where
  context :=
    { root
      initiatorAddress := senderAddress
      responderAddress := recipientAddress
      direction := 0
      index := 0
      outerMessageId := carrier }
  plaintext := List.replicate 16 3 ++ [1] ++ List.replicate 84 4
  nonce := List.replicate 12 2

def senderB : Bytes := asciiBytes senderAddress
def recipientB : Bytes := asciiBytes recipientAddress

/-- `06060606-0606-0606-0606-060606060606` -/
def carrierText : PyStr :=
  [48, 54, 48, 54, 48, 54, 48, 54, 45, 48, 54, 48, 54, 45, 48, 54, 48, 54, 45, 48, 54, 48, 54, 45,
   48, 54, 48, 54, 48, 54, 48, 54, 48, 54, 48, 54]

def strings : List Bytes :=
  ackStrings platform root senderB recipientB 0 ++ [aadText 0 senderB recipientB (asciiBytes carrierText)]

/-- What the sender computes, in one evaluation. -/
theorem computed :
    (canonicalBytes platform senderAddress = .ok senderB ∧ canonicalBytes platform recipientAddress = .ok recipientB ∧
      uuidText platform carrier = .ok carrierText) ∧
    (sealing.context.endpoints platform = .ok (senderAddress, recipientAddress) ∧
      endpoints platform recipientAddress senderAddress 1 = .ok (senderAddress, recipientAddress)) ∧
    (sealing.wire platform aead).isOk = true ∧ (strings.map digest).Nodup := by
  decide +kernel

theorem sealed : ∃ wire, sealing.wire platform aead = .ok wire := by
  have hok := computed.2.2.1
  cases h : sealing.wire platform aead with
  | ok wire => exact ⟨wire, rfl⟩
  | error e =>
    rw [h] at hok
    cases hok

theorem inputs_strings : ∀ x ∈ sealing.context.inputs platform, x ∈ strings := by
  rintro x ⟨sender, recipient, s, r, hends, hs, hr, hx⟩
  obtain ⟨⟨senderCanonical, recipientCanonical, htextual⟩, ⟨hendpoints, -⟩, -⟩ := computed
  obtain ⟨rfl, rfl⟩ := Prod.mk.inj (Except.ok.inj (hendpoints.symm.trans hends))
  obtain rfl := Except.ok.inj (senderCanonical.symm.trans hs)
  obtain rfl := Except.ok.inj (recipientCanonical.symm.trans hr)
  rcases hx with hkey | ⟨text, t, htext, ht, rfl⟩
  · exact List.mem_append_left _ hkey
  · obtain rfl := Except.ok.inj (htextual.symm.trans htext)
    obtain ⟨-, rfl⟩ := encodeAscii_ok ht
    exact List.mem_append_right _ (List.mem_singleton_self _)

end AckSample

open AckSample in
/-- The receiver names the roles the other way round. -/
theorem sealed_acks_sample : ∃ wire, sealing.wire platform aead = .ok wire ∧
    openAck platform aead root recipientAddress senderAddress 1 carrier wire = .ok sealing.plaintext := by
  obtain ⟨-, ⟨hendpoints, hswapped⟩, -, hapart⟩ := computed
  obtain ⟨wire, hwire⟩ := sealed
  obtain ⟨hsize, -, hnonceLength, hindex, key, aad, hcontext, hfields⟩ := sealAck_ok.mp hwire
  obtain ⟨-, -, hread, hnonce, hcipher⟩ := (sealed_wire hindex hnonceLength (by
    rw [aead.encrypt_length, hsize]
    rfl)).mp hfields
  have hsame : sealing.context.Same platform (opening root recipientAddress senderAddress 1 carrier wire) :=
    ⟨rfl, hendpoints.trans hswapped.symm, hread.symm, rfl⟩
  refine ⟨wire, hwire, (sealed_acks platform aead (· = sealing) root recipientAddress senderAddress 1 carrier wire
    sealing.plaintext ?_ ?_).1.mpr ⟨sealing, rfl, hwire, rfl, hsame⟩⟩
  · rw [← hsame.inputs_eq]
    refine Set.InjOn.mono (?_ : _ ⊆ {x | x ∈ strings}) ?_
    · rintro x (hx | ⟨_, rfl, hx⟩)
      · exact inputs_strings x hx
      · exact inputs_strings x hx
    · intro x hx y hy h
      exact List.inj_on_of_nodup_map hapart hx hy h
  · intro key' aad' plaintext hderive hdecrypted
    obtain ⟨rfl, rfl⟩ := Prod.mk.inj (Except.ok.inj (hcontext.symm.trans (hsame.derive_eq.trans hderive)))
    exact ⟨sealing, rfl, hcontext, hnonce.symm, hcipher.symm⟩

end Rdap.Protocol.IndexedSession
