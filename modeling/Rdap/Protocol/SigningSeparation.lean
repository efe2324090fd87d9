import Rdap.Lib.Labels
import Rdap.Protocol.EnvelopeCodec
import Rdap.Protocol.SignedForms

/-!
# One signature, one record

Signing bytes determine the kind of what was signed and its signed fields, a field that is hashed up to
its digest. The kinds are told apart by how their bytes begin, the fields by their widths and lengths.
-/

set_option autoImplicit false

namespace Rdap.Protocol
open Python Lib Braid Identity

/-! ## Fields -/

/-- What an encoder returns, with anything after it, is read in one way. -/
def Delimited {α : Type} (enc : α → Except PyExc Bytes) : Prop :=
  ∀ ⦃a b : α⦄ ⦃x y r q : Bytes⦄, enc a = .ok x → enc b = .ok y → x ++ r = y ++ q → a = b ∧ r = q

theorem Delimited.injective {α : Type} {enc : α → Except PyExc Bytes} (h : Delimited enc) {a b : α} {x : Bytes}
    (ha : enc a = .ok x) (hb : enc b = .ok x) : a = b :=
  (h ha hb (r := []) (q := []) rfl).1

theorem delimited_lp : Delimited lp := by
  intro a b x y r q ha hb h
  obtain ⟨hfita, rfl⟩ := lp_ok ha
  obtain ⟨hfitb, rfl⟩ := lp_ok hb
  exact frame_selfDelimiting 2 hfita hfitb h

theorem delimited_lpText : Delimited lpText := by
  intro s t x y r q hs ht h
  obtain ⟨b, hsb, hx⟩ := bind_ok.mp hs
  obtain ⟨c, htc, hy⟩ := bind_ok.mp ht
  obtain ⟨rfl, hrest⟩ := delimited_lp hx hy h
  exact ⟨encodeUtf8_injective hsb htc, hrest⟩

theorem word_injective {w : Nat} {m n : Int} (hm : Word w m) (hn : Word w n) (h : word w m = word w n) :
    m = n := by
  rw [← ofBigEndian_word hm, h, ofBigEndian_word hn]

theorem delimited_toBytes (w : Nat) : Delimited (toBytes w) := by
  intro m n x y r q hm hn h
  obtain ⟨hwm, rfl⟩ := toBytes_ok.mp hm
  obtain ⟨hwn, rfl⟩ := toBytes_ok.mp hn
  obtain ⟨hword, hrest⟩ := List.append_inj h (by rw [word_length, word_length])
  exact ⟨word_injective hwm hwn hword, hrest⟩

/-! ## Acknowledgements -/

theorem Ack.signingBytes_injective {a b : Ack} {out : Bytes} (ha : a.signingBytes = .ok out)
    (hb : b.signingBytes = .ok out) : a = b := by
  unfold Ack.signingBytes at ha hb
  simp only [bind_ok, pure_ok, orRaise_ok, exists_const] at ha hb
  obtain ⟨hid, hnonce, hstatus, created, hcreated, rfl⟩ := ha
  obtain ⟨hid', hnonce', hstatus', created', hcreated', h⟩ := hb
  obtain ⟨hidEq, h⟩ := List.append_inj (List.append_cancel_left h) (hid'.trans hid.symm)
  obtain ⟨hstatusEq, h⟩ := delimited_toBytes 1 (toBytes_pos ⟨hstatus'.1, by omega⟩)
    (toBytes_pos ⟨hstatus.1, by omega⟩) h
  obtain ⟨hnonceEq, h⟩ := List.append_inj h (hnonce'.trans hnonce.symm)
  have hcreatedEq := (delimited_toBytes 8).injective (h ▸ hcreated') hcreated
  exact Ack.ext hidEq.symm hstatusEq.symm hnonceEq.symm hcreatedEq.symm


/-- Without the signature. -/
def AckV2.unsigned (a : AckV2) : AckV2 := { a with signature := [] }

theorem AckV2.signingBytes_injective {a b : AckV2} {out : Bytes} (ha : a.signingBytes = .ok out)
    (hb : b.signingBytes = .ok out) : a.unsigned = b.unsigned := by
  unfold AckV2.signingBytes at ha hb
  simp only [bind_ok, pure_ok, orRaise_ok, exists_const] at ha hb
  obtain ⟨hid, hdigest, hstatus, hnonce, ⟨hcert, hsession⟩, created, hcreated, rfl⟩ := ha
  obtain ⟨hid', hdigest', hstatus', hnonce', ⟨hcert', hsession'⟩, created', hcreated', h⟩ := hb
  obtain ⟨hidEq, h⟩ := List.append_inj (List.append_cancel_left h) (hid'.trans hid.symm)
  obtain ⟨hdigestEq, h⟩ := List.append_inj h (hdigest'.trans hdigest.symm)
  obtain ⟨hstatusEq, h⟩ := delimited_toBytes 1 (toBytes_pos ⟨by omega, by omega⟩)
    (toBytes_pos ⟨by omega, by omega⟩) h
  obtain ⟨hnonceEq, h⟩ := List.append_inj h (hnonce'.trans hnonce.symm)
  obtain ⟨hcreatedEq, h⟩ := delimited_toBytes 8 hcreated' hcreated h
  obtain ⟨hcertEq, hsessionEq⟩ := List.append_inj h (hcert'.trans hcert.symm)
  exact AckV2.ext hidEq.symm hdigestEq.symm hstatusEq.symm hnonceEq.symm hcreatedEq.symm hcertEq.symm
    hsessionEq.symm rfl

/-! ## Aliases, capabilities and certificates -/

def AliasRecord.unsigned (r : AliasRecord) : AliasRecord := { r with signature := [] }

theorem AliasRecord.signingBytes_injective {a b : AliasRecord} {out : Bytes} (ha : a.signingBytes = .ok out)
    (hb : b.signingBytes = .ok out) : a.unsigned = b.unsigned := by
  unfold AliasRecord.signingBytes at ha hb
  simp only [bind_ok, pure_ok] at ha hb
  obtain ⟨name, hname, address, haddress, sequence, hsequence, expires, hexpires, rfl⟩ := ha
  obtain ⟨name', hname', address', haddress', sequence', hsequence', expires', hexpires', h⟩ := hb
  obtain ⟨hnameEq, h⟩ := delimited_lpText hname' hname (List.append_cancel_left h)
  obtain ⟨haddressEq, h⟩ := delimited_lpText haddress' haddress h
  obtain ⟨hsequenceEq, rfl⟩ := delimited_toBytes 8 hsequence' hsequence h
  have hexpiresEq := (delimited_toBytes 8).injective hexpires' hexpires
  exact AliasRecord.ext hnameEq.symm haddressEq.symm hsequenceEq.symm hexpiresEq.symm rfl

def Capabilities.unsigned (c : Capabilities) : Capabilities := { c with signature := [] }

theorem Capabilities.signingBytes_injective {a b : Capabilities} {out : Bytes} (ha : a.signingBytes = .ok out)
    (hb : b.signingBytes = .ok out) : a.unsigned = b.unsigned := by
  unfold Capabilities.signingBytes at ha hb
  simp only [bind_ok, pure_ok] at ha hb
  obtain ⟨address, haddress, bits, hbits, expires, hexpires, rfl⟩ := ha
  obtain ⟨address', haddress', bits', hbits', expires', hexpires', h⟩ := hb
  obtain ⟨haddressEq, h⟩ := delimited_lpText haddress' haddress (List.append_cancel_left h)
  obtain ⟨hbitsEq, rfl⟩ := delimited_toBytes 8 hbits' hbits h
  have hexpiresEq := (delimited_toBytes 8).injective hexpires' hexpires
  exact Capabilities.ext haddressEq.symm hbitsEq.symm hexpiresEq.symm rfl

def DeviceCert.unsigned (c : DeviceCert) : DeviceCert := { c with signature := [] }

theorem DeviceCert.signingBytes_injective {a b : DeviceCert} {out : Bytes} (ha : a.signingBytes = .ok out)
    (hb : b.signingBytes = .ok out) : a.unsigned = b.unsigned := by
  unfold DeviceCert.signingBytes at ha hb
  simp only [bind_ok, pure_ok] at ha hb
  obtain ⟨ed, hed, x, hx, deviceId, hid, start, hstart, stop, hstop, bits, hbits, rfl⟩ := ha
  obtain ⟨ed', hed', x', hx', deviceId', hid', start', hstart', stop', hstop', bits', hbits', h⟩ := hb
  obtain ⟨hedEq, h⟩ := delimited_lp hed' hed (List.append_cancel_left h)
  obtain ⟨hxEq, h⟩ := delimited_lp hx' hx h
  obtain ⟨hidEq, h⟩ := delimited_lpText hid' hid h
  obtain ⟨hstartEq, h⟩ := delimited_toBytes 8 hstart' hstart h
  obtain ⟨hstopEq, rfl⟩ := delimited_toBytes 8 hstop' hstop h
  have hbitsEq := (delimited_toBytes 8).injective hbits' hbits
  exact DeviceCert.ext hedEq.symm hxEq.symm hidEq.symm hstartEq.symm hstopEq.symm hbitsEq.symm rfl

/-! ## Prekey bundles -/

def PrekeyBundle.unsigned (b : PrekeyBundle) : PrekeyBundle := { b with signature := [] }

/-- The one-time key is there just if its id is not zero. -/
theorem oneTimeKey_width {id : Int} {key : Option Bytes} (habsent : ¬(id = 0 ∧ key ≠ none))
    (hpresent : id ≠ 0 → key.map List.length = some 32) :
    (id = 0 ∧ key = none) ∨ ∃ k, id ≠ 0 ∧ key = some k ∧ k.length = 32 := by
  by_cases hid : id = 0
  · refine Or.inl ⟨hid, ?_⟩
    by_contra hkey
    exact habsent ⟨hid, hkey⟩
  · obtain ⟨k, hk, hlength⟩ := Option.map_eq_some_iff.mp (hpresent hid)
    exact Or.inr ⟨k, hid, hk, hlength⟩

theorem PrekeyBundle.signingBytes_injective {a b : PrekeyBundle} {out : Bytes} (ha : a.signingBytes = .ok out)
    (hb : b.signingBytes = .ok out) : a.unsigned = b.unsigned := by
  unfold PrekeyBundle.signingBytes at ha hb
  simp only [bind_ok, pure_ok, orRaise_ok, exists_const] at ha hb
  obtain ⟨hed, hx, hek, hsigned, hslot, habsent, hpresent, deviceId, hid, created, hcreated, expires, hexpires,
    rfl⟩ := ha
  obtain ⟨hed', hx', hek', hsigned', hslot', habsent', hpresent', deviceId', hid', created', hcreated', expires',
    hexpires', h⟩ := hb
  have h := List.append_cancel_left (List.append_cancel_left h)
  obtain ⟨hedEq, h⟩ := List.append_inj h (hed'.trans hed.symm)
  obtain ⟨hidEq, h⟩ := delimited_lpText hid' hid h
  obtain ⟨hxEq, h⟩ := List.append_inj h (hx'.trans hx.symm)
  obtain ⟨hekEq, h⟩ := List.append_inj h (hek'.trans hek.symm)
  obtain ⟨hsignedEq, h⟩ := delimited_toBytes 4 (toBytes_pos hsigned') (toBytes_pos hsigned) h
  obtain ⟨hslotEq, h⟩ := delimited_toBytes 4 (toBytes_pos hslot') (toBytes_pos hslot) h
  have hkey : b.oneTimeX25519Pub = a.oneTimeX25519Pub ∧ created' ++ expires' = created ++ expires := by
    rcases oneTimeKey_width habsent hpresent with ⟨hzero, hnone⟩ | ⟨k, hzero, hkey, hlength⟩ <;>
      rcases oneTimeKey_width habsent' hpresent' with ⟨hzero', hnone'⟩ | ⟨k', hzero', hkey', hlength'⟩
    · rw [hnone, hnone'] at h ⊢
      exact ⟨rfl, h⟩
    · exact absurd (hslotEq.trans hzero) hzero'
    · exact absurd (hslotEq.symm.trans hzero') hzero
    · rw [hkey, hkey'] at h ⊢
      obtain ⟨hkeyEq, h⟩ := List.append_inj h (hlength'.trans hlength.symm)
      exact ⟨congrArg some hkeyEq, h⟩
  obtain ⟨hkeyEq, h⟩ := hkey
  obtain ⟨hcreatedEq, rfl⟩ := delimited_toBytes 8 hcreated' hcreated h
  have hexpiresEq := (delimited_toBytes 8).injective hexpires' hexpires
  exact PrekeyBundle.ext hedEq.symm hidEq.symm hxEq.symm hekEq.symm hsignedEq.symm hslotEq.symm hkeyEq.symm
    hcreatedEq.symm hexpiresEq.symm rfl

/-! ## Revocations -/

variable (P : Platform)

theorem requireId_ok {label : PyStr} {raw out : Bytes} (h : Revocation.requireId label raw = .ok out) :
    out = raw := by
  unfold Revocation.requireId at h
  split at h
  · exact (Except.ok.inj h).symm
  · cases h

theorem toBytes_u64 {n : Int} (h : 0 ≤ n ∧ n < 2 ^ 64) : toBytes 8 n = .ok (Revocation.u64 n) :=
  toBytes_pos ⟨h.1, by omega⟩

theorem revocation_injective {a b : Revocation.DeviceRevocation} {out : Bytes}
    (ha : Revocation.signingBytes P a = .ok out) (hb : Revocation.signingBytes P b = .ok out) :
    { a with signature := [] } = { b with signature := [] } := by
  unfold Revocation.signingBytes at ha hb
  simp only [bind_ok, pure_ok, orRaise_ok, exists_const, List.append_assoc] at ha hb
  obtain ⟨_, hidIs, _, hissuerIs, address, haddress, ⟨hed, hx⟩, hcert, ⟨hrev, -⟩, hreason, hseq, hcreated,
    deviceId, hid, issuer, hissuer, rfl⟩ := ha
  obtain ⟨_, hidIs', _, hissuerIs', address', haddress', ⟨hed', hx'⟩, hcert', ⟨hrev', -⟩, hreason', hseq',
    hcreated', deviceId', hid', issuer', hissuer', h⟩ := hb
  rw [requireId_ok hidIs] at hid
  rw [requireId_ok hidIs'] at hid'
  rw [requireId_ok hissuerIs] at hissuer
  rw [requireId_ok hissuerIs'] at hissuer'
  obtain ⟨haddress, hlength⟩ := Revocation.requireAddress_ok P haddress
  obtain ⟨haddress', hlength'⟩ := Revocation.requireAddress_ok P haddress'
  obtain ⟨haddressEq, h⟩ := List.append_inj (List.append_cancel_left (List.append_cancel_left h))
    (hlength'.trans hlength.symm)
  obtain ⟨hidEq, h⟩ := delimited_lp hid' hid h
  obtain ⟨hedEq, h⟩ := List.append_inj h (hed'.trans hed.symm)
  obtain ⟨hxEq, h⟩ := List.append_inj h (hx'.trans hx.symm)
  obtain ⟨hcertEq, h⟩ := List.append_inj h (hcert'.trans hcert.symm)
  obtain ⟨hissuerEq, h⟩ := delimited_lp hissuer' hissuer h
  obtain ⟨hseqEq, h⟩ := delimited_toBytes 8 (toBytes_u64 hseq') (toBytes_u64 hseq) h
  obtain ⟨hrevEq, h⟩ := List.append_inj h (hrev'.trans hrev.symm)
  obtain ⟨hreasonEq, h⟩ := delimited_toBytes 1 (toBytes_pos ⟨hreason'.1, by omega⟩)
    (toBytes_pos ⟨hreason.1, by omega⟩) h
  have hcreatedEq := (delimited_toBytes 8).injective (toBytes_u64 hcreated') (h ▸ toBytes_u64 hcreated)
  rw [encodeAscii_injective haddress (haddressEq ▸ haddress'), hidEq, hedEq, hxEq, hcertEq, hissuerEq, hseqEq,
    hrevEq, hreasonEq, hcreatedEq]

/-! ## Pairing records -/

namespace Pairing
variable {α : Type} {f : Format α}

/-- Records that are signed alike and have one signature are one record. -/
theorem Format.signingBytes_injective {a b : α} {out : Bytes} (ha : f.signingBytes a = .ok out)
    (hb : f.signingBytes b = .ok out) (hsignature : f.signature a = f.signature b) : a = b := by
  obtain ⟨hcheck, fields, hfields, rfl⟩ := signingBytes_ok.mp ha
  obtain ⟨hcheck', fields', hfields', h⟩ := signingBytes_ok.mp hb
  have hflatten := List.append_cancel_left (List.append_cancel_left h)
  have hsame := flatten_injective (fields_length hcheck hfields) (fields_length hcheck' hfields') hflatten
  have hread := f.read_signed a fields hcheck hfields
  have hread' := f.read_signed b fields' hcheck' hfields'
  rw [hsignature, hsame, hread'] at hread
  exact (Except.ok.inj hread).symm

def PairInit.unsigned (v : PairInit) : PairInit := { v with signature := [] }
def PairResponse.unsigned (v : PairResponse) : PairResponse := { v with signature := [] }

end Pairing

/-! ## Envelopes -/

namespace Rvn1

theorem packUnsigned_ok {w : Nat} {n : Int} {b : Bytes} : packUnsigned w n = .ok b ↔ Word w n ∧ b = word w n := by
  unfold packUnsigned
  split
  · rename_i h
    simp [h, eq_comm]
  · rename_i h
    simp [h]

/-- Byte strings of the widths of the format. -/
def Envelope.Sized (e : Envelope) : Prop :=
  e.messageId.length = 16 ∧ e.routingTag.length = 16 ∧ e.antiReplayNonce.length = 12

/-- Equal in everything the sender signs, the ciphertexts up to their length and their digest. -/
structure Envelope.Same (a b : Envelope) : Prop where
  envType : a.envType = b.envType
  flags : a.flags = b.flags
  messageId : a.messageId = b.messageId
  routingTag : a.routingTag = b.routingTag
  createdAt : a.createdAt = b.createdAt
  expiresAt : a.expiresAt = b.expiresAt
  antiReplayNonce : a.antiReplayNonce = b.antiReplayNonce
  headerLength : a.ratchetHeaderCiphertext.length = b.ratchetHeaderCiphertext.length
  header : P.sha256 a.ratchetHeaderCiphertext = P.sha256 b.ratchetHeaderCiphertext
  bodyLength : a.messageCiphertext.length = b.messageCiphertext.length
  body : P.sha256 a.messageCiphertext = P.sha256 b.messageCiphertext

/-- The prefix that is signed. -/
def Envelope.signedFields (e : Envelope) : List Bytes :=
  [magic, word 1 version, word 1 e.envType, word 2 e.flags, e.messageId, e.routingTag, word 8 0,
    word 8 e.createdAt, word 8 e.expiresAt, word 1 0, word 1 0, e.antiReplayNonce,
    word 2 e.ratchetHeaderCiphertext.length, word 4 e.messageCiphertext.length, word 2 64]

theorem Envelope.signedFields_widths {e : Envelope} (h : e.Sized) :
    e.signedFields.map List.length = prefixFmt := by
  simp only [signedFields, List.map_cons, List.map_nil, word_length, h.1, h.2.1, h.2.2]
  rfl

theorem signingBytes_ok {e : Envelope} {out : Bytes} (hsized : e.Sized) (h : signingBytes P e = .ok out) :
    (Word 1 e.envType ∧ Word 2 e.flags ∧ Word 8 e.createdAt ∧ Word 8 e.expiresAt ∧
      Word 2 e.ratchetHeaderCiphertext.length ∧ Word 4 e.messageCiphertext.length) ∧
      out = e.signedFields.flatten ++ (P.sha256 e.ratchetHeaderCiphertext ++ P.sha256 e.messageCiphertext) := by
  unfold signingBytes packPrefix at h
  simp only [bind_ok, pure_ok, packUnsigned_ok] at h
  obtain ⟨_, ⟨_, ⟨-, rfl⟩, _, ⟨htype, rfl⟩, _, ⟨hflags, rfl⟩, _, ⟨-, rfl⟩, _, ⟨hcreated, rfl⟩, _, ⟨hexpires, rfl⟩,
    _, ⟨-, rfl⟩, _, ⟨-, rfl⟩, _, ⟨hheader, rfl⟩, _, ⟨hbody, rfl⟩, _, ⟨-, rfl⟩, rfl⟩, rfl⟩ := h
  refine ⟨⟨htype, hflags, hcreated, hexpires, hheader, hbody⟩, ?_⟩
  rw [packBytes_of_length hsized.1, packBytes_of_length hsized.2.1, packBytes_of_length hsized.2.2,
    packBytes_of_length (n := 4) (b := magic) rfl, List.append_assoc]
  rfl

theorem signingBytes_same {a b : Envelope} {out : Bytes} (hsized : a.Sized) (hsized' : b.Sized)
    (ha : signingBytes P a = .ok out) (hb : signingBytes P b = .ok out) : a.Same P b := by
  obtain ⟨⟨htype, hflags, hcreated, hexpires, hheader, hbody⟩, rfl⟩ := signingBytes_ok P hsized ha
  obtain ⟨⟨htype', hflags', hcreated', hexpires', hheader', hbody'⟩, h⟩ := signingBytes_ok P hsized' hb
  have hlength : a.signedFields.flatten.length = b.signedFields.flatten.length := by
    rw [List.length_flatten, List.length_flatten, a.signedFields_widths hsized, b.signedFields_widths hsized']
  obtain ⟨hflatten, hdigests⟩ := List.append_inj h hlength
  have hfields := flatten_injective (a.signedFields_widths hsized) (b.signedFields_widths hsized') hflatten
  obtain ⟨hheaderDigest, hbodyDigest⟩ := List.append_inj hdigests (by rw [P.sha256_length, P.sha256_length])
  simp only [Envelope.signedFields, List.cons.injEq, and_true, true_and] at hfields
  obtain ⟨htypeEq, hflagsEq, hidEq, htagEq, hcreatedEq, hexpiresEq, hnonceEq, hheaderEq, hbodyEq⟩ := hfields
  have hheaderLength := word_injective hheader hheader' hheaderEq
  have hbodyLength := word_injective hbody hbody' hbodyEq
  exact ⟨word_injective htype htype' htypeEq, word_injective hflags hflags' hflagsEq, hidEq, htagEq,
    word_injective hcreated hcreated' hcreatedEq, word_injective hexpires hexpires' hexpiresEq, hnonceEq,
    Int.natCast_inj.mp hheaderLength, hheaderDigest, Int.natCast_inj.mp hbodyLength, hbodyDigest⟩

theorem signingBytes_congr {a b : Envelope} (h : a.Same P b) : signingBytes P a = signingBytes P b := by
  unfold signingBytes packPrefix
  rw [h.envType, h.flags, h.messageId, h.routingTag, h.createdAt, h.expiresAt, h.antiReplayNonce, h.headerLength,
    h.header, h.bodyLength, h.body]

end Rvn1

/-! ## All kinds -/

inductive SigningKind where
  | ack | ackV2 | aliasRecord | capabilities | deviceCert | prekeyBundle | deviceRevocation
  | pairInit | pairResponse | pairInitV2 | pairResponseV2 | envelope | delegation | httpRequest
  deriving DecidableEq

/-- How the bytes of a kind begin: the domain alone, or the first field too where one domain begins with
another. -/
def SigningKind.label : SigningKind → Bytes
  | .ack => Ack.domain
  | .ackV2 => AckV2.domain
  | .aliasRecord => AliasRecord.domain
  | .capabilities => Capabilities.domain
  | .deviceCert => DeviceCert.domain
  | .prekeyBundle => PrekeyBundle.domain
  | .deviceRevocation => Revocation.signingDomain
  | .pairInit => Pairing.V1.initSigningDomain ++ Pairing.V1.initMagic
  | .pairResponse => Pairing.V1.responseSigningDomain ++ Pairing.V1.responseMagic
  | .pairInitV2 => Pairing.V2.initSigningDomain ++ Pairing.V2.initMagic
  | .pairResponseV2 => Pairing.V2.responseSigningDomain ++ Pairing.V2.responseMagic
  | .envelope => Rvn1.magic
  | .delegation => frame 2 (asciiBytes signingContext)
  | .httpRequest => frame 2 (asciiBytes httpSigningContext)

def SigningKind.all : List SigningKind :=
  [.ack, .ackV2, .aliasRecord, .capabilities, .deviceCert, .prekeyBundle, .deviceRevocation, .pairInit,
    .pairResponse, .pairInitV2, .pairResponseV2, .envelope, .delegation, .httpRequest]

theorem SigningKind.mem_all (k : SigningKind) : k ∈ all := by
  cases k <;> decide

theorem labels_separated : Separated SigningKind.label := by
  have hall : ∀ i ∈ SigningKind.all, ∀ j ∈ SigningKind.all, i.label <+: j.label → i = j := by decide
  exact fun i j => hall i i.mem_all j j.mem_all

def Signable.kind : Signable → SigningKind
  | .ack _ => .ack
  | .ackV2 _ => .ackV2
  | .aliasRecord _ => .aliasRecord
  | .capabilities _ => .capabilities
  | .deviceCert _ => .deviceCert
  | .prekeyBundle _ => .prekeyBundle
  | .deviceRevocation _ => .deviceRevocation
  | .pairInit _ => .pairInit
  | .pairResponse _ => .pairResponse
  | .pairInitV2 _ => .pairInitV2
  | .pairResponseV2 _ => .pairResponseV2
  | .envelope _ => .envelope
  | .delegation _ => .delegation
  | .httpRequest _ => .httpRequest

theorem Pairing.Format.label_signingBytes {α : Type} {f : Pairing.Format α} {value : α} {out : Bytes}
    (h : f.signingBytes value = .ok out) : f.signingDomain ++ f.magic <+: out := by
  obtain ⟨-, fields, -, rfl⟩ := Pairing.Format.signingBytes_ok.mp h
  simp only [Pairing.Format.header, List.flatten_cons, List.append_assoc]
  rw [← List.append_assoc]
  exact List.prefix_append _ _

theorem label_lpConcat {label : Bytes} {fields : List Bytes} {out : Bytes}
    (h : lpConcat (label :: fields) = .ok out) : frame 2 label <+: out := by
  obtain ⟨-, rfl⟩ := lpConcat_ok h
  exact List.prefix_append _ _

theorem label_signingBytes {s : Signable} {out : Bytes} (h : s.signingBytes P = .ok out) :
    s.kind.label <+: out := by
  cases s with
  | ack a =>
    simp only [Signable.signingBytes, Ack.signingBytes, bind_ok, pure_ok] at h
    obtain ⟨_, _, _, _, _, _, _, _, rfl⟩ := h
    exact List.prefix_append _ _
  | ackV2 a =>
    simp only [Signable.signingBytes, AckV2.signingBytes, bind_ok, pure_ok] at h
    obtain ⟨_, _, _, _, _, _, _, _, _, _, _, _, rfl⟩ := h
    exact List.prefix_append _ _
  | aliasRecord r =>
    simp only [Signable.signingBytes, AliasRecord.signingBytes, bind_ok, pure_ok] at h
    obtain ⟨_, _, _, _, _, _, _, _, rfl⟩ := h
    exact List.prefix_append _ _
  | capabilities c =>
    simp only [Signable.signingBytes, Capabilities.signingBytes, bind_ok, pure_ok] at h
    obtain ⟨_, _, _, _, _, _, rfl⟩ := h
    exact List.prefix_append _ _
  | deviceCert c =>
    simp only [Signable.signingBytes, DeviceCert.signingBytes, bind_ok, pure_ok] at h
    obtain ⟨_, _, _, _, _, _, _, _, _, _, _, _, rfl⟩ := h
    exact List.prefix_append _ _
  | prekeyBundle b =>
    simp only [Signable.signingBytes, PrekeyBundle.signingBytes, bind_ok, pure_ok] at h
    obtain ⟨_, _, _, _, _, _, _, _, _, _, _, _, _, _, _, _, _, _, _, _, rfl⟩ := h
    exact List.prefix_append _ _
  | deviceRevocation r =>
    simp only [Signable.signingBytes, Revocation.signingBytes, bind_ok, pure_ok, List.append_assoc] at h
    obtain ⟨_, _, _, _, _, _, _, _, _, _, _, _, _, _, _, _, _, _, _, _, _, _, rfl⟩ := h
    exact List.prefix_append _ _
  | pairInit v => exact Pairing.Format.label_signingBytes (f := Pairing.V1.init P) h
  | pairResponse v => exact Pairing.Format.label_signingBytes (f := Pairing.V1.response) h
  | pairInitV2 v => exact Pairing.Format.label_signingBytes (f := Pairing.V2.init P) h
  | pairResponseV2 v => exact Pairing.Format.label_signingBytes (f := Pairing.V2.response) h
  | envelope e =>
    simp only [Signable.signingBytes, Rvn1.signingBytes, Rvn1.packPrefix, bind_ok, pure_ok, List.append_assoc] at h
    obtain ⟨_, ⟨_, _, _, _, _, _, _, _, _, _, _, _, _, _, _, _, _, _, _, _, _, _, rfl⟩, rfl⟩ := h
    exact List.prefix_append _ _
  | delegation f =>
    obtain ⟨_, _, _, _, _, _, _, _, _, _, _, _, _, _, _, _, h⟩ := delegationSigningBytes_ok P h
    exact label_lpConcat h
  | httpRequest f =>
    obtain ⟨_, _, _, _, _, _, _, _, _, _, _, _, _, _, h⟩ := httpRequestSigningBytes_ok P h
    exact label_lpConcat h

/-- The signed fields: without signatures, and without what a relay may change. -/
def Signable.unsigned : Signable → Signable
  | .ack a => .ack a
  | .ackV2 a => .ackV2 a.unsigned
  | .aliasRecord r => .aliasRecord r.unsigned
  | .capabilities c => .capabilities c.unsigned
  | .deviceCert c => .deviceCert c.unsigned
  | .prekeyBundle b => .prekeyBundle b.unsigned
  | .deviceRevocation r => .deviceRevocation { r with signature := [] }
  | .pairInit v => .pairInit v.unsigned
  | .pairResponse v => .pairResponse v.unsigned
  | .pairInitV2 v => .pairInitV2 v.unsigned
  | .pairResponseV2 v => .pairResponseV2 v.unsigned
  | .envelope e =>
    .envelope { e with destDeviceHint := 0, hopLimit := 0, replicationBudget := 0, senderAuthentication := [] }
  | .delegation f => .delegation f
  | .httpRequest f => .httpRequest f

/-- Of one kind, with the same signed fields; where a field is signed through a digest, a normal form or
the bytes it spells, with the same of those. -/
inductive Signable.Same : Signable → Signable → Prop
  | fields {a b : Signable} (h : a.unsigned = b.unsigned) : Same a b
  | envelope {a b : Rvn1.Envelope} (h : a.Same P b) : Same (.envelope a) (.envelope b)
  | delegation {a b : DelegationFields} (h : a.Same P b) : Same (.delegation a) (.delegation b)
  | httpRequest {a b : HttpRequestFields} (h : a.Same P b) : Same (.httpRequest a) (.httpRequest b)

/-- `struct.pack` fits the byte strings of an envelope to the widths of its format, so they are to have them. -/
def Signable.Sized : Signable → Prop
  | .envelope e => e.Sized
  | _ => True

theorem signingBytes_unsigned (s : Signable) : s.unsigned.signingBytes P = s.signingBytes P := by
  cases s <;> rfl

theorem Signable.Same.signingBytes_eq {a b : Signable} (h : a.Same P b) {out : Bytes}
    (ha : a.signingBytes P = .ok out) : b.signingBytes P = .ok out := by
  cases h with
  | fields h => rwa [← signingBytes_unsigned, h, signingBytes_unsigned] at ha
  | envelope h => exact (Rvn1.signingBytes_congr P h).symm.trans ha
  | delegation h => exact h.signingBytes_eq P ha
  | httpRequest h => exact (h.signingBytes_eq P).symm.trans ha

theorem kind_unique {a b : Signable} {out : Bytes} (ha : a.signingBytes P = .ok out)
    (hb : b.signingBytes P = .ok out) : a.kind = b.kind :=
  labels_separated.unique (label_signingBytes P ha) (label_signingBytes P hb)

theorem same_of_signingBytes {a b : Signable} {out : Bytes} (hsa : a.Sized) (hsb : b.Sized)
    (ha : a.signingBytes P = .ok out) (hb : b.signingBytes P = .ok out) : a.Same P b := by
  have hkind := kind_unique P ha hb
  cases a <;> cases b <;> cases hkind
  case ack.ack a b => exact .fields (congrArg Signable.ack (Ack.signingBytes_injective ha hb))
  case ackV2.ackV2 a b => exact .fields (congrArg Signable.ackV2 (AckV2.signingBytes_injective ha hb))
  case aliasRecord.aliasRecord a b =>
    exact .fields (congrArg Signable.aliasRecord (AliasRecord.signingBytes_injective ha hb))
  case capabilities.capabilities a b =>
    exact .fields (congrArg Signable.capabilities (Capabilities.signingBytes_injective ha hb))
  case deviceCert.deviceCert a b =>
    exact .fields (congrArg Signable.deviceCert (DeviceCert.signingBytes_injective ha hb))
  case prekeyBundle.prekeyBundle a b =>
    exact .fields (congrArg Signable.prekeyBundle (PrekeyBundle.signingBytes_injective ha hb))
  case deviceRevocation.deviceRevocation a b =>
    exact .fields (congrArg Signable.deviceRevocation (revocation_injective P ha hb))
  case pairInit.pairInit a b =>
    exact .fields (congrArg Signable.pairInit
      (Pairing.Format.signingBytes_injective (f := Pairing.V1.init P) (a := a.unsigned)
        (b := b.unsigned) ha hb rfl))
  case pairResponse.pairResponse a b =>
    exact .fields (congrArg Signable.pairResponse
      (Pairing.Format.signingBytes_injective (f := Pairing.V1.response) (a := a.unsigned)
        (b := b.unsigned) ha hb rfl))
  case pairInitV2.pairInitV2 a b =>
    exact .fields (congrArg Signable.pairInitV2
      (Pairing.Format.signingBytes_injective (f := Pairing.V2.init P) (a := a.unsigned)
        (b := b.unsigned) ha hb rfl))
  case pairResponseV2.pairResponseV2 a b =>
    exact .fields (congrArg Signable.pairResponseV2
      (Pairing.Format.signingBytes_injective (f := Pairing.V2.response) (a := a.unsigned)
        (b := b.unsigned) ha hb rfl))
  case envelope.envelope a b => exact .envelope (Rvn1.signingBytes_same P hsa hsb ha hb)
  case delegation.delegation a b => exact .delegation (delegationSigningBytes_same P ha hb)
  case httpRequest.httpRequest a b => exact .httpRequest (httpRequestSigningBytes_same P ha hb)

/-- Equal signing bytes are those of one kind, and of the same signed fields. -/
theorem signing_separated :
    (∀ (a b : Signable) (out : Bytes), a.signingBytes P = .ok out → b.signingBytes P = .ok out → a.kind = b.kind) ∧
      ∀ (a b : Signable) (x y : Bytes), a.Sized → b.Sized → a.signingBytes P = .ok x → b.signingBytes P = .ok y →
        (x = y ↔ a.Same P b) := by
  refine ⟨fun a b out ha hb => kind_unique P ha hb, fun a b x y hsa hsb ha hb => ⟨?_, ?_⟩⟩
  · rintro rfl
    exact same_of_signingBytes P hsa hsb ha hb
  · intro h
    exact Except.ok.inj ((h.signingBytes_eq P ha).symm.trans hb)

/-! ## Fields that are not told apart -/

def sampleRequest (method nonce : PyStr) : HttpRequestFields where
  sender := lit "rvn1a"
  recipient := lit "rvn1b"
  method
  target := lit "/"
  issuedAt := 1
  expiresAt := 2
  body := []
  nonce

def sampleEnvelope (messageId : Bytes) (hopLimit : Int) : Rvn1.Envelope where
  envType := 1
  flags := 0
  messageId
  routingTag := List.replicate 16 2
  destDeviceHint := 0
  createdAt := 5
  expiresAt := 6
  hopLimit
  replicationBudget := 1
  antiReplayNonce := List.replicate 12 3
  ratchetHeaderCiphertext := [4]
  messageCiphertext := [5]
  senderAuthentication := []

/-- The limit on hops is not signed. -/
theorem hopLimit_not_signed :
    (Signable.envelope (sampleEnvelope (List.replicate 16 1) 3)).Same Revocation.samplePlatform
      (.envelope (sampleEnvelope (List.replicate 16 1) 9)) :=
  ((signing_separated Revocation.samplePlatform).2 (.envelope (sampleEnvelope (List.replicate 16 1) 3))
    (.envelope (sampleEnvelope (List.replicate 16 1) 9)) _ _ ⟨rfl, rfl, rfl⟩ ⟨rfl, rfl, rfl⟩ rfl rfl).mp rfl

/-- The method is signed in upper case and the nonce as the bytes that it spells; a message id that is too
short is filled up. -/
theorem spellings_not_signed :
    (lit "get" ≠ lit "GET" ∧ lit "aa" ≠ lit "AA" ∧
      ∃ out, httpRequestSigningBytes Revocation.samplePlatform (sampleRequest (lit "get") (lit "aa")) = .ok out ∧
        httpRequestSigningBytes Revocation.samplePlatform (sampleRequest (lit "GET") (lit "AA")) = .ok out) ∧
      ∃ out, Rvn1.signingBytes Revocation.samplePlatform (sampleEnvelope [] 3) = .ok out ∧
        Rvn1.signingBytes Revocation.samplePlatform (sampleEnvelope (List.replicate 16 0) 3) = .ok out := by
  refine ⟨⟨by decide, by decide, _, rfl, rfl⟩, _, rfl, rfl⟩

end Rdap.Protocol
