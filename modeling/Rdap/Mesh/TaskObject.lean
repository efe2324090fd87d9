import Rdap.Agent.NodeIpc
import Rdap.Identity.Signing
import Rdap.Protocol.EnvelopeCodec
import Rdap.Python.JsonLoaded

/-!
# Task objects in a mailbox

A task is stored as an RVN1 envelope, whose ciphertext field is the JSON text, in an RSO1 wrapper of fixed
fields. The reader takes the length of the envelope from its place in the wrapper and leaves it to the
envelope to notice what is missing behind it.
-/

set_option autoImplicit false

namespace Rdap.Mesh
open Python Json Lib Braid Identity Protocol

/-- `RSO1` -/
def rso1Magic : Bytes := [0x52, 0x53, 0x4f, 0x31]

/-- The widths of the wrapper's fields: magic, version, tag, message id, created, expires, a zero and the length
of the envelope. -/
def rso1Fmt : List Nat := [4, 1, 16, 16, 8, 8, 2, 4]

/-- `24 * 3600 * 1000` -/
def dayMs : Int := 24 * 3600 * 1000

/-- What the clock and the random source give to one call; the clock is read twice. -/
structure Draws where
  now : Int
  messageId : Bytes
  antiReplayNonce : Bytes
  created : Int
  messageId_length : messageId.length = 16
  antiReplayNonce_length : antiReplayNonce.length = 12

section
variable (P : Platform)

def storeTag (peerAddress : PyStr) : Except PyExc Bytes := do
  let address ← encodeUtf8 peerAddress
  return (P.sha256 (asciiBytes (lit "rdap-task:") ++ address)).take 16

def taskEnvelope (draws : Draws) (routingTag body : Bytes) : Rvn1.Envelope where
  envType := 4
  flags := 2
  messageId := draws.messageId
  routingTag
  destDeviceHint := 0
  createdAt := draws.now
  expiresAt := draws.now + dayMs
  hopLimit := 4
  replicationBudget := 2
  antiReplayNonce := draws.antiReplayNonce
  ratchetHeaderCiphertext := []
  messageCiphertext := body
  senderAuthentication := List.replicate 64 0

def wrapRso1 (created : Int) (envelope : Bytes) (peerAddress : PyStr) (messageId : Bytes) :
    Except PyExc Bytes := do
  let tag ← storeTag P peerAddress
  let expires := created + dayMs
  let createdField ← Rvn1.packUnsigned 8 created
  let expiresField ← Rvn1.packUnsigned 8 expires
  let zero ← Rvn1.packUnsigned 2 0
  let envLen ← Rvn1.packUnsigned 4 envelope.length
  return [rso1Magic, [0x01], tag, messageId, createdField, expiresField, zero, envLen, envelope].flatten

def makeTaskObject (draws : Draws) (body : Bytes) (peerAddress : PyStr) : Except PyExc PyStr := do
  let tag ← storeTag P peerAddress
  let env ← Rvn1.pack (taskEnvelope draws tag body)
  let object ← wrapRso1 P draws.created env peerAddress draws.messageId
  return hex object

/-- `struct.unpack_from('>I', b, off)` -/
def unpackFrom (b : Bytes) (off : Nat) : Except PyExc Nat :=
  if b.length < off + 4 then .error ⟨.structError, lit "unpack_from requires a buffer of at least 4 bytes"⟩
  else .ok (ofBigEndian ((b.drop off).take 4))

/-- The id and the text of the JSON object in an envelope. -/
def readPayload (messageCiphertext : Bytes) : Except PyExc (PyStr × PyStr) := do
  let text ← decodeUtf8 .strict messageCiphertext
  let payload ← loads P text
  match payload with
  | .dict items => do
    let id ← pyStr P (Dict.getD items (lit "id") (.str []))
    let jsonText ← dumpsSpaced P payload
    return (id, jsonText)
  | _ => .error ⟨.attributeError, lit "object has no attribute 'get'"⟩

def unwrapBody (objectBytes : Bytes) : Except PyExc (PyStr × PyStr) := do
  orRaise (objectBytes.take 4 = rso1Magic) (lit "not an RSO1 object")
  let off := 4 + 1 + 16 + 16 + 8 + 8 + 2
  let envLen ← unpackFrom objectBytes off
  let env := (objectBytes.drop (off + 4)).take envLen
  match Rvn1.unpack env with
  | none => valueError (lit "bad RVN1 envelope in store object")
  | some decoded => readPayload P decoded.messageCiphertext

end

variable {P : Platform}

/-! ## The envelope -/

/-- Both lifetimes of a day can be written in eight bytes. -/
structure Draws.InRange (draws : Draws) : Prop where
  now : 0 ≤ draws.now ∧ draws.now + dayMs < 256 ^ 8
  created : 0 ≤ draws.created ∧ draws.created + dayMs < 256 ^ 8

theorem dayMs_eq : dayMs = 86400000 := rfl

theorem word_day {n : Int} (h : 0 ≤ n ∧ n + dayMs < 256 ^ 8) : Word 8 n ∧ Word 8 (n + dayMs) := by
  rw [dayMs_eq] at h ⊢
  exact ⟨⟨h.1, by omega⟩, ⟨by omega, h.2⟩⟩

theorem storeTag_length {peerAddress : PyStr} {tag : Bytes} (h : storeTag P peerAddress = .ok tag) :
    tag.length = 16 := by
  simp only [storeTag, bind_ok, pure_ok] at h
  obtain ⟨_, _, rfl⟩ := h
  rw [List.length_take, P.sha256_length]
  rfl

theorem storeTag_defined {peerAddress : PyStr} {address : Bytes} (h : encodeUtf8 peerAddress = .ok address) :
    ∃ tag, storeTag P peerAddress = .ok tag :=
  ⟨_, by rw [storeTag, h]; rfl⟩

theorem taskEnvelope_valid {draws : Draws} (hclock : draws.InRange) {tag body : Bytes} (htag : tag.length = 16)
    (hlimit : Rvn1.prefixLen + body.length + Rvn1.authenticationLen ≤ Rvn1.maxWireEnvelopeBytes) :
    (taskEnvelope draws tag body).Valid := by
  obtain ⟨hnow, hexpires⟩ := word_day hclock.now
  have hlife : draws.now < draws.now + dayMs := by
    rw [dayMs_eq]
    omega
  have hhint : Word 8 0 := by decide
  have hhops : Word 1 4 := by decide
  have hbudget : Word 1 2 := by decide
  exact
    { envType := by simp [taskEnvelope, Rvn1.registeredEnvTypes]
      flags := by simp [taskEnvelope, Rvn1.allowedFlags]
      messageId := draws.messageId_length
      routingTag := htag
      destDeviceHint := hhint
      createdAt := hnow
      expiresAt := hexpires
      lifetime := hlife
      hopLimit := hhops
      replicationBudget := hbudget
      nonce := draws.antiReplayNonce_length
      header := Nat.pow_pos (by decide)
      authentication := List.length_replicate
      size := hlimit }

theorem wire_length {e : Rvn1.Envelope} (h : e.Valid) : e.wire.length =
    Rvn1.prefixLen + e.ratchetHeaderCiphertext.length + e.messageCiphertext.length + Rvn1.authenticationLen := by
  rw [Rvn1.Envelope.wire, List.length_append, Rvn1.fields_length h.lengths, List.length_append,
    List.length_append, h.authentication]
  omega

/-! ## The wrapper -/

/-- The fields in front of the envelope. -/
def rso1Fields (tag messageId : Bytes) (created : Int) (envLen : Nat) : List Bytes :=
  [rso1Magic, [0x01], tag, messageId, word 8 created, word 8 (created + dayMs), word 2 0, word 4 envLen]

theorem rso1Fields_lengths {tag messageId : Bytes} (htag : tag.length = 16) (hid : messageId.length = 16)
    (created : Int) (envLen : Nat) : (rso1Fields tag messageId created envLen).map List.length = rso1Fmt := by
  simp only [rso1Fields, List.map_cons, List.map_nil, word_length, htag, hid]
  rfl

theorem wrapRso1_eq {created : Int} {envelope tag messageId : Bytes} {peerAddress : PyStr}
    (htag : storeTag P peerAddress = .ok tag) (hcreated : 0 ≤ created ∧ created + dayMs < 256 ^ 8)
    (hlength : envelope.length < 256 ^ 4) :
    wrapRso1 P created envelope peerAddress messageId =
      .ok ((rso1Fields tag messageId created envelope.length).flatten ++ envelope) := by
  obtain ⟨hword, hexpires⟩ := word_day hcreated
  have hzero : Word 2 0 := by decide
  unfold wrapRso1
  dsimp only
  rw [htag, Rvn1.packUnsigned_pos hword, Rvn1.packUnsigned_pos hexpires, Rvn1.packUnsigned_pos hzero,
    Rvn1.packUnsigned_pos (word_natCast hlength)]
  simp only [rso1Fields, List.flatten_cons, List.flatten_nil, List.append_nil, List.append_assoc]
  rfl

/-- An envelope in its wrapper. -/
structure Wrapped (object : Bytes) (tag messageId raw : Bytes) (created : Int) : Prop where
  tag_length : tag.length = 16
  id_length : messageId.length = 16
  raw_length : raw.length < 256 ^ 4
  eq : object = (rso1Fields tag messageId created raw.length).flatten ++ raw

section
variable {object tag messageId raw : Bytes} {created : Int} (h : Wrapped object tag messageId raw created)
include h

theorem Wrapped.head : (rso1Fields tag messageId created raw.length).flatten.length = 59 := by
  rw [List.length_flatten, rso1Fields_lengths h.tag_length h.id_length]
  rfl

theorem Wrapped.length : object.length = 59 + raw.length := by
  rw [h.eq, List.length_append, h.head]

theorem Wrapped.cut : cut rso1Fmt object = rso1Fields tag messageId created raw.length := by
  rw [h.eq]
  exact cut_append (rso1Fields_lengths h.tag_length h.id_length _ _) _

theorem Wrapped.drop : object.drop 59 = raw := by
  rw [h.eq]
  exact List.drop_left' h.head

theorem Wrapped.take_magic : object.take 4 = rso1Magic := by
  rw [h.eq]
  rfl

/-- The length stands where the reader looks for it, also in a part that is long enough. -/
theorem Wrapped.unpackFrom {n : Nat} (hn : 59 ≤ n) (hlength : n ≤ object.length) :
    unpackFrom (object.take n) 55 = .ok raw.length := by
  have hfield : (object.drop 55).take 4 = word 4 raw.length := by
    have hcut := congrArg (·[7]?) h.cut
    simpa [rso1Fmt, Lib.cut, rso1Fields] using hcut
  unfold Mesh.unpackFrom
  rw [if_neg (by rw [List.length_take]; omega), List.drop_take, List.take_take, Nat.min_eq_left (by omega), hfield,
    Rvn1.ofBigEndian_word_natCast h.raw_length]

end

/-! ## Reading -/

theorem unwrapBody_head {object : Bytes} (h : object.take 4 ≠ rso1Magic) :
    ∃ e, unwrapBody P object = .error e := by
  refine ⟨⟨.valueError, lit "not an RSO1 object"⟩, ?_⟩
  unfold unwrapBody
  rw [orRaise_error.mpr ⟨h, rfl⟩]
  rfl

theorem unwrapBody_short {object : Bytes} (h : object.length < 59) : ∃ e, unwrapBody P object = .error e := by
  by_cases hmagic : object.take 4 = rso1Magic
  · refine ⟨⟨.structError, lit "unpack_from requires a buffer of at least 4 bytes"⟩, ?_⟩
    unfold unwrapBody
    rw [orRaise_pos hmagic]
    simp only [unpackFrom, bind, Except.bind, if_pos h]
  · exact unwrapBody_head hmagic

theorem unwrapBody_eq {object : Bytes} {envLen : Nat} (hmagic : object.take 4 = rso1Magic)
    (hlen : unpackFrom object 55 = .ok envLen) :
    unwrapBody P object = match Rvn1.unpack ((object.drop 59).take envLen) with
      | none => valueError (lit "bad RVN1 envelope in store object")
      | some decoded => readPayload P decoded.messageCiphertext := by
  unfold unwrapBody
  rw [orRaise_pos hmagic]
  simp only [bind, Except.bind, hlen]

/-- A part of an object is noticed by the wrapper or, behind it, by the envelope. -/
theorem Wrapped.part {object tag messageId raw : Bytes} {created : Int} {e : Rvn1.Envelope}
    (h : Wrapped object tag messageId raw created) (hraw : Rvn1.unpack raw = some e) {n : Nat}
    (hn : n < object.length) : ∃ err, unwrapBody P (object.take n) = .error err := by
  by_cases hshort : n < 59
  · apply unwrapBody_short
    rw [List.length_take]
    omega
  · have hlen := h.unpackFrom (Nat.le_of_not_lt hshort) (Nat.le_of_lt hn)
    have hmagic : (object.take n).take 4 = rso1Magic := by
      rw [List.take_take, Nat.min_eq_left (by omega), h.take_magic]
    have henv : ((object.take n).drop 59).take raw.length = raw.take (n - 59) := by
      rw [List.drop_take, h.drop, List.take_take, Nat.min_eq_right]
      rw [h.length] at hn
      omega
    have hnone : Rvn1.unpack (raw.take (n - 59)) = none := by
      cases hpart : Rvn1.unpack (raw.take (n - 59)) with
      | none => rfl
      | some f =>
        rw [← List.take_append_drop (n - 59) raw] at hraw
        have hrest := congrArg List.length (Rvn1.unpack_append hpart hraw)
        rw [List.length_drop, List.length_nil] at hrest
        rw [h.length] at hn
        omega
    rw [unwrapBody_eq hmagic hlen, henv, hnone]
    exact ⟨_, rfl⟩

theorem Wrapped.whole {object tag messageId raw : Bytes} {created : Int} {e : Rvn1.Envelope}
    (h : Wrapped object tag messageId raw created) (hraw : Rvn1.unpack raw = some e) :
    unwrapBody P object = readPayload P e.messageCiphertext := by
  have hlen := h.unpackFrom (n := object.length) (by rw [h.length]; omega) (Nat.le_refl _)
  rw [List.take_length] at hlen
  rw [unwrapBody_eq h.take_magic hlen, h.drop, List.take_length, hraw]

theorem readPayload_eq {body : Bytes} {text : PyStr} (htext : decodeUtf8 .strict body = .ok text) {payload : Dict}
    (hjson : loads P text = .ok (.dict payload)) {id jsonText : PyStr}
    (hid : pyStr P (Dict.getD payload (lit "id") (.str [])) = .ok id)
    (hdumps : dumpsSpaced P (.dict payload) = .ok jsonText) : readPayload P body = .ok (id, jsonText) := by
  simp only [readPayload, htext, bind, Except.bind, hjson, hid, hdumps]
  rfl

/-! ## The round trip -/

theorem makeTaskObject_wrapped {draws : Draws} (hclock : draws.InRange) {peerAddress : PyStr} {address : Bytes}
    (hpeer : encodeUtf8 peerAddress = .ok address) {body : Bytes}
    (hlimit : Rvn1.prefixLen + body.length + Rvn1.authenticationLen ≤ Rvn1.maxWireEnvelopeBytes) :
    ∃ tag raw object, Rvn1.pack (taskEnvelope draws tag body) = .ok raw ∧
      raw.length = Rvn1.prefixLen + body.length + Rvn1.authenticationLen ∧
      Rvn1.unpack raw = some (taskEnvelope draws tag body) ∧
      makeTaskObject P draws body peerAddress = .ok (hex object) ∧
      Wrapped object tag draws.messageId raw draws.created := by
  obtain ⟨tag, htag⟩ := storeTag_defined (P := P) hpeer
  have htagLen := storeTag_length htag
  have hvalid := taskEnvelope_valid hclock htagLen hlimit
  have hpack := Rvn1.pack_valid hvalid
  have hlength := wire_length hvalid
  have hsmall : (taskEnvelope draws tag body).wire.length < 256 ^ 4 := by
    have hmax : Rvn1.maxWireEnvelopeBytes < 256 ^ 4 := by decide
    simp only [taskEnvelope, List.length_nil, Nat.add_zero] at hlength
    rw [taskEnvelope, hlength]
    omega
  have hwrap := @wrapRso1_eq P _ _ _ draws.messageId _ htag hclock.created hsmall
  refine ⟨tag, _, _, hpack, hlength, Rvn1.unpack_wire hvalid, ?_, htagLen, draws.messageId_length, hsmall, rfl⟩
  rw [makeTaskObject, htag]
  simp only [bind, Except.bind, hpack, hwrap]
  rfl

theorem task_object_round_trip (hP : ReprFloats P) (hN : NumeralFloats P) {draws : Draws}
    (hclock : draws.InRange) {peerAddress : PyStr} {address : Bytes}
    (hpeer : encodeUtf8 peerAddress = .ok address)
    {body : Bytes} {text : PyStr} (htext : decodeUtf8 .strict body = .ok text) {payload : Dict}
    (hjson : loads P text = .ok (.dict payload))
    (hlimit : Rvn1.prefixLen + body.length + Rvn1.authenticationLen ≤ Rvn1.maxWireEnvelopeBytes) :
    ∃ object, makeTaskObject P draws body peerAddress = .ok (hex object) ∧ fromhex (hex object) = .ok object ∧
      (∃ id jsonText, pyStr P (Dict.getD payload (lit "id") (.str [])) = .ok id ∧
        unwrapBody P object = .ok (id, jsonText) ∧ loads P jsonText = .ok (.dict payload)) ∧
      (∃ raw envelope, Rvn1.pack envelope = .ok raw ∧
        raw.length = Rvn1.prefixLen + body.length + Rvn1.authenticationLen ∧
        Rvn1.unpack raw = some envelope ∧ envelope.messageCiphertext = body ∧
        object.drop rso1Fmt.sum = raw ∧
        cut rso1Fmt object = rso1Fields envelope.routingTag envelope.messageId draws.created raw.length) ∧
      ∀ n < object.length, ∃ e, unwrapBody P (object.take n) = .error e := by
  obtain ⟨tag, raw, object, hpack, hlength, hunpack, hmake, hwrapped⟩ :=
    makeTaskObject_wrapped (P := P) hclock hpeer hlimit
  have hprintable := loads_printable hjson
  obtain ⟨id, hid⟩ := pyStr_defined (P := P)
    (getD_printable hprintable (lit "id") (v := .str []) trivial)
  obtain ⟨jsonText, hdumps, hback⟩ := dumpsSpaced_loaded hP hN hjson
  have hread : unwrapBody P object = .ok (id, jsonText) :=
    (hwrapped.whole hunpack).trans (readPayload_eq htext hjson hid hdumps)
  refine ⟨object, hmake, fromhex_hex object, ⟨id, jsonText, hid, hread, hback⟩,
    ⟨raw, _, hpack, hlength, hunpack, rfl, hwrapped.drop, hwrapped.cut⟩, ?_⟩
  exact fun n hn => hwrapped.part hunpack hn

/-! ## One task, and a body that nests too deep -/

/-- Floating point numbers are written with a point, a numeral beyond them is infinite. -/
def pointedLimit (limit : Nat) : Platform where
  __ := Agent.pointedPlatform
  parseFloat s :=
    let bits := Agent.pointedPlatform.parseFloat s
    if isFinite bits then bits else infinity
  recursionLimit := limit

theorem pointedLimit_parse (limit : Nat) (s : PyStr) : (pointedLimit limit).parseFloat s =
    if isFinite (Agent.pointedPlatform.parseFloat s) then Agent.pointedPlatform.parseFloat s else infinity := rfl

theorem pointedLimit_floats (limit : Nat) : ReprFloats (pointedLimit limit) where
  literal := Agent.pointedPlatform_floats.literal
  parse bits h := by
    have hparse : Agent.pointedPlatform.parseFloat ((pointedLimit limit).reprValue (.float bits)) = bits :=
      Agent.pointedPlatform_floats.parse bits h
    rw [pointedLimit_parse, hparse, if_pos h]

theorem pointedLimit_numerals (limit : Nat) : NumeralFloats (pointedLimit limit) := by
  have hparse : ∀ s, isFinite ((pointedLimit limit).parseFloat s) = true ∨
      (pointedLimit limit).parseFloat s = infinity := by
    intro s
    rw [pointedLimit_parse]
    split
    · rename_i h
      exact Or.inl h
    · exact Or.inr rfl
  intro s rest bits h
  unfold scanNumeral at h
  simp only at h
  split at h
  · cases h
  · split at h
    · rename_i whole _ _ _
      cases hint : intOfStr (pointedLimit limit) ((splitMinus s).1 ++ whole) with
      | error e => simp [hint, Except.map] at h
      | ok k => simp [hint, Except.map] at h
    · obtain ⟨hbits, _⟩ := Prod.mk.inj (Except.ok.inj h)
      obtain rfl := Value.float.inj hbits
      rcases hparse _ with hfinite | hinf
      · exact Or.inl hfinite
      · exact Or.inr (Or.inl hinf)

def noonDraws : Draws where
  now := 1700000000000
  messageId := List.replicate 16 1
  antiReplayNonce := List.replicate 12 2
  created := 1700000000001
  messageId_length := rfl
  antiReplayNonce_length := rfl

theorem noonDraws_inRange : noonDraws.InRange where
  now := by decide
  created := by decide

def smallPayload : Dict := [(lit "id", .str (lit "t1")), (lit "done", .bool false)]

/-- The text of `smallPayload`. -/
def smallBody : PyStr :=
  openDict :: (lit "\"id\": \"t1\", \"done\": false" ++ [closeDict])

theorem loads_smallBody : loads (pointedLimit 1000) smallBody = .ok (.dict smallPayload) := by
  have hdumps : dumpsSpaced (pointedLimit 1000) (.dict smallPayload) = .ok smallBody := rfl
  have hends : EndsNumeral [] := fun c hc => by cases hc
  have hloads := loads_dumpsSpaced (pointedLimit_floats 1000) hdumps rfl hends
  rwa [List.append_nil] at hloads

theorem small_task_object : ∃ body object, encodeUtf8 smallBody = .ok body ∧
    makeTaskObject (pointedLimit 1000) noonDraws body (lit "rvn1q") = .ok (hex object) ∧
    (∃ jsonText, unwrapBody (pointedLimit 1000) object = .ok (lit "t1", jsonText) ∧
      loads (pointedLimit 1000) jsonText = .ok (.dict smallPayload)) ∧
    ∀ n < object.length, ∃ e, unwrapBody (pointedLimit 1000) (object.take n) = .error e := by
  obtain ⟨address, hpeer, _⟩ := encodeUtf8_of_ascii (s := lit "rvn1q") (by decide)
  obtain ⟨body, hbody, hlength⟩ := encodeUtf8_of_ascii (s := smallBody) (by decide)
  have hlimit : Rvn1.prefixLen + body.length + Rvn1.authenticationLen ≤ Rvn1.maxWireEnvelopeBytes := by
    rw [hlength]
    decide
  obtain ⟨object, hmake, _, ⟨id, jsonText, hid, hunwrap, hback⟩, _, hparts⟩ :=
    task_object_round_trip (pointedLimit_floats 1000) (pointedLimit_numerals 1000) noonDraws_inRange hpeer
      (decodeUtf8_encodeUtf8 hbody .strict) loads_smallBody hlimit
  obtain rfl : lit "t1" = id := Except.ok.inj hid
  exact ⟨body, object, hbody, hmake, ⟨jsonText, hunwrap, hback⟩, hparts⟩

/-- A list of a list and so on. -/
def nestedList : Nat → Value
  | 0 => .list []
  | n + 1 => .list [nestedList n]

def brackets (n : Nat) : PyStr := List.replicate (n + 1) openList ++ List.replicate (n + 1) closeList

theorem nestedList_spec (n : Nat) : encodeSpaced P (nestedList n) = .ok (brackets n) ∧
    depth (nestedList n) = n + 1 ∧ settle (nestedList n) = nestedList n := by
  induction n with
  | zero => exact ⟨rfl, rfl, rfl⟩
  | succ n ih =>
    obtain ⟨hencode, hdepth, hsettle⟩ := ih
    refine ⟨?_, ?_, ?_⟩
    · simp only [nestedList, encodeSpaced, hencode, encodeItemsSpaced, bind, Except.bind, pure, Except.pure,
        brackets, List.append_assoc, List.nil_append]
      rw [List.replicate_succ (n := n + 1), List.replicate_succ' (n := n + 1)]
      simp only [List.cons_append, List.append_assoc]
    · simp [nestedList, depth, depthItems, hdepth]
    · simp only [nestedList, settle, settleItems, hsettle]

/-- The text of an object with a list of brackets. -/
def deepText (n : Nat) : PyStr :=
  openDict :: encodeString (lit "id") ++ colon :: blank :: brackets n ++ [closeDict]

theorem deepText_dumps (n : Nat) :
    dumpsSpaced (pointedLimit (n + 2)) (.dict [(lit "id", nestedList n)]) = .ok (deepText n) := by
  obtain ⟨hencode, hdepth, _⟩ := nestedList_spec (P := pointedLimit (n + 2)) n
  have hlimit : (pointedLimit (n + 2)).recursionLimit = n + 2 := rfl
  unfold dumpsSpaced
  rw [if_neg (by rw [hlimit, depth, depthMembers, depthMembers, hdepth]; omega)]
  simp only [encodeSpaced, hencode, encodeMembersSpaced, bind, Except.bind, pure, Except.pure, deepText,
    List.append_nil]

/-- The reader has one level less than the text needs. -/
theorem loads_deepText (n : Nat) : loads (pointedLimit (n + 1)) (deepText n) = recursionError := by
  have hbrace : isJsonSpace openDict = false := by decide
  have hquote : isJsonSpace quote = false := by decide
  have hbracket : isJsonSpace openList = false := by decide
  have hmark : openDict ≠ byteOrderMark := by decide
  have hstring : openDict ≠ quote := by decide
  have hlist : openDict ≠ openList := by decide
  have hclose : quote ≠ closeDict := by decide
  have hinner : scanOnce (pointedLimit (n + 1)) n (brackets n ++ [closeDict]) = recursionError := by
    rw [brackets, List.append_assoc]
    exact Agent.scanOnce_deep n _
  have hkey : scanKey (encodeString (lit "id") ++ colon :: blank :: (brackets n ++ [closeDict])) =
      .ok (lit "id", brackets n ++ [closeDict]) := by
    have hgap := @scanKey_encode indented (lit "id") (brackets n ++ [closeDict])
    have hskip : skipSpace (brackets n ++ [closeDict]) = brackets n ++ [closeDict] := by
      rw [brackets, List.replicate_succ, List.cons_append, List.cons_append, skipSpace_cons hbracket]
    rwa [List.append_assoc, hskip] at hgap
  have hlimit : (pointedLimit (n + 1)).recursionLimit = n + 1 := rfl
  have htext : deepText n =
      openDict :: (encodeString (lit "id") ++ colon :: blank :: (brackets n ++ [closeDict])) := by
    simp only [deepText, List.cons_append, List.append_assoc]
  have hskip : skipSpace (encodeString (lit "id") ++ colon :: blank :: (brackets n ++ [closeDict])) =
      encodeString (lit "id") ++ colon :: blank :: (brackets n ++ [closeDict]) := skipSpace_cons hquote _
  have hhead : (encodeString (lit "id") ++ colon :: blank :: (brackets n ++ [closeDict])).head? ≠
      some closeDict := fun he => hclose (Option.some.inj he)
  have hscan : scanDict (scanOnce (pointedLimit (n + 1)) n)
      (encodeString (lit "id") ++ colon :: blank :: (brackets n ++ [closeDict])) = recursionError := by
    simp only [scanDict, hskip, hhead, if_false, scanMember, hkey, hinner, bind, Except.bind]
    rfl
  have honce : scanOnce (pointedLimit (n + 1)) (n + 1) (deepText n) = recursionError := by
    rw [htext]
    simpa only [scanOnce, scanValue, hstring, hlist, if_false, if_true] using hscan
  have hspace : skipSpace (deepText n) = deepText n := skipSpace_cons hbrace _
  have hno : (deepText n).head? ≠ some byteOrderMark := fun he => hmark (Option.some.inj he)
  unfold loads
  rw [if_neg hno, hspace, hlimit, honce]
  rfl

theorem deepText_length (n : Nat) : (deepText n).length = 2 * n + 10 := by
  have hkey : (encodeString (lit "id")).length = 4 := rfl
  simp only [deepText, brackets, List.cons_append, List.length_cons, List.length_append, List.length_replicate,
    List.length_nil, hkey]
  omega

theorem deepText_ascii (n : Nat) : (deepText n).all isAscii = true := by
  simp only [deepText, brackets, List.cons_append, List.all_cons, List.all_append, List.all_replicate]
  rfl

/-- A JSON object that a reader with one level more takes, and a peer address that UTF-8 cannot write. -/
theorem deep_body_raises : ∃ body object, encodeUtf8 (deepText 999) = .ok body ∧
    Rvn1.prefixLen + body.length + Rvn1.authenticationLen ≤ Rvn1.maxWireEnvelopeBytes ∧
    loads (pointedLimit 1001) (deepText 999) = .ok (.dict [(lit "id", nestedList 999)]) ∧
    makeTaskObject (pointedLimit 1000) noonDraws body (lit "rvn1q") = .ok (hex object) ∧
    unwrapBody (pointedLimit 1000) object = recursionError ∧
    makeTaskObject (pointedLimit 1000) noonDraws body [0xD800] =
      .error ⟨.unicodeEncodeError, lit "surrogates not allowed"⟩ := by
  obtain ⟨address, hpeer, _⟩ := encodeUtf8_of_ascii (s := lit "rvn1q") (by decide)
  obtain ⟨body, hbody, hlength⟩ := encodeUtf8_of_ascii (deepText_ascii 999)
  have hlimit : Rvn1.prefixLen + body.length + Rvn1.authenticationLen ≤ Rvn1.maxWireEnvelopeBytes := by
    rw [hlength, deepText_length]
    decide
  have hjson : loads (pointedLimit 1001) (deepText 999) = .ok (.dict [(lit "id", nestedList 999)]) := by
    have hends : EndsNumeral [] := fun c hc => by cases hc
    have hloads := loads_dumpsSpaced (pointedLimit_floats 1001) (deepText_dumps 999) rfl hends
    have hsettle := (nestedList_spec (P := pointedLimit 1001) 999).2.2
    have hnames : ([(lit "id", nestedList 999)].map Prod.fst).Nodup := List.nodup_singleton _
    rw [List.append_nil, settle_dict hnames, settleMembers, settleMembers, hsettle] at hloads
    exact hloads
  obtain ⟨tag, raw, object, _, _, hunpack, hmake, hwrapped⟩ :=
    makeTaskObject_wrapped (P := pointedLimit 1000) noonDraws_inRange hpeer hlimit
  have hraised : unwrapBody (pointedLimit 1000) object = recursionError := by
    have htext : decodeUtf8 .strict (taskEnvelope noonDraws tag body).messageCiphertext = .ok (deepText 999) :=
      decodeUtf8_encodeUtf8 hbody .strict
    rw [hwrapped.whole hunpack, readPayload, htext]
    simp only [bind, Except.bind, loads_deepText 999]
    rfl
  exact ⟨body, object, hbody, hlimit, hjson, hmake, hraised, rfl⟩

end Rdap.Mesh
