import Rdap.Agent.NodeName
import Rdap.Identity.Keys
import Rdap.Lib.StackWalk
import Rdap.Protocol.Display
import Rdap.Python.Equality
import Rdap.Python.Hex
import Rdap.Python.JsonValues
import Rdap.Python.Raise

/-!
# The public identity of a node

A node takes its address and public key from a document that another program exported. The
document is searched for private keys, for claims of confidentiality and for keys of devices
before anything is read from it.
-/

set_option autoImplicit false

namespace Rdap.Identity
open Python Protocol Lib Agent Bech32m Address

def whoamiSchema : PyStr := lit "raven.whoami.public.v1"

def whoamiSchemaAliases : List PyStr := [whoamiSchema, lit "raven.whoami.v1"]

def ashContactPinKind : PyStr := lit "ash-contact"

def publicKeyFields : List PyStr := [lit "public_key", lit "pub_hex", lit "publicKey", lit "pubkey"]

def addressFields : List PyStr := [lit "address", lit "rvn1", lit "raven_id"]

def fingerprintFields : List PyStr := [lit "fingerprint", lit "fp"]

def deviceKeyFields : List PyStr := [
  lit "device_ed_pub", lit "device_ed_pub_hex", lit "deviceedpub", lit "deviceedpubhex",
  lit "device_public_key", lit "devicepublickey", lit "device_pubkey", lit "devicepubkey",
  lit "device_cert_pub", lit "devicecertpub", lit "device_ed25519_pub", lit "deviceed25519pub"]

def privateKeyNames : List PyStr := [
  lit "seed", lit "rawseed", lit "private", lit "privatekey", lit "privatekeyhex",
  lit "privatebytes", lit "priv", lit "privkey", lit "secret", lit "secretkey", lit "signingkey",
  lit "identityseed", lit "identityprivate", lit "deviceed25519", lit "deviceed25519seed",
  lit "ed25519seed", lit "sk", lit "d"]

def confidentialTrueKeys : List PyStr := [
  lit "confidential", lit "confidentiality", lit "e2ee", lit "e2e", lit "sealed", lit "atsam"]

def carrierKeys : List PyStr := [lit "carrier", lit "carriertype", lit "sendpath"]

def confidentialCarriers : List PyStr := [lit "atsamrvn1", lit "atsam", lit "confidential"]

/-- The values a flag of confidentiality may have. -/
def falseValues : List Value := [
  .bool false, .int 0, .str (lit "0"), .str (lit "false"), .str (lit "no"), .str [], .none]

/-- The first two are subclasses of `ValueError`. -/
inductive BindExc where
  | privateKeyMaterial (message : PyStr)
  | confidentialClaim (message : PyStr)
  | other (exc : PyExc)
  deriving DecidableEq

def bindValueError {α : Type} (message : PyStr) : Except BindExc α :=
  .error (.other ⟨.valueError, message⟩)

/-- What a built-in raises passes through. -/
def passing {α : Type} : Except PyExc α → Except BindExc α
  | .ok a => .ok a
  | .error e => .error (.other e)

theorem passing_ok {α : Type} {x : Except PyExc α} {a : α} : passing x = .ok a ↔ x = .ok a := by
  cases x <;> simp [passing]

/-- What the Unicode database says of letters and digits, with what it says of ASCII. -/
structure Letters where
  /-- `str.isalnum` for one character. -/
  isAlnum : CodePoint → Bool
  isAlnum_ascii : ∀ {c : CodePoint}, isAscii c = true → isAlnum c = isAsciiAlnum c

structure PublicWhoami where
  address : PyStr
  publicKey : PyStr
  fingerprint : PyStr
  pinKind : PyStr
  deriving DecidableEq

def ashContactInvite (address publicKey : PyStr) : PyStr :=
  lit "raven:" ++ address ++ lit ":" ++ publicKey

def PublicWhoami.ashInvite (w : PublicWhoami) : PyStr := ashContactInvite w.address w.publicKey

def PublicWhoami.pinDict (w : PublicWhoami) : Dict := [
  (lit "kind", .str w.pinKind),
  (lit "address", .str w.address),
  (lit "public_key", .str w.publicKey),
  (lit "fingerprint", .str w.fingerprint),
  (lit "invite", .str w.ashInvite)]

def PublicWhoami.asPublicDict (w : PublicWhoami) : Dict := [
  (lit "schema", .str whoamiSchema),
  (lit "address", .str w.address),
  (lit "public_key", .str w.publicKey),
  (lit "fingerprint", .str w.fingerprint),
  (lit "pin", .dict w.pinDict)]

variable (P : Platform) (L : Letters)

/-! ## Fingerprints -/

def group4 (s : PyStr) : PyStr := List.intercalate (lit "-") (Address.fours s.length s)

/-- `RavenDeviceFingerprintV1` -/
def deviceFingerprintV1 (edPub : Bytes) : PyStr :=
  let b64 := (b64encode ((P.sha256 edPub).take 9)).filter fun c => c ≠ 43 && c ≠ 47
  group4 (b64.take 12)

def fingerprintForPublicKey (publicKeyHex : PyStr) : Except PyExc PyStr :=
  match fromhex publicKeyHex with
  | .error _ => valueError (lit "public key must be hexadecimal")
  | .ok publicKey =>
    if publicKey.length ≠ 32 then valueError (lit "public key must be exactly 32 bytes")
    else .ok (deviceFingerprintV1 P publicKey)

/-! ## What is looked for -/

/-- `repr` of a string: a list prints its items so, between brackets. -/
def reprStr (s : PyStr) : PyStr := (P.reprValue (.list [.str s])).tail.dropLast

def refuseConfidentialClaim (carrier : PyStr) : Except BindExc Unit :=
  .error (.confidentialClaim
    (lit "NON-RELEASE / HOLD: M1 same-RVN1 public bind cannot claim confidential " ++
      lit "delivery or carrier " ++ reprStr P carrier ++ lit "; no ATSAM seal / atsam_rvn1 send"))

/-- `_norm_key` of a text. -/
def normKey (name : PyStr) : PyStr := (P.lower name).filter L.isAlnum

/-- `sub in s` -/
def occursIn (sub s : PyStr) : Bool := s.tails.any fun t => startsWith t sub

def looksLikePemPrivate : Value → Bool
  | .str s => occursIn (lit "BEGIN") (P.upper s) && occursIn (lit "PRIVATE KEY") (P.upper s)
  | _ => false

def privateKeyMaterial : BindExc :=
  .privateKeyMaterial (lit "whoami import rejected: private key material is present")

/-- `value in (False, 0, '0', 'false', 'no', '', None)` -/
def isFalseValue (value : Value) : Bool := falseValues.any (pyEq value)

def checkMember (item : PyStr × Value) : Except BindExc Unit :=
  let key := normKey P L item.1
  if key ∈ privateKeyNames ∨ looksLikePemPrivate P item.2 then .error privateKeyMaterial
  else if key ∈ confidentialTrueKeys ∧ isFalseValue item.2 = false then
    refuseConfidentialClaim P item.1
  else if key ∈ carrierKeys then do
    let text ← passing (pyStr P item.2)
    if normKey P L text ∈ confidentialCarriers then refuseConfidentialClaim P text
  else .ok ()

/-- A turn of the first walk, up to the pushing. -/
def visitPrivate : Value → Except BindExc Unit
  | .dict items => items.forM (checkMember P L)
  | .list _ => .ok ()
  | node => if looksLikePemPrivate P node then .error privateKeyMaterial else .ok ()

def checkDeviceMember (item : PyStr × Value) : Except BindExc Unit :=
  if normKey P L item.1 ∈ deviceKeyFields then
    bindValueError (lit "whoami pin must be the user-identity RVN1; pin is not device_ed_pub")
  else .ok ()

/-- A turn of the second walk, up to the pushing. -/
def visitDevice : Value → Except BindExc Unit
  | .dict items => items.forM (checkDeviceMember P L)
  | _ => .ok ()

/-! ## The walks -/

/-- What a turn pushes. -/
def pushed : Value → List Value
  | .dict items => items.map Prod.snd
  | .list items => items
  | _ => []

mutual
def nodes : Value → Nat
  | .dict items => 1 + nodesOfMembers items
  | .list items => 1 + nodesOfItems items
  | _ => 1

def nodesOfItems : List Value → Nat
  | [] => 0
  | v :: vs => nodes v + nodesOfItems vs

def nodesOfMembers : List (PyStr × Value) → Nat
  | [] => 0
  | (_, v) :: items => nodes v + nodesOfMembers items
end

theorem nodesOfItems_eq (items : List Value) : nodesOfItems items = (items.map nodes).sum := by
  induction items with
  | nil => rfl
  | cons v vs ih => rw [nodesOfItems, ih, List.map_cons, List.sum_cons]

theorem nodesOfMembers_eq (items : Dict) :
    nodesOfMembers items = ((items.map Prod.snd).map nodes).sum := by
  induction items with
  | nil => rfl
  | cons item items ih => rw [nodesOfMembers, ih, List.map_cons, List.map_cons, List.sum_cons]

theorem pushed_nodes (node : Value) : ((pushed node).map nodes).sum < nodes node := by
  cases node with
  | dict items =>
    have heq := nodesOfMembers_eq items
    simp only [pushed, nodes]
    omega
  | list items =>
    have heq := nodesOfItems_eq items
    simp only [pushed, nodes]
    omega
  | _ => simp [pushed, nodes]

def documentTree : Branching Value := ⟨pushed, nodes, pushed_nodes⟩

def rejectPrivateAndConfidential (document : Value) : Except BindExc Unit :=
  documentTree.walk (visitPrivate P L) [document]

def rejectDevicePubFields (document : Value) : Except BindExc Unit :=
  documentTree.walk (visitDevice P L) [document]

/-! ## Reading the document -/

def firstString (document : Dict) : List PyStr → Except BindExc PyStr
  | [] => .ok []
  | name :: names =>
    match document.getD name .none with
    | .none => firstString document names
    | value => do
      let text ← passing (pyStr P value)
      if strip text ≠ [] then pure (strip text) else firstString document names

/-- `a or b` -/
def pyOr (a b : Value) : Value := if truthy a then a else b

def statedSchema (document : Dict) : Except BindExc PyStr := do
  let named := pyOr (document.getD (lit "schema") .none) (document.getD (lit "$schema") .none)
  let text ← passing (pyStr P (pyOr named (.str [])))
  pure (strip text)

def mismatchOnValueError {α : Type} : Except PyExc α → Except BindExc α
  | .ok a => .ok a
  | .error e =>
    if e.kind.isValueError then bindValueError (lit "whoami address/public-key mismatch")
    else .error (.other e)

def bindEnsure (c : Prop) [Decidable c] (message : PyStr) : Except BindExc Unit :=
  if c then .ok () else bindValueError message

/-- The fingerprint that the pin states, after all else in it was checked. -/
def pinFingerprint (document : Dict) (address publicKey : PyStr) : Except BindExc PyStr :=
  match document.getD (lit "pin") .none with
  | .str pin => .ok (strip pin)
  | .dict pin => do
    rejectPrivateAndConfidential P L (.dict pin)
    let kind ← passing (pyStr P (pyOr (Dict.getD pin (lit "kind") .none) (.str ashContactPinKind)))
    let pinKind := if strip kind ≠ [] then strip kind else ashContactPinKind
    bindEnsure (pinKind ∈ [ashContactPinKind, lit "rvn1", lit "user-identity"])
      (lit "whoami pin kind must be ash-contact / user-identity RVN1")
    let pinFp ← firstString P pin fingerprintFields
    let pinPub ← firstString P pin publicKeyFields
    let pinAddr ← firstString P pin addressFields
    bindEnsure (pinPub = [] ∨ P.lower pinPub = publicKey)
      (lit "whoami pin public key does not match user-identity RVN1")
    bindEnsure (pinAddr = [] ∨ pinAddr = address)
      (lit "whoami pin address does not match user-identity RVN1")
    pin.forM (checkDeviceMember P L)
    pure pinFp
  | _ => .ok []

/-- What follows the two walks. -/
def whoamiOf (document : Dict) : Except BindExc PublicWhoami := do
  let schema ← statedSchema P document
  bindEnsure (schema = [] ∨ schema ∈ whoamiSchemaAliases) (lit "unsupported whoami schema")
  let address ← firstString P document addressFields
  let publicKey ← firstString P document publicKeyFields
  bindEnsure (publicKey ≠ []) (lit "whoami is missing public_key / pub_hex")
  bindEnsure (address ≠ []) (lit "whoami is missing RVN1 address")
  let _ ← mismatchOnValueError (validateAddressPublicKey P address publicKey)
  let derivedFp ← passing (fingerprintForPublicKey P (P.lower publicKey))
  let statedFp ← firstString P document fingerprintFields
  let pinFp ← pinFingerprint P L document address (P.lower publicKey)
  bindEnsure (statedFp = [] ∨ statedFp = derivedFp)
    (lit "whoami fingerprint does not match public key")
  bindEnsure (pinFp = [] ∨ pinFp = derivedFp)
    (lit "whoami pin fingerprint does not match public key")
  pure ⟨address, P.lower publicKey, derivedFp, ashContactPinKind⟩

def parsePublicWhoami (document : Value) : Except BindExc PublicWhoami :=
  match document with
  | .dict items => do
    rejectPrivateAndConfidential P L document
    rejectDevicePubFields P L document
    whoamiOf P L items
  | _ => bindValueError (lit "whoami document must be a JSON object")

def parseAshContactPin (token : PyStr) : Except BindExc PublicWhoami :=
  let raw := strip token
  if startsWith raw (lit "raven:") ∧ raw.count 58 = 2 then
    match raw.splitOn 58 with
    | [_, address, publicKey] => parsePublicWhoami P L (.dict [
        (lit "schema", .str whoamiSchema),
        (lit "address", .str address),
        (lit "public_key", .str publicKey)])
    | _ => bindValueError (lit "not enough values to unpack")
  else bindValueError
    (lit "ash contact pin must be raven:<rvn1>:<pub_hex> of the user-identity RVN1")

/-! ## What is accepted -/

theorem bindEnsure_ok {c : Prop} [Decidable c] {message : PyStr} {u : Unit} :
    bindEnsure c message = .ok u ↔ c := by
  unfold bindEnsure
  split <;> simp_all [bindValueError]

theorem mismatchOnValueError_ok {α : Type} {x : Except PyExc α} {a : α} :
    mismatchOnValueError x = .ok a ↔ x = .ok a := by
  cases x with
  | ok b => simp [mismatchOnValueError]
  | error e =>
    unfold mismatchOnValueError
    simp only [reduceCtorEq, iff_false]
    split <;> simp [bindValueError]

/-- The pin of a document agrees with the address and the key and states a fingerprint. -/
def PinStates (address publicKey pinFp : PyStr) : Value → Prop
  | .str pin => strip pin = pinFp
  | .dict pin =>
    (∃ kind, pyStr P (pyOr (Dict.getD pin (lit "kind") .none) (.str ashContactPinKind)) = .ok kind ∧
      (strip kind = [] ∨ strip kind ∈ [ashContactPinKind, lit "rvn1", lit "user-identity"])) ∧
    firstString P pin fingerprintFields = .ok pinFp ∧
    (∃ pinPub, firstString P pin publicKeyFields = .ok pinPub ∧
      (pinPub = [] ∨ P.lower pinPub = publicKey)) ∧
    (∃ pinAddr, firstString P pin addressFields = .ok pinAddr ∧ (pinAddr = [] ∨ pinAddr = address))
  | _ => pinFp = []

/-- The fields of the document agree with the key in it. -/
structure Coherent (document : Dict) (address publicKey : PyStr) (key : Bytes) : Prop where
  schema : ∃ schema, statedSchema P document = .ok schema ∧
    (schema = [] ∨ schema ∈ whoamiSchemaAliases)
  address_read : firstString P document addressFields = .ok address
  publicKey_read : firstString P document publicKeyFields = .ok publicKey
  publicKey_hex : fromhex publicKey = .ok key
  key_length : key.length = 32
  address_derived : address = Address.encode P key
  fingerprint : ∃ fp, firstString P document fingerprintFields = .ok fp ∧
    (fp = [] ∨ fp = deviceFingerprintV1 P key)
  pin : ∃ fp, PinStates P address (P.lower publicKey) fp (document.getD (lit "pin") .none) ∧
    (fp = [] ∨ fp = deviceFingerprintV1 P key)

variable {P L}

theorem validateAddressPublicKey_iff {address publicKeyHex : PyStr} {key : Bytes} :
    validateAddressPublicKey P address publicKeyHex = .ok key ↔
      fromhex publicKeyHex = .ok key ∧ key.length = 32 ∧ address = Address.encode P key := by
  constructor
  · intro h
    obtain ⟨hlen, haddress⟩ := validateAddressPublicKey_ok P h
    refine ⟨?_, hlen, haddress⟩
    cases hkey : fromhex publicKeyHex with
    | error e => simp [validateAddressPublicKey, hkey, valueError] at h
    | ok bytes =>
      simp only [validateAddressPublicKey, hkey] at h
      split_ifs at h
      · cases h
      · cases h
      · exact h
  · rintro ⟨hkey, hlen, rfl⟩
    exact validateAddressPublicKey_of_hex P hkey hlen

theorem fingerprintForPublicKey_of_hex {publicKeyHex : PyStr} {key : Bytes}
    (hkey : fromhex publicKeyHex = .ok key) (hlen : key.length = 32) :
    fingerprintForPublicKey P publicKeyHex = .ok (deviceFingerprintV1 P key) := by
  simp only [fingerprintForPublicKey, hkey, hlen, ne_eq, not_true_eq_false, if_false]

theorem rejectPrivate_ok_iff {document : Value} : rejectPrivateAndConfidential P L document = .ok () ↔
    ∀ node, documentTree.Within document node → visitPrivate P L node = .ok () := by
  rw [rejectPrivateAndConfidential, Branching.walk_ok_iff, List.forall_mem_singleton]

theorem rejectDevice_ok_iff {document : Value} : rejectDevicePubFields P L document = .ok () ↔
    ∀ node, documentTree.Within document node → visitDevice P L node = .ok () := by
  rw [rejectDevicePubFields, Branching.walk_ok_iff, List.forall_mem_singleton]

/-- What is found under a key is a member of the document. -/
theorem getD_within {document : Dict} {key : PyStr} (h : document.getD key .none ≠ .none) :
    documentTree.Within (.dict document) (document.getD key .none) := by
  refine .child .root ?_
  unfold Dict.getD at h ⊢
  cases hfind : document.find? fun item => item.1 = key with
  | none => rw [hfind] at h; exact absurd rfl h
  | some item => exact List.mem_map_of_mem (List.mem_of_find?_eq_some hfind)

/-- Where the walks over the document went through, nothing in the pin stops them. -/
theorem pinFingerprint_ok_iff {document : Dict} {address publicKey pinFp : PyStr}
    (hprivate : rejectPrivateAndConfidential P L (.dict document) = .ok ())
    (hdevice : rejectDevicePubFields P L (.dict document) = .ok ()) :
    pinFingerprint P L document address publicKey = .ok pinFp ↔
      PinStates P address publicKey pinFp (document.getD (lit "pin") .none) := by
  unfold pinFingerprint
  cases hpin : document.getD (lit "pin") .none with
  | dict pin =>
    have hwithin : documentTree.Within (.dict document) (.dict pin) := by
      have hpresent : document.getD (lit "pin") .none ≠ .none := by
        rw [hpin]
        exact Value.noConfusion
      rw [← hpin]
      exact getD_within hpresent
    have hwalk : rejectPrivateAndConfidential P L (.dict pin) = .ok () := by
      rw [rejectPrivate_ok_iff] at hprivate ⊢
      exact fun node hnode => hprivate node (hwithin.trans hnode)
    have hkeys : pin.forM (checkDeviceMember P L) = .ok () :=
      rejectDevice_ok_iff.mp hdevice _ hwithin
    have hkind : ∀ kind : PyStr, ((if strip kind ≠ [] then strip kind else ashContactPinKind) ∈
        [ashContactPinKind, lit "rvn1", lit "user-identity"]) ↔
        (strip kind = [] ∨ strip kind ∈ [ashContactPinKind, lit "rvn1", lit "user-identity"]) := by
      intro kind
      by_cases hempty : strip kind = []
      · simp [hempty]
      · simp [hempty]
    simp only [PinStates, bind_ok, passing_ok, bindEnsure_ok, pure_ok, hwalk, hkeys, hkind]
    constructor
    · rintro ⟨_, _, kind, hk, _, hkind, fp, hfp, pub, hpub, addr, haddr, _, hpub', _, haddr', _, _, rfl⟩
      exact ⟨⟨kind, hk, hkind⟩, hfp, ⟨pub, hpub, hpub'⟩, addr, haddr, haddr'⟩
    · rintro ⟨⟨kind, hk, hkind⟩, hfp, ⟨pub, hpub, hpub'⟩, addr, haddr, haddr'⟩
      exact ⟨(), trivial, kind, hk, (), hkind, _, hfp, pub, hpub, addr, haddr, (), hpub', (), haddr', (),
        trivial, rfl⟩
  | str pin => simp [PinStates]
  | _ => simp [PinStates, eq_comm]

/-- The walks apart, the documents that are accepted are the coherent ones. -/
theorem whoamiOf_ok_iff {document : Dict} {w : PublicWhoami}
    (hprivate : rejectPrivateAndConfidential P L (.dict document) = .ok ())
    (hdevice : rejectDevicePubFields P L (.dict document) = .ok ()) :
    whoamiOf P L document = .ok w ↔ ∃ address publicKey key, Coherent P document address publicKey key ∧
      w = ⟨address, P.lower publicKey, deviceFingerprintV1 P key, ashContactPinKind⟩ := by
  simp only [whoamiOf, bind_ok, passing_ok, bindEnsure_ok, pure_ok, mismatchOnValueError_ok,
    validateAddressPublicKey_iff, pinFingerprint_ok_iff hprivate hdevice]
  constructor
  · rintro ⟨schema, hschema, _, hschema', address, haddress, publicKey, hpublic, _, _, _, _, key,
      ⟨hkey, hlen, hderived⟩, fp, hfp, stated, hstated, pinFp, hpin, _, hstated', _, hpin', rfl⟩
    rw [fingerprintForPublicKey_of_hex (fromhex_lower P hkey) hlen] at hfp
    obtain rfl := Except.ok.inj hfp
    exact ⟨address, publicKey, key, ⟨⟨schema, hschema, hschema'⟩, haddress, hpublic, hkey, hlen, hderived,
      ⟨stated, hstated, hstated'⟩, pinFp, hpin, hpin'⟩, rfl⟩
  · rintro ⟨address, publicKey, key, h, rfl⟩
    obtain ⟨schema, hschema, hschema'⟩ := h.schema
    obtain ⟨stated, hstated, hstated'⟩ := h.fingerprint
    obtain ⟨pinFp, hpin, hpin'⟩ := h.pin
    have hpublic : publicKey ≠ [] := by
      rintro rfl
      have hkey := h.publicKey_hex
      obtain rfl : [] = key := Except.ok.inj hkey
      exact absurd h.key_length (by decide)
    have haddress : address ≠ [] := by
      rw [h.address_derived]
      exact Address.encode_ne_nil P key
    exact ⟨schema, hschema, (), hschema', address, h.address_read, publicKey, h.publicKey_read, (), hpublic,
      (), haddress, key, ⟨h.publicKey_hex, h.key_length, h.address_derived⟩, _,
      fingerprintForPublicKey_of_hex (fromhex_lower P h.publicKey_hex) h.key_length, stated, hstated, pinFp,
      hpin, (), hstated', (), hpin', rfl⟩

theorem parsePublicWhoami_ok_iff {document : Value} {w : PublicWhoami} :
    parsePublicWhoami P L document = .ok w ↔
      rejectPrivateAndConfidential P L document = .ok () ∧ rejectDevicePubFields P L document = .ok () ∧
      ∃ items, document = .dict items ∧ ∃ address publicKey key,
        Coherent P items address publicKey key ∧
        w = ⟨address, P.lower publicKey, deviceFingerprintV1 P key, ashContactPinKind⟩ := by
  cases document with
  | dict items =>
    simp only [parsePublicWhoami, bind_ok]
    constructor
    · rintro ⟨_, hprivate, _, hdevice, h⟩
      exact ⟨hprivate, hdevice, items, rfl, (whoamiOf_ok_iff hprivate hdevice).mp h⟩
    · rintro ⟨hprivate, hdevice, _, heq, h⟩
      obtain rfl := Value.dict.inj heq
      exact ⟨(), hprivate, (), hdevice, (whoamiOf_ok_iff hprivate hdevice).mpr h⟩
  | _ => simp [parsePublicWhoami, bindValueError]

/-! ## Fields of one word -/

theorem firstString_word {document : Dict} {name s : PyStr} {names : List PyStr}
    (h : document.getD name .none = .str s) (hstrip : strip s = s) (hne : s ≠ []) :
    firstString P document (name :: names) = .ok s := by
  rw [firstString.eq_def]
  simp only [h, pyStr, passing, bind, Except.bind, hstrip, ne_eq, hne, not_false_eq_true, if_true]
  rfl

/-- Of letters and digits. -/
theorem address_alnum (key : Bytes) : ∀ c ∈ Address.encode P key, isAsciiAlnum c = true := by
  have hcharset : charset.all isAsciiAlnum = true := by decide
  have hrvn : (lit "rvn").all isAsciiAlnum = true := by decide
  obtain ⟨data, hdata, hlt, -⟩ := groups (addressVersion :: keyHash P key)
  intro c hc
  rw [Address.encode, encode_eq hdata] at hc
  rcases List.mem_append.mp hc with hc | hc
  · exact List.all_eq_true.mp hrvn c hc
  · rcases List.mem_cons.mp hc with rfl | hc
    · rfl
    · obtain ⟨d, hd, rfl⟩ := List.mem_map.mp hc
      exact List.all_eq_true.mp hcharset _ (charAt_mem (symbols_lt hlt d hd))

theorem hex_alnum (b : Bytes) : ∀ c ∈ hex b, isAsciiAlnum c = true := by
  have hchar : ∀ d, d < 16 → isAsciiAlnum (hexChar d) = true := by decide
  intro c hc
  obtain ⟨x, _, hx⟩ := List.mem_flatMap.mp hc
  have hlt := x.toNat_lt
  rcases List.mem_pair.mp hx with rfl | rfl
  · exact hchar _ (by omega)
  · exact hchar _ (by omega)

theorem alnum_plain {c : CodePoint} (h : isAsciiAlnum c = true) :
    isAscii c = true ∧ isSpace c = false ∧ c ≠ 58 := by
  simp only [isAsciiAlnum, Bool.or_eq_true, Bool.and_eq_true, decide_eq_true_eq] at h
  refine ⟨decide_eq_true (by omega), visible_not_space (by omega), ?_⟩
  rintro rfl
  exact absurd h (by decide)

end Rdap.Identity
