import Rdap.Identity.WhoamiWalk

/-!
# Invites

A public identity is handed on as a document, as a contact pin or as a line of words. All of
them are read back as the same address and key, if the key was written in one word: blanks
between the digits of a key are read over but kept.
-/

set_option autoImplicit false

namespace Rdap.Identity
open Python Protocol Lib Agent Branching

/-! ## Names of teammates -/

/-- Of a valid name, which is ASCII. -/
def normalizedMateName (name : PyStr) : PyStr :=
  (name.map asciiLower).filter fun c => c ≠ 45 && c ≠ 95 && c ≠ 32

def validateMateName (value : PyStr) : Except PyExc PyStr := do
  let name ← validateNodeName value
  let key := normalizedMateName name
  orRaise (key ≠ [] ∧ key ∉ [lit "all", lit "team", lit "everyone"])
    (lit "name is empty after normalization or is a reserved group mention")
  pure key

/-! ## Reading an invite -/

/-- `sys.exit` with a message, or an exception that nothing catches. -/
inductive TrustStop where
  | exit (message : PyStr)
  | raised (exc : PyExc)
  deriving DecidableEq

structure Invite where
  name : PyStr
  address : PyStr
  publicKey : PyStr
  url : PyStr
  deriving DecidableEq

def exiting {α : Type} (heading : PyStr) : Except PyExc α → Except TrustStop α
  | .ok a => .ok a
  | .error e =>
    if e.kind.isValueError then .error (.exit (heading ++ e.message)) else .error (.raised e)

def inviteLine (name : PyStr) (w : PublicWhoami) : PyStr :=
  lit "RDAP1" ++ 32 :: (name ++ 32 :: (w.address ++ 32 :: w.publicKey))

variable (P : Platform) (L : Letters)

def exitingPin : Except BindExc PublicWhoami → Except TrustStop PublicWhoami
  | .ok w => .ok w
  | .error (.privateKeyMaterial _) =>
    .error (.exit (lit "invite rejected: private key material is present"))
  | .error (.confidentialClaim message) => .error (.exit message)
  | .error (.other e) => exiting (lit "invalid ash contact pin: ") (.error e)

/-- The fields of the line; `name` is that of the command line. -/
def inviteFields (line name : PyStr) : Except TrustStop Invite :=
  let parts := splitWords line
  let first := parts.headD []
  if startsWith first (lit "raven:") then
    if parts.length ∉ [1, 2] then .error (.exit (lit
      "invalid ash contact pin — expected: raven:<rvn1>:<pub_hex> " ++
      lit "[http(s)://host:port] (pin is user-identity RVN1, not device_ed_pub)"))
    else do
      let whoami ← exitingPin (parseAshContactPin P L first)
      if strip name = [] then .error (.exit (lit
        "ash contact pin requires --name <alias>; the pin is the " ++
        lit "user-identity RVN1 (not device_ed_pub)"))
      else pure ⟨strip name, whoami.address, whoami.publicKey, parts.getD 1 []⟩
  else match parts with
    | [_, tname, addr, pub] =>
      if first = lit "RDAP1" then .ok ⟨tname, addr, pub, []⟩ else .error invalidInvite
    | [_, tname, addr, pub, url] =>
      if first = lit "RDAP1" then .ok ⟨tname, addr, pub, url⟩ else .error invalidInvite
    | _ => .error invalidInvite
where
  invalidInvite : TrustStop := .exit (lit
    "invalid invite — expected RDAP1 <name> <rvn1...> <64-hex pubkey> " ++
    lit "[url], or ash-style raven:<rvn1>:<pub_hex> with --name " ++
    lit "(user-identity RVN1 pin; not device_ed_pub)")

/-- `cmd_trust` up to the reading of the state. -/
def readInvite (line name : PyStr) : Except TrustStop Invite := do
  let invite ← inviteFields P L line name
  let _ ← exiting (lit "invalid invite: ") (validateMateName invite.name)
  let _ ← exiting (lit "invalid invite: ") (validateAddressPublicKey P invite.address invite.publicKey)
  pure invite

/-! ## Words -/

theorem splitWords_cons {a rest : PyStr} (h : ∀ c ∈ a, isSpace c = false) (hne : a ≠ []) :
    splitWords (a ++ 32 :: rest) = a :: splitWords rest := by
  unfold splitWords
  rw [List.splitOnP_append_cons_of_forall_mem h 32 (by decide), List.filter_cons_of_pos (by simpa using hne)]

theorem splitWords_word {a : PyStr} (h : ∀ c ∈ a, isSpace c = false) (hne : a ≠ []) :
    splitWords a = [a] := by
  unfold splitWords
  rw [List.splitOnP_eq_singleton h, List.filter_cons_of_pos (by simpa using hne), List.filter_nil]

theorem NodeName.word (name : NodeName) : Word name.val := by
  refine ⟨List.all_eq_true.mpr fun c hc => ?_, fun c hc => ?_⟩
  · have h := name.printable hc
    exact decide_eq_true (by omega)
  · have h := name.printable hc
    exact visible_not_space (by omega)

theorem word_append {s t : PyStr} (hs : Word s) (ht : Word t) : Word (s ++ t) := by
  refine ⟨by rw [List.all_append, hs.1, ht.1]; rfl, fun c hc => ?_⟩
  rcases List.mem_append.mp hc with hc | hc
  · exact hs.2 c hc
  · exact ht.2 c hc

theorem word_of_check {s : PyStr} (h : s.all (fun c => isAscii c && !isSpace c) = true) : Word s := by
  have hall : ∀ c ∈ s, isAscii c = true ∧ isSpace c = false := by
    intro c hc
    have hcheck := List.all_eq_true.mp h c hc
    simpa only [Bool.and_eq_true, Bool.not_eq_true'] using hcheck
  exact ⟨List.all_eq_true.mpr fun c hc => (hall c hc).1, fun c hc => (hall c hc).2⟩

theorem b64encode_forall {p : CodePoint → Prop} (hpad : p b64Pad) (hchar : ∀ v < 64, p (b64Char v))
    (b : Bytes) : ∀ c ∈ b64encode b, p c := by
  induction b using b64encode.induct with
  | case1 => exact List.forall_mem_nil _
  | case2 x =>
    have hx := x.toNat_lt
    simp only [b64encode, List.forall_mem_cons]
    exact ⟨hchar _ (by omega), hchar _ (by omega), hpad, hpad, List.forall_mem_nil _⟩
  | case3 x y =>
    have hx := x.toNat_lt
    have hy := y.toNat_lt
    simp only [b64encode, List.forall_mem_cons]
    exact ⟨hchar _ (by omega), hchar _ (by omega), hchar _ (by omega), hpad, List.forall_mem_nil _⟩
  | case4 x y z rest ih =>
    have hx := x.toNat_lt
    have hy := y.toNat_lt
    have hz := z.toNat_lt
    simp only [b64encode, List.forall_mem_cons]
    exact ⟨hchar _ (by omega), hchar _ (by omega), hchar _ (by omega), hchar _ (by omega), ih⟩

variable {P L}

theorem fingerprint_word (key : Bytes) : Word (deviceFingerprintV1 P key) := by
  have hchar : ∀ c ∈ b64encode ((P.sha256 key).take 9), isAscii c = true ∧ isSpace c = false := by
    apply b64encode_forall
    · decide
    · decide
  have hall : ∀ c ∈ deviceFingerprintV1 P key, isAscii c = true ∧ isSpace c = false := by
    intro c hc
    rcases mem_intercalate hc with rfl | ⟨piece, hpiece, hc⟩
    · decide
    · have hflat : c ∈ (Address.fours _ _).flatten := List.mem_flatten.mpr ⟨piece, hpiece, hc⟩
      rw [Address.fours_flatten (Nat.le_refl _)] at hflat
      exact hchar c (List.mem_of_mem_filter (List.mem_of_mem_take hflat))
  exact ⟨List.all_eq_true.mpr fun c hc => (hall c hc).1, fun c hc => (hall c hc).2⟩

/-! ## The identity of a key -/

variable (P L)

/-- What is public of a key, written in the one way. -/
def whoamiOfKey (key : Bytes) : PublicWhoami :=
  ⟨Address.encode P key, hex key, deviceFingerprintV1 P key, ashContactPinKind⟩

/-- What is handed on is read back, and it is written in the one way. -/
structure ClosedForm (w : PublicWhoami) : Prop where
  canonical : ∃ key : Bytes, key.length = 32 ∧ w.publicKey = hex key ∧ w.address = Address.encode P key
  document : parsePublicWhoami P L (.dict w.asPublicDict) = .ok w
  pin : parseAshContactPin P L w.ashInvite = .ok w
  line : ∀ name key, validateMateName name = .ok key →
    splitWords (inviteLine name w) = [lit "RDAP1", name, w.address, w.publicKey] ∧
      ∀ given, readInvite P L (inviteLine name w) given = .ok ⟨name, w.address, w.publicKey, []⟩

variable {P L}

theorem not_asciiSpace {c : CodePoint} (h : isSpace c = false) : isAsciiSpace c = false := by
  apply Bool.eq_false_iff.mpr
  intro hspace
  simp [isSpace, hspace] at h

theorem hex_lower (b : Bytes) : P.lower (hex b) = hex b := by
  rw [P.lower_ascii (hex_ascii b)]
  exact fromhex_spaceless (fromhex_hex b) fun c hc => not_asciiSpace (alnum_plain (hex_alnum b c hc)).2.1

theorem hex_ne_nil {b : Bytes} (h : b.length = 32) : hex b ≠ [] := by
  intro hnil
  have hlen := hex_length b
  rw [hnil, h] at hlen
  cases hlen

theorem address_word (key : Bytes) : Word (Address.encode P key) := word_of_alnum (address_alnum key)

theorem hex_word (b : Bytes) : Word (hex b) := word_of_alnum (hex_alnum b)

theorem word_strip {s : PyStr} (h : Word s) : strip s = s := strip_of_spaceless h.2

/-- A field of one word that may be empty, if no other field stands in for it. -/
theorem firstString_only {document : Dict} {name s : PyStr} {names : List PyStr}
    (h : document.getD name .none = .str s) (hword : Word s) (hrest : firstString P document names = .ok []) :
    firstString P document (name :: names) = .ok s := by
  by_cases hempty : s = []
  · subst hempty
    rw [firstString.eq_def]
    simp only [h]
    exact hrest
  · exact firstString_word h (word_strip hword) hempty

theorem publicDict_coherent {key : Bytes} (hlen : key.length = 32) :
    Coherent P (whoamiOfKey P key).asPublicDict (Address.encode P key) (hex key) key where
  schema := ⟨whoamiSchema, rfl, Or.inr List.mem_cons_self⟩
  address_read := firstString_word rfl (word_strip (address_word key)) (Address.encode_ne_nil P key)
  publicKey_read := firstString_word rfl (word_strip (hex_word key)) (hex_ne_nil hlen)
  publicKey_hex := fromhex_hex key
  key_length := hlen
  address_derived := rfl
  fingerprint := ⟨_, firstString_only rfl (fingerprint_word key) rfl, Or.inr rfl⟩
  pin := ⟨_, ⟨⟨ashContactPinKind, rfl, Or.inr (by decide)⟩,
    firstString_only rfl (fingerprint_word key) rfl,
    ⟨_, firstString_word rfl (word_strip (hex_word key)) (hex_ne_nil hlen), Or.inr rfl⟩,
    _, firstString_word rfl (word_strip (address_word key)) (Address.encode_ne_nil P key), Or.inr rfl⟩, Or.inr rfl⟩

def pinFields (address publicKey : PyStr) : Dict := [
  (lit "schema", .str whoamiSchema), (lit "address", .str address), (lit "public_key", .str publicKey)]

theorem pinFields_coherent {key : Bytes} (hlen : key.length = 32) :
    Coherent P (pinFields (Address.encode P key) (hex key)) (Address.encode P key) (hex key) key where
  schema := ⟨whoamiSchema, rfl, Or.inr List.mem_cons_self⟩
  address_read := firstString_word rfl (word_strip (address_word key)) (Address.encode_ne_nil P key)
  publicKey_read := firstString_word rfl (word_strip (hex_word key)) (hex_ne_nil hlen)
  publicKey_hex := fromhex_hex key
  key_length := hlen
  address_derived := rfl
  fingerprint := ⟨[], rfl, Or.inl rfl⟩
  pin := ⟨[], rfl, Or.inl rfl⟩

/-- The names in what is handed on mean nothing to the walks. -/
theorem plain_names : ∀ name ∈ [lit "schema", lit "address", lit "public_key", lit "fingerprint", lit "pin",
      lit "kind", lit "invite"], normKey P L name ∉
    privateKeyNames ++ deviceKeyFields ++ confidentialTrueKeys ++ carrierKeys := by
  simp only [List.forall_mem_cons]
  refine ⟨?_, ?_, ?_, ?_, ?_, ?_, ?_, List.forall_mem_nil _⟩
  all_goals
    rw [normKey_ascii (by decide)]
    decide

theorem parse_of_coherent {items : Dict} {key : Bytes} (hclean : Clean P L (.dict items))
    (hprintable : Json.Printable (.dict items))
    (h : Coherent P items (Address.encode P key) (hex key) key) :
    parsePublicWhoami P L (.dict items) = .ok (whoamiOfKey P key) := by
  obtain ⟨hprivate, hdevice⟩ := (walks_ok_iff hprintable).mpr hclean
  apply parsePublicWhoami_ok_iff.mpr
  exact ⟨hprivate, hdevice, items, rfl, _, _, _, h, by rw [hex_lower, whoamiOfKey]⟩

theorem invite_word (key : Bytes) : Word (whoamiOfKey P key).ashInvite :=
  word_append (word_append (word_append (word_of_check (by decide)) (address_word key))
    (word_of_check (by decide))) (hex_word key)

theorem schema_word : Word whoamiSchema := word_of_check (by decide)

theorem pinKind_word : Word ashContactPinKind := word_of_check (by decide)

theorem publicDict_clean (key : Bytes) : Clean P L (.dict (whoamiOfKey P key).asPublicDict) := by
  have hpin : Clean P L (.dict (whoamiOfKey P key).pinDict) := by
    apply clean_dict
    · simp only [PublicWhoami.pinDict, List.forall_mem_cons]
      exact ⟨plain_names _ (by decide), plain_names _ (by decide), plain_names _ (by decide),
        plain_names _ (by decide), plain_names _ (by decide), List.forall_mem_nil _⟩
    · simp only [PublicWhoami.pinDict, List.forall_mem_cons]
      exact ⟨clean_word pinKind_word, clean_word (address_word key), clean_word (hex_word key),
        clean_word (fingerprint_word key), clean_word (invite_word key), List.forall_mem_nil _⟩
  apply clean_dict
  · simp only [PublicWhoami.asPublicDict, List.forall_mem_cons]
    exact ⟨plain_names _ (by decide), plain_names _ (by decide), plain_names _ (by decide),
      plain_names _ (by decide), plain_names _ (by decide), List.forall_mem_nil _⟩
  · simp only [PublicWhoami.asPublicDict, List.forall_mem_cons]
    exact ⟨clean_word schema_word, clean_word (address_word key), clean_word (hex_word key),
      clean_word (fingerprint_word key), hpin, List.forall_mem_nil _⟩

theorem pinFields_clean (key : Bytes) : Clean P L (.dict (pinFields (Address.encode P key) (hex key))) := by
  apply clean_dict
  · simp only [pinFields, List.forall_mem_cons]
    exact ⟨plain_names _ (by decide), plain_names _ (by decide), plain_names _ (by decide), List.forall_mem_nil _⟩
  · simp only [pinFields, List.forall_mem_cons]
    exact ⟨clean_word schema_word, clean_word (address_word key), clean_word (hex_word key),
      List.forall_mem_nil _⟩

/-- The contact pin has a colon before the address and one before the key, and no other. -/
theorem parseAshContactPin_invite {key : Bytes} (hlen : key.length = 32) :
    parseAshContactPin P L (whoamiOfKey P key).ashInvite = .ok (whoamiOfKey P key) := by
  have haddress : ∀ c ∈ Address.encode P key, c ≠ 58 := fun c hc => (alnum_plain (address_alnum key c hc)).2.2
  have hhex : ∀ c ∈ hex key, c ≠ 58 := fun c hc => (alnum_plain (hex_alnum key c hc)).2.2
  have hform : (whoamiOfKey P key).ashInvite =
      lit "raven" ++ 58 :: (Address.encode P key ++ 58 :: hex key) := by
    have hhead : lit "raven:" = lit "raven" ++ [58] := by decide
    have hcolon : lit ":" = [58] := by decide
    simp only [PublicWhoami.ashInvite, ashContactInvite, whoamiOfKey, hhead, hcolon, List.append_assoc,
      List.cons_append, List.nil_append]
  have hcount : (whoamiOfKey P key).ashInvite.count 58 = 2 := by
    have hraven : (lit "raven").count 58 = 0 := by decide
    have h₁ : (Address.encode P key).count 58 = 0 := List.count_eq_zero.mpr fun hc => haddress _ hc rfl
    have h₂ : (hex key).count 58 = 0 := List.count_eq_zero.mpr fun hc => hhex _ hc rfl
    rw [hform]
    simp [hraven, h₁, h₂]
  have hsplit : (whoamiOfKey P key).ashInvite.splitOn 58 =
      [lit "raven", Address.encode P key, hex key] := by
    have hraven : ∀ c ∈ lit "raven", (c == (58 : CodePoint)) = false := by
      intro c hc
      exact beq_eq_false_iff_ne.mpr fun heq => absurd (heq ▸ hc) (by decide)
    rw [hform, List.splitOn, List.splitOnP_append_cons_of_forall_mem hraven 58 (by decide),
      List.splitOnP_append_cons_of_forall_mem (fun c hc => beq_eq_false_iff_ne.mpr (haddress c hc)) 58 (by decide),
      List.splitOnP_eq_singleton fun c hc => beq_eq_false_iff_ne.mpr (hhex c hc)]
  have hstarts : startsWith (whoamiOfKey P key).ashInvite (lit "raven:") = true := by
    simp only [startsWith, PublicWhoami.ashInvite, ashContactInvite, List.append_assoc]
    exact List.isPrefixOf_iff_prefix.mpr (List.prefix_append _ _)
  unfold parseAshContactPin
  simp only [word_strip (invite_word key), hstarts, hcount, and_self, if_true, hsplit]
  exact parse_of_coherent (pinFields_clean key) ⟨trivial, trivial, trivial, trivial⟩ (pinFields_coherent hlen)

theorem readInvite_line {name mate : PyStr} (hname : validateMateName name = .ok mate) {key : Bytes}
    (hlen : key.length = 32) :
    splitWords (inviteLine name (whoamiOfKey P key)) =
        [lit "RDAP1", name, Address.encode P key, hex key] ∧
      ∀ given, readInvite P L (inviteLine name (whoamiOfKey P key)) given =
        .ok ⟨name, Address.encode P key, hex key, []⟩ := by
  have hvalid : validateNodeName name = .ok name := by
    simp only [validateMateName, bind_ok] at hname
    obtain ⟨out, hout, _⟩ := hname
    rwa [(validateNodeName_ok hout).1] at hout
  have hword := NodeName.word ⟨name, hvalid⟩
  have hsplit : splitWords (inviteLine name (whoamiOfKey P key)) =
      [lit "RDAP1", name, Address.encode P key, hex key] := by
    have hline : inviteLine name (whoamiOfKey P key) =
        lit "RDAP1" ++ 32 :: (name ++ 32 :: (Address.encode P key ++ 32 :: hex key)) := rfl
    rw [hline, splitWords_cons (word_of_check (by decide)).2 (by decide),
      splitWords_cons hword.2 (NodeName.ne_nil ⟨name, hvalid⟩),
      splitWords_cons (address_word key).2 (Address.encode_ne_nil P key),
      splitWords_word (hex_word key).2 (hex_ne_nil hlen)]
  refine ⟨hsplit, fun given => ?_⟩
  have hfields : inviteFields P L (inviteLine name (whoamiOfKey P key)) given =
      .ok ⟨name, Address.encode P key, hex key, []⟩ := by
    unfold inviteFields
    rw [hsplit]
    rfl
  have hkey := validateAddressPublicKey_of_hex P (fromhex_hex key) hlen
  simp only [readInvite, hfields, hname, hkey, exiting, bind, Except.bind]
  rfl

/-- What is read of a key written in the one way is of that form. -/
theorem closedForm_of_key {key : Bytes} (hlen : key.length = 32) : ClosedForm P L (whoamiOfKey P key) where
  canonical := ⟨key, hlen, rfl, rfl⟩
  document := by
    apply parse_of_coherent (publicDict_clean key) _ (publicDict_coherent hlen)
    simp [Json.Printable, Json.PrintableMembers, PublicWhoami.asPublicDict, PublicWhoami.pinDict]
  pin := parseAshContactPin_invite hlen
  line := fun _ _ hname => readInvite_line hname hlen

/-- What is read from a document can be handed on and read back, and is written in the one way,
if the key in the document has no blanks between its digits. -/
theorem whoami_closedForm_iff {items : Dict} {w : PublicWhoami}
    (h : parsePublicWhoami P L (.dict items) = .ok w) : ClosedForm P L w ↔
      ∃ text, firstString P items publicKeyFields = .ok text ∧ ∀ c ∈ text, isAsciiSpace c = false := by
  obtain ⟨_, _, items', hitems, address, text, key, hcoherent, rfl⟩ := parsePublicWhoami_ok_iff.mp h
  obtain rfl := Value.dict.inj hitems
  constructor
  · intro hclosed
    obtain ⟨key', _, hhex, _⟩ := hclosed.canonical
    refine ⟨text, hcoherent.publicKey_read, fun c hc => ?_⟩
    have hlower : P.lower text = hex key' := hhex
    rw [P.lower_ascii (fromhex_ascii hcoherent.publicKey_hex)] at hlower
    have hmem : asciiLower c ∈ hex key' := hlower ▸ List.mem_map_of_mem hc
    rw [← asciiLower_space]
    exact not_asciiSpace (alnum_plain (hex_alnum key' _ hmem)).2.1
  · rintro ⟨text', htext', hspaceless⟩
    obtain rfl := Except.ok.inj (hcoherent.publicKey_read.symm.trans htext')
    have hlower : P.lower text = hex key := by
      rw [P.lower_ascii (fromhex_ascii hcoherent.publicKey_hex)]
      exact fromhex_spaceless hcoherent.publicKey_hex hspaceless
    rw [hlower, hcoherent.address_derived]
    exact closedForm_of_key hcoherent.key_length

theorem closedForm_sample : ClosedForm whoamiPlatform asciiLetters (whoamiOfKey whoamiPlatform whoamiKey) := by
  have hparse : parsePublicWhoami whoamiPlatform asciiLetters
      (.dict (pinFields (Address.encode whoamiPlatform whoamiKey) (hex whoamiKey))) =
        .ok (whoamiOfKey whoamiPlatform whoamiKey) :=
    parse_of_coherent (pinFields_clean whoamiKey) ⟨trivial, trivial, trivial, trivial⟩ (pinFields_coherent rfl)
  exact (whoami_closedForm_iff hparse).mpr ⟨hex whoamiKey, (pinFields_coherent rfl).publicKey_read,
    fun c hc => not_asciiSpace ((hex_word whoamiKey).2 c hc)⟩

/-- The key with a blank after its first byte. -/
def spacedHex : PyStr := lit "07 " ++ hex (List.replicate 31 7)

def spacedKey : Dict := [
  (lit "address", .str (Address.encode whoamiPlatform whoamiKey)), (lit "public_key", .str spacedHex)]

theorem spacedKey_coherent :
    Coherent whoamiPlatform spacedKey (Address.encode whoamiPlatform whoamiKey) spacedHex whoamiKey where
  schema := ⟨[], rfl, Or.inl rfl⟩
  address_read := firstString_word rfl (word_strip (address_word whoamiKey)) (Address.encode_ne_nil _ _)
  publicKey_read := firstString_word rfl (by decide) (by decide)
  publicKey_hex := rfl
  key_length := rfl
  address_derived := rfl
  fingerprint := ⟨[], rfl, Or.inl rfl⟩
  pin := ⟨[], rfl, Or.inl rfl⟩

/-- The blank stays in the key, and the invite falls into one word more. -/
theorem spaced_key_kept : ∃ w, parsePublicWhoami whoamiPlatform asciiLetters (.dict spacedKey) = .ok w ∧
    w.publicKey.length = 65 ∧ (splitWords (inviteLine (lit "bob") w)).length = 5 ∧
    ¬ClosedForm whoamiPlatform asciiLetters w := by
  have hclean : Clean whoamiPlatform asciiLetters (.dict spacedKey) := by
    apply clean_dict
    · simp only [spacedKey, List.forall_mem_cons]
      exact ⟨plain_names _ (by decide), plain_names _ (by decide), List.forall_mem_nil _⟩
    · simp only [spacedKey, List.forall_mem_cons]
      have hspaced : looksLikePemPrivate whoamiPlatform (.str spacedHex) = false := by decide
      exact ⟨clean_word (address_word whoamiKey), clean_leaf rfl (Bool.eq_false_iff.mp hspaced),
        List.forall_mem_nil _⟩
  have hprintable : Json.Printable (.dict spacedKey) := ⟨trivial, trivial, trivial⟩
  obtain ⟨hprivate, hdevice⟩ := (walks_ok_iff hprintable).mpr hclean
  refine ⟨_, parsePublicWhoami_ok_iff.mpr ⟨hprivate, hdevice, _, rfl, _, _, _, spacedKey_coherent, rfl⟩,
    by decide, ?_, ?_⟩
  · unfold inviteLine
    rw [splitWords_cons (word_of_check (by decide)).2 (by decide),
      splitWords_cons (word_of_check (by decide)).2 (by decide),
      splitWords_cons (address_word whoamiKey).2 (Address.encode_ne_nil _ _)]
    decide
  · intro hclosed
    obtain ⟨key, hlen, hhex, _⟩ := hclosed.canonical
    have hlength := congrArg List.length hhex
    rw [hex_length, hlen] at hlength
    exact absurd hlength (by decide)

end Rdap.Identity
