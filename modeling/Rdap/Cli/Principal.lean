import Rdap.Cli.StateCommands
import Rdap.Identity.Invite

/-!
# A bound principal is found again

What `cmd_raven_bind` writes of an identity is read back by `bound_principal` as the same identity, also where the
document had blanks within the key.
-/

set_option autoImplicit false

namespace Rdap.Cli
open Python Json Lib Identity Protocol

variable {P : Platform} {L : Letters}

/-! ## Keys with blanks in them -/

theorem fromhex_chars {s : PyStr} {b : Bytes} (h : fromhex s = .ok b) :
    ∀ c ∈ s, (∃ d, hexDigit c = some d) ∨ isAsciiSpace c = true := by
  refine fromhex_induction (M := fun s _ => ∀ c ∈ s, (∃ d, hexDigit c = some d) ∨ isAsciiSpace c = true) ?_ ?_ ?_ h
  · exact List.forall_mem_nil _
  · intro c rest b hspace ih
    exact List.forall_mem_cons.mpr ⟨Or.inr hspace, ih⟩
  · intro c d rest b hi lo hhi hlo ih
    exact List.forall_mem_cons.mpr ⟨Or.inl ⟨hi, hhi⟩, List.forall_mem_cons.mpr ⟨Or.inl ⟨lo, hlo⟩, ih⟩⟩

theorem asciiUpper_ne {c : CodePoint} (h : (∃ d, hexDigit c = some d) ∨ isAsciiSpace c = true) :
    asciiUpper c ≠ 80 := by
  intro hupper
  have hval : (asciiUpper c).val = 80 := congrArg Fin.val hupper
  unfold asciiUpper at hval
  have hchar : c.val = 80 ∨ c.val = 112 := by
    split at hval
    · simp only at hval
      omega
    · exact Or.inl hval
  rcases h with ⟨d, hd⟩ | hspace
  · unfold hexDigit at hd
    split_ifs at hd <;> omega
  · simp only [isAsciiSpace, Bool.or_eq_true, Bool.and_eq_true, decide_eq_true_eq, beq_iff_eq] at hspace
    omega

/-- There is no P in a key. -/
theorem clean_key {s : PyStr} {b : Bytes} (h : fromhex s = .ok b) : Clean P L (.str s) := by
  apply clean_leaf rfl
  intro hpem
  have hoccurs : occursIn (lit "PRIVATE KEY") (P.upper s) = true := (Bool.and_eq_true_iff.mp hpem).2
  have hletter : (80 : CodePoint) ∈ P.upper s := mem_of_occursIn hoccurs (by decide)
  rw [P.upper_ascii (fromhex_ascii h)] at hletter
  obtain ⟨c, hc, hupper⟩ := List.mem_map.mp hletter
  exact asciiUpper_ne (fromhex_chars h c hc) hupper

theorem isSpace_lower {c : CodePoint} (h : (∃ d, hexDigit c = some d) ∨ isAsciiSpace c = true) :
    isSpace (asciiLower c) = isSpace c := by
  rcases h with ⟨d, hd⟩ | hspace
  · have hdigit : hexDigit (asciiLower c) = some d := (asciiLower_hexDigit c).trans hd
    have hplain : ∀ {c : CodePoint}, hexDigit c = some d → isSpace c = false := by
      intro c hd
      apply visible_not_space
      unfold hexDigit at hd
      split_ifs at hd <;> omega
    rw [hplain hdigit, hplain hd]
  · have hlower := (asciiLower_space c).trans hspace
    simp [isSpace, hlower, hspace]

theorem strip_lower {s : PyStr} {b : Bytes} (h : fromhex s = .ok b) (hstrip : strip s = s) :
    strip (P.lower s) = P.lower s := by
  have hspace : ∀ c ∈ s, isSpace c = false → isSpace (asciiLower c) = false := fun c hc hplain =>
    (isSpace_lower (fromhex_chars h c hc)).trans hplain
  rw [P.lower_ascii (fromhex_ascii h)]
  apply strip_of_ends
  · intro c hc
    rw [List.head?_map, Option.mem_map] at hc
    obtain ⟨a, ha, rfl⟩ := hc
    exact hspace a (List.mem_of_mem_head? ha) (strip_head s a (hstrip.symm ▸ ha))
  · intro c hc
    rw [List.getLast?_map, Option.mem_map] at hc
    obtain ⟨a, ha, rfl⟩ := hc
    exact hspace a (List.mem_of_mem_getLast? ha) (strip_last s a (hstrip.symm ▸ ha))

/-! ## Identities that were parsed -/

theorem firstString_strip {document : Dict} {names : List PyStr} {s : PyStr}
    (h : firstString P document names = .ok s) : strip s = s := by
  induction names with
  | nil =>
    obtain rfl := Except.ok.inj h
    rfl
  | cons name names ih =>
    rw [firstString.eq_def] at h
    dsimp only at h
    split at h
    · exact ih h
    · simp only [bind_ok] at h
      obtain ⟨text, _, h⟩ := h
      split at h
      · obtain rfl := pure_ok.mp h
        exact strip_strip text
      · exact ih h

/-- What the parser makes of a document. -/
structure Genuine (P : Platform) (who : PublicWhoami) (key : Bytes) : Prop where
  key_length : key.length = 32
  publicKey_hex : fromhex who.publicKey = .ok key
  lowered : P.lower who.publicKey = who.publicKey
  stripped : strip who.publicKey = who.publicKey
  address : who.address = Address.encode P key
  fingerprint : who.fingerprint = deviceFingerprintV1 P key

theorem genuine_of_parse {document : Value} {who : PublicWhoami} (h : parsePublicWhoami P L document = .ok who) :
    ∃ key, Genuine P who key := by
  obtain ⟨_, _, items, _, address, publicKey, key, hcoherent, rfl⟩ := parsePublicWhoami_ok_iff.mp h
  exact ⟨key, hcoherent.key_length, fromhex_lower P hcoherent.publicKey_hex,
    lower_lower (fromhex_ascii hcoherent.publicKey_hex),
    strip_lower hcoherent.publicKey_hex (firstString_strip hcoherent.publicKey_read), hcoherent.address_derived, rfl⟩

theorem Genuine.publicKey_ne_nil {who : PublicWhoami} {key : Bytes} (h : Genuine P who key) :
    who.publicKey ≠ [] := by
  intro hnil
  have hkey := h.publicKey_hex
  rw [hnil] at hkey
  obtain rfl : [] = key := Except.ok.inj hkey
  exact absurd h.key_length (by decide)

theorem Genuine.address_ne_nil {who : PublicWhoami} {key : Bytes} (h : Genuine P who key) : who.address ≠ [] := by
  rw [h.address]
  exact Address.encode_ne_nil P key

theorem Genuine.address_word {who : PublicWhoami} {key : Bytes} (h : Genuine P who key) : Word who.address := by
  rw [h.address]
  exact Identity.address_word key

theorem Genuine.fingerprint_word {who : PublicWhoami} {key : Bytes} (h : Genuine P who key) :
    Word who.fingerprint := by
  rw [h.fingerprint]
  exact Identity.fingerprint_word key

section
variable {st : Dict} {who : PublicWhoami} {key : Bytes} (h : Genuine P who key)
  (hfingerprint : st.getD (lit "fingerprint") (.str []) = .str who.fingerprint)
include h hfingerprint

theorem boundDocument_clean : Clean P L (.dict (boundDocument st who.address who.publicKey)) := by
  apply clean_dict
  · simp only [boundDocument, List.forall_mem_cons]
    exact ⟨plain_names _ (by decide), plain_names _ (by decide), plain_names _ (by decide),
      plain_names _ (by decide), List.forall_mem_nil _⟩
  · simp only [boundDocument, List.forall_mem_cons, hfingerprint]
    exact ⟨clean_word schema_word, clean_word h.address_word, clean_key h.publicKey_hex,
      clean_word h.fingerprint_word, List.forall_mem_nil _⟩

theorem boundDocument_coherent :
    Coherent P (boundDocument st who.address who.publicKey) who.address who.publicKey key where
  schema := ⟨whoamiSchema, rfl, Or.inr List.mem_cons_self⟩
  address_read := firstString_word rfl (word_strip h.address_word) h.address_ne_nil
  publicKey_read := firstString_word rfl h.stripped h.publicKey_ne_nil
  publicKey_hex := h.publicKey_hex
  key_length := h.key_length
  address_derived := h.address
  fingerprint := ⟨_, firstString_only hfingerprint h.fingerprint_word rfl, Or.inr h.fingerprint⟩
  pin := ⟨[], rfl, Or.inl rfl⟩

theorem parse_boundDocument : ∃ found, parsePublicWhoami P L (.dict (boundDocument st who.address who.publicKey)) =
    .ok found ∧ found.address = who.address ∧ found.publicKey = who.publicKey := by
  have hprintable : Json.Printable (.dict (boundDocument st who.address who.publicKey)) := by
    simp only [boundDocument, hfingerprint]
    exact ⟨trivial, trivial, trivial, trivial, trivial⟩
  obtain ⟨hprivate, hdevice⟩ := (walks_ok_iff hprintable).mpr (boundDocument_clean h hfingerprint)
  exact ⟨_, parsePublicWhoami_ok_iff.mpr ⟨hprivate, hdevice, _, rfl, _, _, _,
    boundDocument_coherent h hfingerprint, rfl⟩, rfl, h.lowered⟩

end

/-! ## The bound state -/

/-- The state names the principal. -/
structure BoundTo (st : Object) (who : PublicWhoami) : Prop where
  address : st.get? (lit "address") = some (.str who.address)
  publicKey : st.get? (lit "public_key") = some (.str who.publicKey)
  fingerprint : st.get? (lit "fingerprint") = some (.str who.fingerprint)
  entry : ∃ items, st.get? (lit "raven_bind") = some (.dict items)


theorem pyOr_str {s : PyStr} (h : s ≠ []) (other : Value) : pyOr (.str s) other = .str s := by
  have htruthy : truthy (.str s) = true := by simpa [truthy] using h
  rw [pyOr, if_pos htruthy]

/-- `cmd_init` writes the principal that is there. -/
theorem initPrincipal_bound {st : Object} {who : PublicWhoami} {key : Bytes} (h : Genuine P who key)
    (hbound : BoundTo st who) (setup : Setup) :
    initPrincipal P L st.rows setup = .ok (who.address, who.publicKey) := by
  obtain ⟨items, hentry⟩ := hbound.entry
  have hfingerprint : Dict.getD st.rows (lit "fingerprint") (.str []) = .str who.fingerprint := by
    rw [getD_rows, hbound.fingerprint]
    rfl
  obtain ⟨found, hparse, haddress, hpublicKey⟩ := @parse_boundDocument P L st.rows who key h hfingerprint
  have hfound : boundPrincipal P L st.rows = .ok (some found) := by
    simp only [boundPrincipal, getD_rows, hentry, hbound.address, hbound.publicKey, Option.getD_some,
      pyOr_str h.address_ne_nil, pyOr_str h.publicKey_ne_nil, pyStr, bind, Except.bind, word_strip h.address_word,
      h.stripped, h.address_ne_nil, h.publicKey_ne_nil, or_self, if_false, hparse]
    rfl
  rw [initPrincipal, hfound]
  simp only [bind, Except.bind, haddress, hpublicKey]
  rfl

end Rdap.Cli
