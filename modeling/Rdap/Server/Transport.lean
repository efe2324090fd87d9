import Rdap.Agent.Execute
import Rdap.Agent.Rejection
import Rdap.Identity.Completeness
import Rdap.Server.Ingress

/-!
# Signed blocks on their way

A delegation travels as `raven.*` strings in the metadata of a message, a request signature as
`Raven-Request-*` headers. Both writings turn the block into texts under renamed keys, and both
readings undo the renaming, so the verifier sees the fields that were signed.
-/

set_option autoImplicit false

namespace Rdap.Server
open Python Protocol Lib Identity Agent

variable {P : Platform}

/-! ## Blocks of texts -/

/-- `str` on every value. -/
def textBlock (P : Platform) (block : Dict) : Except PyExc Dict :=
  block.mapM fun (key, value) => do
    let text ← pyStr P value
    return (key, .str text)

def ofTexts (texts : List (PyStr × PyStr)) : Dict := texts.map fun (key, text) => (key, .str text)

/-- The texts of a delegation block. -/
def delegationTexts (f : DelegationFields) (issuedAt expiresAt sig : PyStr) :
    List (PyStr × PyStr) := [
  (lit "sender", f.sender), (lit "recipient", f.recipient), (lit "task_id", f.taskId),
  (lit "kind", f.kind), (lit "issued_at", issuedAt), (lit "expires_at", expiresAt),
  (lit "nonce", f.nonce), (lit "algorithm", lit "ed25519"), (lit "context", signingContext),
  (lit "signature", sig)]

/-- The texts of a request block. -/
def httpTexts (f : HttpRequestFields) (issuedAt expiresAt sig : PyStr) : List (PyStr × PyStr) := [
  (lit "address", f.sender), (lit "recipient", f.recipient), (lit "issued_at", issuedAt),
  (lit "expires_at", expiresAt), (lit "nonce", f.nonce), (lit "algorithm", lit "ed25519"),
  (lit "context", httpSigningContext), (lit "signature", sig)]

theorem getStr_str {d : Dict} {key : String} {text : PyStr}
    (h : d.getD (lit key) (.str []) = .str text) : getStr P d key = .ok text := by
  simp [getStr, h, pyStr]

/-- `int` reads back what `str` wrote. -/
theorem getInt_str {d : Dict} {key : String} {n : Int} {text : PyStr}
    (h : d.getD (lit key) (.int 0) = .str text) (htext : strInt n = .ok text) :
    getInt P d key = .ok n := by
  simp [getInt, h, pyInt, intOfStr_strInt htext]

section
variable {issuedAt expiresAt sig : PyStr}

theorem textBlock_delegation {f : DelegationFields} (hissued : strInt f.issuedAt = .ok issuedAt)
    (hexpires : strInt f.expiresAt = .ok expiresAt) :
    textBlock P (delegationMetadata f sig) =
      .ok (ofTexts (delegationTexts f issuedAt expiresAt sig)) := by
  simp [textBlock, delegationMetadata, delegationTexts, ofTexts, pyStr, hissued, hexpires, bind,
    Except.bind, pure, Except.pure]

theorem delegationTexts_presents {f : DelegationFields} (hissued : strInt f.issuedAt = .ok issuedAt)
    (hexpires : strInt f.expiresAt = .ok expiresAt) :
    PresentsDelegation P (ofTexts (delegationTexts f issuedAt expiresAt sig)) f sig where
  sender := getStr_str rfl
  recipient := getStr_str rfl
  taskId := getStr_str rfl
  kind := getStr_str rfl
  issuedAt := getInt_str rfl hissued
  expiresAt := getInt_str rfl hexpires
  nonce := getStr_str rfl
  context := getStr_str rfl
  signature := getStr_str rfl

theorem httpTexts_presents {f : HttpRequestFields} (hissued : strInt f.issuedAt = .ok issuedAt)
    (hexpires : strInt f.expiresAt = .ok expiresAt) :
    PresentsRequest P (ofTexts (httpTexts f issuedAt expiresAt sig)) f sig where
  sender := getStr_str rfl
  recipient := getStr_str rfl
  issuedAt := getInt_str rfl hissued
  expiresAt := getInt_str rfl hexpires
  nonce := getStr_str rfl
  algorithm := getStr_str rfl
  context := getStr_str rfl
  signature := getStr_str rfl

end

/-! ## The metadata of a message -/

theorem shortKey_raven (key : PyStr) : shortKey (lit "raven." ++ key) = some key := by
  have hlit : lit "raven." = [114, 97, 118, 101, 110, 46] := by decide
  simp [shortKey, startsWith, hlit]

theorem ravenStrings_eq (block : Dict) : ravenStrings P block =
    (textBlock P block).map (List.map fun (key, value) => (lit "raven." ++ key, value)) := by
  unfold ravenStrings textBlock
  rw [← mapM_map]
  congr 1
  funext ⟨key, value⟩
  cases h : pyStr P value <;> simp [h, bind, Except.bind, pure, Except.pure, Except.map]

theorem extractRavenMeta_raven {ctx : RequestContext} {block : Dict}
    (hkeys : ∀ item ∈ block, item.1 ∈ ravenMetaKeys)
    (h : ctx.metadata = block.map fun (key, value) => (lit "raven." ++ key, value)) :
    extractRavenMeta ctx = block := by
  unfold extractRavenMeta
  rw [h]
  clear h
  induction block with
  | nil => rfl
  | cons item rest ih =>
    obtain ⟨key, value⟩ := item
    have hkey : key ∈ ravenMetaKeys := hkeys _ List.mem_cons_self
    have hrest := ih fun item hmem => hkeys item (List.mem_cons_of_mem _ hmem)
    simp only [List.map_cons, List.filterMap_cons, shortKey_raven, hkey, if_true, hrest]

/-! ## The headers of a request -/

/-- `str.title` of an ASCII text; `inWord` says that a letter came before. -/
def asciiTitle (inWord : Bool) : PyStr → PyStr
  | [] => []
  | c :: rest =>
    let isLetter := (65 ≤ c.val && c.val ≤ 90) || (97 ≤ c.val && c.val ≤ 122)
    (if inWord then asciiLower c else asciiUpper c) :: asciiTitle isLetter rest

/-- `key.replace('_', '-')` -/
def dashed (key : PyStr) : PyStr := key.map fun c => if c = 95 then 45 else c

/-- `RAVEN_HTTP_HEADER_PREFIX + key.replace('_', '-').title()` -/
def headerTitle (key : PyStr) : PyStr := lit "Raven-Request-" ++ asciiTitle false (dashed key)

structure RavenHttpAuth where
  identity : RavenIdentity
  recipient : PyStr

variable (P) in
/-- `auth_flow`: the headers it sets, in order. -/
def RavenHttpAuth.authFlow (auth : RavenHttpAuth) (method : PyStr) (rawPath content : Bytes)
    (now : Int) (nonceRaw : Bytes) : Except PyExc (List (PyStr × PyStr)) := do
  let target ← decodeAscii rawPath
  let block ← signHttpRequest P auth.identity auth.recipient method target content {} now nonceRaw
  block.mapM fun (key, value) => do
    let text ← pyStr P value
    return (headerTitle key, text)

def writeHeaders (texts : List (PyStr × PyStr)) : List (PyStr × PyStr) :=
  texts.map fun (key, text) => (headerTitle key, text)

/-- A header as the middleware reads it. -/
def readHeader (header : Bytes × Bytes) : PyStr × PyStr :=
  (headerName header.1, decodeLatin1 header.2)

/-- What the transport does with headers: a request shows the written ones, each once and in
order, under names in any case, among others that are not raven headers. -/
def Delivered (written : List (PyStr × PyStr)) (headers : List (Bytes × Bytes)) : Prop :=
  (headers.map readHeader).filter (fun h => isRavenHeader h.1) =
    written.map fun h => (latin1Lower h.1, h.2)

instance (written : List (PyStr × PyStr)) (headers : List (Bytes × Bytes)) :
    Decidable (Delivered written headers) := inferInstanceAs (Decidable (_ = _))

/-- The keys of a request block. -/
def httpKeys : List PyStr :=
  [lit "address", lit "recipient", lit "issued_at", lit "expires_at", lit "nonce",
    lit "algorithm", lit "context", lit "signature"]

theorem httpKeys_nodup : httpKeys.Nodup := by decide

theorem fields_eq : RavenRequestAuthenticator.fields = httpKeys.map dashed := by decide

/-- The reader undoes what the writer does to a key. -/
theorem httpKeys_names : ∀ key ∈ httpKeys,
    latin1Lower (headerTitle key) = ravenHttpHeaderPrefix ++ dashed key ∧
      isRavenHeader (ravenHttpHeaderPrefix ++ dashed key) = true ∧
      RavenRequestAuthenticator.metaKey (dashed key) = key := by decide

theorem rawHeaders_get?_absent {headers : List (Bytes × Bytes)} {table : Headers} {duplicate : Bool}
    {name : PyStr} (habsent : ∀ value, (name, value) ∉ headers.map readHeader) :
    (rawHeaders table duplicate headers).1.get? name = table.get? name := by
  induction headers generalizing table duplicate with
  | nil => rfl
  | cons header rest ih =>
    have hne : name ≠ headerName header.1 := fun heq =>
      habsent (decodeLatin1 header.2) (by simp [readHeader, heq])
    have hrest : ∀ value, (name, value) ∉ rest.map readHeader := fun value hmem =>
      habsent value (List.mem_cons_of_mem _ hmem)
    simp only [rawHeaders]
    rw [ih hrest, KeyedTable.get?_set_ne _ _ hne]

/-- A name with one value has it in the dictionary. -/
theorem rawHeaders_get? {headers : List (Bytes × Bytes)} {table : Headers} {duplicate : Bool}
    {name value : PyStr} (hmem : (name, value) ∈ headers.map readHeader)
    (hunique : ∀ other, (name, other) ∈ headers.map readHeader → other = value) :
    (rawHeaders table duplicate headers).1.get? name = some value := by
  induction headers generalizing table duplicate with
  | nil => cases hmem
  | cons header rest ih =>
    have hrest : ∀ other, (name, other) ∈ rest.map readHeader → other = value := fun other h =>
      hunique other (List.mem_cons_of_mem _ h)
    by_cases hlater : (name, value) ∈ rest.map readHeader
    · exact ih hlater hrest
    · have hhead : readHeader header = (name, value) := by
        rcases List.mem_cons.mp hmem with heq | h
        · exact heq.symm
        · exact absurd h hlater
      obtain ⟨rfl, rfl⟩ := Prod.mk.inj hhead
      have habsent : ∀ other, (headerName header.1, other) ∉ rest.map readHeader := fun other h =>
        hlater (hrest other h ▸ h)
      simp only [rawHeaders]
      rw [rawHeaders_get?_absent habsent, KeyedTable.get?_set_self]

/-- The headers of a block are found again under their reader's names. -/
theorem delivered_get? {texts : List (PyStr × PyStr)} {headers : List (Bytes × Bytes)}
    (hkeys : texts.map Prod.fst = httpKeys)
    (hdelivered : Delivered (writeHeaders texts) headers)
    {key text : PyStr} (hmem : (key, text) ∈ texts) :
    (rawHeaders .empty false headers).1.get? (ravenHttpHeaderPrefix ++ dashed key) =
      some text := by
  have hkey : ∀ {key text}, (key, text) ∈ texts → key ∈ httpKeys := fun h => by
    rw [← hkeys]
    exact List.mem_map_of_mem h
  have hmem_iff : ∀ value, (ravenHttpHeaderPrefix ++ dashed key, value) ∈ headers.map readHeader →
      (key, value) ∈ texts := by
    intro value hvalue
    obtain ⟨_, hraven, hback⟩ := httpKeys_names key (hkey hmem)
    have hwritten : (ravenHttpHeaderPrefix ++ dashed key, value) ∈
        (headers.map readHeader).filter fun h => isRavenHeader h.1 :=
      List.mem_filter.mpr ⟨hvalue, hraven⟩
    rw [hdelivered, writeHeaders, List.map_map] at hwritten
    obtain ⟨⟨key', text'⟩, hmem', heq⟩ := List.mem_map.mp hwritten
    obtain ⟨hname', _, hback'⟩ := httpKeys_names key' (hkey hmem')
    obtain ⟨hname, rfl⟩ := Prod.mk.inj heq
    have hdashed : dashed key' = dashed key := List.append_cancel_left (hname'.symm.trans hname)
    rw [← hback, ← hdashed, hback']
    exact hmem'
  have hnodup : (texts.map Prod.fst).Nodup := by
    rw [hkeys]
    exact httpKeys_nodup
  have hhere : (ravenHttpHeaderPrefix ++ dashed key, text) ∈ headers.map readHeader := by
    obtain ⟨hname, _, _⟩ := httpKeys_names key (hkey hmem)
    have hwritten : (ravenHttpHeaderPrefix ++ dashed key, text) ∈
        (headers.map readHeader).filter fun h => isRavenHeader h.1 := by
      rw [hdelivered, writeHeaders, List.map_map]
      exact List.mem_map.mpr ⟨(key, text), hmem, by simp [hname]⟩
    exact List.mem_of_mem_filter hwritten
  apply rawHeaders_get? hhere
  intro other hother
  exact congrArg Prod.snd
    (List.inj_on_of_nodup_map hnodup (hmem_iff other hother) hmem rfl)

/-- Texts that pass the size limit of the reader. -/
def FitsHeader (text : PyStr) : Prop := text ≠ [] ∧ text.all isAscii = true ∧ text.length ≤ 4096

theorem readField_ok {headers : Headers} {field text : PyStr} (hfits : FitsHeader text)
    (hget : headers.get? (ravenHttpHeaderPrefix ++ field) = some text) :
    RavenRequestAuthenticator.readField headers field =
      .ok (RavenRequestAuthenticator.metaKey field, .str text) := by
  obtain ⟨hne, hascii, hlen⟩ := hfits
  obtain ⟨encoded, hencoded, hsize⟩ := encodeUtf8_of_ascii hascii
  have hbound : encoded.length ≤ 4096 := by omega
  simp [RavenRequestAuthenticator.readField, hget, raising, hencoded, ensure, hne, hbound, bind,
    Except.bind, pure, Except.pure]

/-- The authenticator reads the block that was written. -/
theorem readFields {texts : List (PyStr × PyStr)} {headers : List (Bytes × Bytes)}
    (hkeys : texts.map Prod.fst = httpKeys) (hfits : ∀ item ∈ texts, FitsHeader item.2)
    (hdelivered : Delivered (writeHeaders texts) headers) :
    RavenRequestAuthenticator.fields.mapM
      (RavenRequestAuthenticator.readField (rawHeaders .empty false headers).1) =
        .ok (ofTexts texts) := by
  have hread : ∀ item ∈ texts, RavenRequestAuthenticator.readField
      (rawHeaders .empty false headers).1 (dashed item.1) = .ok (item.1, .str item.2) := by
    intro item hmem
    have hkey : item.1 ∈ httpKeys := hkeys ▸ List.mem_map_of_mem hmem
    rw [readField_ok (hfits item hmem) (delivered_get? hkeys hdelivered hmem),
      (httpKeys_names _ hkey).2.2]
  rw [fields_eq, ← hkeys]
  clear hkeys hfits hdelivered
  induction texts with
  | nil => rfl
  | cons item rest ih =>
    have hrest := ih fun item hmem => hread item (List.mem_cons_of_mem _ hmem)
    simp only [List.map_cons, List.mapM_cons, hread item List.mem_cons_self, hrest, ofTexts, bind,
      Except.bind, pure, Except.pure]

/-! ## Texts that fit a header -/

theorem fits_strInt {n : Int} {text : PyStr} {k : Nat} (hbound : n.natAbs < 10 ^ k)
    (hk : 0 < k) (hsize : k < 4096) (h : strInt n = .ok text) : FitsHeader text := by
  obtain rfl := strInt_ok h
  have hlen := natDecimal_length hk hbound
  have hascii := natDecimal_ascii n.natAbs
  have hminus : isAscii 45 = true := by decide
  unfold intDecimal
  split
  · exact ⟨by simp, by simp [hascii, hminus], by simp only [List.length_cons]; omega⟩
  · refine ⟨?_, hascii, by omega⟩
    simp [natDecimal_eq, decimalDigits_ne_nil]

theorem fits_hex {raw : Bytes} (hne : raw ≠ []) (hlen : raw.length ≤ 2048) :
    FitsHeader (hex raw) := by
  have hpos := List.length_pos_of_ne_nil hne
  have hlength := hex_length raw
  refine ⟨?_, hex_ascii raw, by omega⟩
  apply List.ne_nil_of_length_pos
  omega

theorem fits_b64encode {raw : Bytes} (hne : raw ≠ []) (hlen : raw.length ≤ 2048) :
    FitsHeader (b64encode raw) := by
  have hpos := List.length_pos_of_ne_nil hne
  have hlength := b64encode_length raw
  refine ⟨?_, (decodeQuads_b64encode raw).2, by omega⟩
  apply List.ne_nil_of_length_pos
  omega

theorem fits_address (publicKey : Bytes) : FitsHeader (Address.encode P publicKey) := by
  have hlen := Address.encode_length P publicKey
  have hhead : lit "rvn" = 114 :: [118, 110] := by decide
  refine ⟨?_, Address.encode_ascii P publicKey, by omega⟩
  simp [Address.encode, Bech32m.encode, hhead]

/-! ## Completeness -/

/-- Everything that lies in a signer's block: the fields that it signed, and the message. -/
theorem signDelegation_ok {identity : RavenIdentity} {text recipient taskId kind : PyStr}
    {lifetime : Lifetime} {signedAt : Int} {nonceRaw : Bytes} {block : Dict}
    (h : signDelegation P identity text recipient taskId kind lifetime signedAt nonceRaw =
      .ok block) :
    ∃ f message, f = DelegationFields.mk (identity.address P) recipient taskId kind
        (lifetime.start signedAt) (lifetime.expiry signedAt) text (hex nonceRaw) ∧
      recipient ≠ [] ∧ taskId ≠ [] ∧ lifetime.allowed signedAt = true ∧
      delegationSigningBytes P f = .ok message ∧
      block = delegationMetadata f (b64encode (identity.sign message)) := by
  simp only [signDelegation, bind_ok] at h
  obtain ⟨_, _, h⟩ := h
  split at h
  · cases h
  · rename_i hpresent
    split at h
    · cases h
    · split at h
      · cases h
      · rename_i hallowed
        simp only [bind_ok, pure_ok] at h
        obtain ⟨message, hmessage, rfl⟩ := h
        rw [not_or] at hpresent
        exact ⟨_, message, rfl, hpresent.1, hpresent.2, by simpa using hallowed, hmessage, rfl⟩

theorem signHttpRequest_ok {identity : RavenIdentity} {recipient method target : PyStr}
    {body : Bytes} {lifetime : Lifetime} {signedAt : Int} {nonceRaw : Bytes} {block : Dict}
    (h : signHttpRequest P identity recipient method target body lifetime signedAt nonceRaw =
      .ok block) :
    ∃ f message, f = HttpRequestFields.mk (identity.address P) recipient method target
        (lifetime.start signedAt) (lifetime.expiry signedAt) body (hex nonceRaw) ∧
      lifetime.allowed signedAt = true ∧ httpRequestSigningBytes P f = .ok message ∧
      block = httpAuthorization f (b64encode (identity.sign message)) := by
  simp only [signHttpRequest, bind_ok] at h
  obtain ⟨_, _, h⟩ := h
  split at h
  · cases h
  · split at h
    · cases h
    · split at h
      · cases h
      · rename_i hallowed
        simp only [bind_ok, pure_ok] at h
        obtain ⟨message, hmessage, rfl⟩ := h
        exact ⟨_, message, rfl, by simpa using hallowed, hmessage, rfl⟩

/-- The instants from a minute before the issue up to the expiry. -/
theorem lifetimeOk_of_allowed {lifetime : Lifetime} {signedAt now : Int}
    (hallowed : lifetime.allowed signedAt = true)
    (hearly : lifetime.start signedAt - maxFutureSkewSeconds ≤ now)
    (hlive : now < lifetime.expiry signedAt) :
    LifetimeOk now (lifetime.start signedAt) (lifetime.expiry signedAt) := by
  simp only [Lifetime.allowed, Bool.and_eq_true, decide_eq_true_eq] at hallowed
  exact ⟨by omega, by omega, by omega, by omega⟩

theorem encodeInt_text {n : Int} {b : Bytes} (h : encodeInt n = .ok b) :
    strInt n = .ok (intDecimal n) := by
  obtain ⟨text, htext, _⟩ := bind_ok.mp h
  rw [htext, strInt_ok htext]

section
variable {identity : RavenIdentity} {signedAt now later : Int} {nonceRaw : Bytes} {peers : Peers}
  {revoked : List PyStr} {cache : ReplayCache} {db : Ledger} {pinned sig : PyStr}

/-- A signature text that decodes and is not recorded is admitted while there is room. -/
theorem firstTime_unused {raw : Bytes} (hdecoded : b64decode sig = .ok raw)
    (hunused : ¬ Used P later sig db) (hroom : activeCount later db < cache.maxEntries)
    (expiry : Int) : ∃ db', firstTime P cache noFaults later sig (some expiry) db = (.ok true, db') := by
  obtain ⟨key, hkey⟩ := signatureHash_of_decoded (P := P) hdecoded
  exact ⟨_, firstTime_admits P expiry hkey (fun h => hunused ⟨key, hkey, h⟩) hroom⟩

theorem ravenStrings_defined {text recipient taskId kind : PyStr} {lifetime : Lifetime}
    {block : Dict}
    (h : signDelegation P identity text recipient taskId kind lifetime signedAt nonceRaw =
      .ok block) : ∃ raven, ravenStrings P block = .ok raven := by
  obtain ⟨f, message, _, _, _, _, hmessage, rfl⟩ := signDelegation_ok h
  obtain ⟨_, _, _, _, _, _, _, _, _, _, _, _, _, _, hissued, hexpires, _⟩ :=
    delegationSigningBytes_ok P hmessage
  rw [ravenStrings_eq, textBlock_delegation (encodeInt_text hissued) (encodeInt_text hexpires)]
  exact ⟨_, rfl⟩

theorem signDelegation_accepted {text recipient taskId kind : PyStr} {lifetime : Lifetime}
    {block raven : Dict} {ctx : RequestContext} (required : Bool)
    (hsigns : Signs P identity.publicBytes identity.sign) (hnonce : nonceRaw.length = nonceBytes)
    (hblock : signDelegation P identity text recipient taskId kind lifetime signedAt nonceRaw =
      .ok block) (hraven : ravenStrings P block = .ok raven) (hctx : ctx.metadata = raven)
    (hpin : peers.get? (identity.address P) = some pinned)
    (hkey : fromhex pinned = .ok identity.publicBytes) (hrevoked : identity.address P ∉ revoked)
    (hearly : lifetime.start signedAt - maxFutureSkewSeconds ≤ now)
    (hlive : now < lifetime.expiry signedAt)
    (hunused : ∀ sig, getStr P block "signature" = .ok sig → ¬ Used P later sig db)
    (hroom : activeCount later db < cache.maxEntries) :
    (verifyDelegation P (extractRavenMeta ctx) text peers required revoked cache
      ⟨recipient, taskId, kind⟩ true noFaults now later db).1 =
        .ok (true, lit "verified " ++ identity.address P) := by
  obtain ⟨f, message, hf, hrecipient, htask, hallowed, hmessage, rfl⟩ := signDelegation_ok hblock
  obtain ⟨_, _, _, _, _, _, _, _, _, _, _, _, _, _, hissued, hexpires, _⟩ :=
    delegationSigningBytes_ok P hmessage
  have hissued := encodeInt_text hissued
  have hexpires := encodeInt_text hexpires
  rw [ravenStrings_eq, textBlock_delegation hissued hexpires] at hraven
  obtain rfl := Except.ok.inj hraven
  rw [extractRavenMeta_raven (by simp [ofTexts, delegationTexts, ravenMetaKeys]) hctx]
  obtain ⟨db', hfirst⟩ : ∃ db', firstTime P cache noFaults later _ (some f.expiresAt) db =
      (.ok true, db') :=
    firstTime_unused (b64decode_b64encode _) (hunused _ rfl) hroom f.expiresAt
  have hlife := lifetimeOk_of_allowed hallowed hearly hlive
  subst hf
  have hchecks := checkDelegation_admits hsigns rfl hmessage
    (delegationTexts_presents hissued hexpires) (fromhex_hex nonceRaw)
    (by rw [hex_length, hnonce, Nat.mul_comm]) hrecipient htask hpin hkey hrevoked hlife
  simp only [verifyDelegation, ofTexts, delegationTexts, List.map_cons, reduceCtorEq, if_false,
    if_true] at hchecks hfirst ⊢
  simp only [hchecks, hfirst]

theorem authFlow_ok {auth : RavenHttpAuth} {method target : PyStr} {rawPath body : Bytes}
    {written : List (PyStr × PyStr)} (htarget : decodeAscii rawPath = .ok target)
    (h : auth.authFlow P method rawPath body signedAt nonceRaw = .ok written) :
    ∃ f message, f = HttpRequestFields.mk (auth.identity.address P) auth.recipient method target
        signedAt (signedAt + defaultDelegationTtlSeconds) body (hex nonceRaw) ∧
      httpRequestSigningBytes P f = .ok message ∧ strInt f.issuedAt = .ok (intDecimal f.issuedAt) ∧
      strInt f.expiresAt = .ok (intDecimal f.expiresAt) ∧
      written = writeHeaders (httpTexts f (intDecimal f.issuedAt) (intDecimal f.expiresAt)
        (b64encode (auth.identity.sign message))) := by
  simp only [RavenHttpAuth.authFlow, bind_ok] at h
  obtain ⟨target', htarget', block, hblock, h⟩ := h
  obtain rfl : target' = target := Except.ok.inj (htarget'.symm.trans htarget)
  obtain ⟨f, message, hf, _, hmessage, rfl⟩ := signHttpRequest_ok hblock
  obtain ⟨_, _, _, _, _, _, _, _, _, _, _, _, hissued, hexpires, _⟩ :=
    httpRequestSigningBytes_ok P hmessage
  have hissued := encodeInt_text hissued
  have hexpires := encodeInt_text hexpires
  refine ⟨f, message, hf, hmessage, hissued, hexpires, ?_⟩
  simpa [httpAuthorization, httpTexts, writeHeaders, pyStr, hissued, hexpires, bind, Except.bind,
    pure, Except.pure, eq_comm] using h

theorem writeHeaders_signature {f : HttpRequestFields} {issuedAt expiresAt : PyStr} :
    (lit "Raven-Request-Signature", sig) ∈ writeHeaders (httpTexts f issuedAt expiresAt sig) := by
  have htitle : headerTitle (lit "signature") = lit "Raven-Request-Signature" := by decide
  rw [← htitle]
  exact List.mem_map_of_mem (a := (lit "signature", sig)) (by simp [httpTexts])

/-- The clock and the sizes of keys and signatures keep every text short. -/
theorem httpTexts_fit {f : HttpRequestFields} {node : RavenIdentity} {raw : Bytes}
    (hclock : ClockReading signedAt) (hnonce : nonceRaw.length = nonceBytes)
    (hf : f = HttpRequestFields.mk (identity.address P) (node.address P) f.method f.target
      signedAt (signedAt + defaultDelegationTtlSeconds) f.body (hex nonceRaw))
    (hissued : strInt f.issuedAt = .ok (intDecimal f.issuedAt))
    (hexpires : strInt f.expiresAt = .ok (intDecimal f.expiresAt)) (hraw : raw.length = 64) :
    ∀ item ∈ httpTexts f (intDecimal f.issuedAt) (intDecimal f.expiresAt) (b64encode raw),
      FitsHeader item.2 := by
  have hconstants : FitsHeader (lit "ed25519") ∧ FitsHeader httpSigningContext := by
    unfold FitsHeader
    decide
  have hsmall := clock_small hclock
  have hclock₁ : signedAt.natAbs < 10 ^ clockDigits := by omega
  have hclock₂ : (signedAt + defaultDelegationTtlSeconds).natAbs < 10 ^ clockDigits := by
    unfold defaultDelegationTtlSeconds
    omega
  rw [hf] at hissued hexpires ⊢
  simp only [httpTexts, List.forall_mem_cons, List.not_mem_nil, false_imp_iff, implies_true, and_true]
  refine ⟨fits_address _, fits_address _, fits_strInt hclock₁ (by decide) (by decide) hissued,
    fits_strInt hclock₂ (by decide) (by decide) hexpires, fits_hex ?_ (by rw [hnonce]; decide),
    hconstants.1, hconstants.2, fits_b64encode ?_ (by omega)⟩
  · exact List.ne_nil_of_length_pos (by rw [hnonce]; decide)
  · exact List.ne_nil_of_length_pos (by omega)

theorem authFlow_accepted {auth : RavenHttpAuth} {method target : PyStr} {rawPath body : Bytes}
    {written : List (PyStr × PyStr)} {authenticator : RavenRequestAuthenticator}
    {node : RavenIdentity} {headers : List (Bytes × Bytes)} {policy : Policy}
    (hsigns : Signs P auth.identity.publicBytes auth.identity.sign)
    (hnonce : nonceRaw.length = nonceBytes) (hclock : ClockReading signedAt)
    (hwritten : auth.authFlow P method rawPath body signedAt nonceRaw = .ok written)
    (htarget : decodeAscii rawPath = .ok target)
    (hnode : authenticator.address = node.address P) (hrecipient : auth.recipient = node.address P)
    (hdelivered : Delivered written headers) (hpeers : policy.peers = .ok peers)
    (hrevocations : policy.revocations = .ok revoked)
    (hpin : peers.get? (auth.identity.address P) = some pinned)
    (hkey : fromhex pinned = .ok auth.identity.publicBytes)
    (hrevoked : auth.identity.address P ∉ revoked) (hearly : signedAt - maxFutureSkewSeconds ≤ now)
    (hlive : now < signedAt + defaultDelegationTtlSeconds)
    (hunused : ∀ sig, (lit "Raven-Request-Signature", sig) ∈ written → ¬ Used P later sig db)
    (hroom : activeCount later db < authenticator.replay.maxEntries) :
    (authenticator.authenticate P (rawHeaders .empty false headers).1 method target body policy
      noFaults now later db).1 =
        .ok (true, lit "HTTP authorization verified", auth.identity.address P) := by
  obtain ⟨f, message, hf, hmessage, hissued, hexpires, rfl⟩ := authFlow_ok htarget hwritten
  have hlength : (auth.identity.sign message).length = 64 :=
    P.ed25519_signature_length (hsigns.verifies message)
  rw [hrecipient] at hf
  have hfits := httpTexts_fit hclock hnonce (hf.trans (by rw [hf])) hissued hexpires hlength
  have hfields := readFields rfl hfits hdelivered
  have hlife : LifetimeOk now signedAt (signedAt + defaultDelegationTtlSeconds) :=
    ⟨by omega, by unfold defaultDelegationTtlSeconds; omega,
      by unfold defaultDelegationTtlSeconds maxDelegationTtlSeconds; omega, hlive⟩
  obtain ⟨db', hfirst⟩ : ∃ db', firstTime P authenticator.replay noFaults later _
      (some f.expiresAt) db = (.ok true, db') :=
    firstTime_unused (b64decode_b64encode _) (hunused _ writeHeaders_signature) hroom f.expiresAt
  have hpresent := @httpTexts_presents P _ _ (b64encode (auth.identity.sign message)) _ hissued
    hexpires
  subst hf
  have hchecks := checkHttpRequest_admits hsigns rfl hmessage hpresent (fromhex_hex nonceRaw)
    hnonce hpin hkey hrevoked hlife
  have hsome : ((rawHeaders .empty false headers).1.rows.all fun header =>
      !isRavenHeader header.1) = false := by
    have hget := delivered_get? rfl hdelivered (List.mem_cons_self : (lit "address", _) ∈ _)
    apply Bool.eq_false_of_not_eq_true
    intro hall
    have hrow := List.all_eq_true.mp hall _ ((KeyedTable.get?_eq_some _).mp hget)
    have hraven := (httpKeys_names (lit "address") (by decide)).2.1
    simp [hraven] at hrow
  unfold RavenRequestAuthenticator.authenticate
  rw [hsome]
  simp only [Bool.false_eq_true, if_false, hfields, hpeers, hrevocations, verifyHttpRequest, hnode,
    hchecks, hfirst, if_true]

end

/-- Whatever a pinned signer writes, as metadata or as headers, is accepted where it is addressed
to, from a minute before its issue up to its expiry. -/
theorem signed_blocks_accepted (P : Platform) :
    (∀ (identity : RavenIdentity) (text recipient taskId kind : PyStr) (lifetime : Lifetime)
      (signedAt : Int) (nonceRaw : Bytes) (block : Dict),
      Signs P identity.publicBytes identity.sign → nonceRaw.length = nonceBytes →
      signDelegation P identity text recipient taskId kind lifetime signedAt nonceRaw = .ok block →
      ∃ raven, ravenStrings P block = .ok raven ∧
        ∀ (ctx : RequestContext) (peers : Peers) (revoked : List PyStr) (pinned : PyStr)
          (required : Bool) (cache : ReplayCache) (now later : Int) (db : Ledger),
          ctx.metadata = raven → peers.get? (identity.address P) = some pinned →
          fromhex pinned = .ok identity.publicBytes → identity.address P ∉ revoked →
          lifetime.start signedAt - maxFutureSkewSeconds ≤ now → now < lifetime.expiry signedAt →
          (∀ sig, getStr P block "signature" = .ok sig → ¬ Used P later sig db) →
          activeCount later db < cache.maxEntries →
          (verifyDelegation P (extractRavenMeta ctx) text peers required revoked cache
            ⟨recipient, taskId, kind⟩ true noFaults now later db).1 =
              .ok (true, lit "verified " ++ identity.address P)) ∧
    ∀ (auth : RavenHttpAuth) (method target : PyStr) (rawPath body : Bytes) (signedAt : Int)
      (nonceRaw : Bytes) (written : List (PyStr × PyStr)),
      Signs P auth.identity.publicBytes auth.identity.sign → nonceRaw.length = nonceBytes →
      ClockReading signedAt → decodeAscii rawPath = .ok target →
      auth.authFlow P method rawPath body signedAt nonceRaw = .ok written →
      ∀ (node : RavenIdentity) (authenticator : RavenRequestAuthenticator)
        (headers : List (Bytes × Bytes)) (policy : Policy) (peers : Peers) (revoked : List PyStr)
        (pinned : PyStr) (now later : Int) (db : Ledger),
        authenticator.address = node.address P → auth.recipient = node.address P →
        Delivered written headers → policy.peers = .ok peers →
        policy.revocations = .ok revoked → peers.get? (auth.identity.address P) = some pinned →
        fromhex pinned = .ok auth.identity.publicBytes → auth.identity.address P ∉ revoked →
        signedAt - maxFutureSkewSeconds ≤ now → now < signedAt + defaultDelegationTtlSeconds →
        (∀ sig, (lit "Raven-Request-Signature", sig) ∈ written → ¬ Used P later sig db) →
        activeCount later db < authenticator.replay.maxEntries →
        (authenticator.authenticate P (rawHeaders .empty false headers).1 method target body policy
          noFaults now later db).1 =
            .ok (true, lit "HTTP authorization verified", auth.identity.address P) := by
  constructor
  · intro identity text recipient taskId kind lifetime signedAt nonceRaw block hsigns hnonce hblock
    obtain ⟨raven, hraven⟩ := ravenStrings_defined hblock
    refine ⟨raven, hraven, ?_⟩
    intro ctx peers revoked pinned required cache now later db hctx hpin hkey hrevoked hearly hlive
      hunused hroom
    exact signDelegation_accepted required hsigns hnonce hblock hraven hctx hpin hkey hrevoked
      hearly hlive hunused hroom
  · intro auth method target rawPath body signedAt nonceRaw written hsigns hnonce hclock htarget
      hwritten node authenticator headers policy peers revoked pinned now later db hnode hrecipient
      hdelivered hpeers hrevocations hpin hkey hrevoked hearly hlive hunused hroom
    exact authFlow_accepted hsigns hnonce hclock hwritten htarget hnode hrecipient hdelivered hpeers
      hrevocations hpin hkey hrevoked hearly hlive hunused hroom

namespace Sample
open Identity.Sample

def nonceRaw : Bytes := List.replicate 16 5

def block : Dict :=
  (signDelegation signingPlatform signer (lit " hello ") nodeAddress (lit "t1") (lit "task") {} 1000
    nonceRaw).toOption.getD []

def clientAuth : RavenHttpAuth := ⟨signer, nodeAddress⟩

/-- 1000.0 -/
theorem clock : ClockReading 1000 := ⟨0x408F400000000000, by decide⟩

def written : List (PyStr × PyStr) :=
  (clientAuth.authFlow signingPlatform (lit "POST") (asciiBytes (lit "/")) [123, 125] 1000
    nonceRaw).toOption.getD []

/-- The written headers as a server gets them, behind another one. -/
def headers : List (Bytes × Bytes) :=
  (asciiBytes (lit "host"), asciiBytes (lit "node")) ::
    written.map fun (name, value) => (asciiBytes name, asciiBytes value)

def nodeIdentity : RavenIdentity := ⟨nodeKey, nodeKey_length, signature nodeKey⟩

theorem block_signed : signDelegation signingPlatform signer (lit " hello ") nodeAddress (lit "t1")
    (lit "task") {} 1000 nonceRaw = .ok block := by
  have hsome : (signDelegation signingPlatform signer (lit " hello ") nodeAddress (lit "t1")
    (lit "task") {} 1000 nonceRaw).toOption.isSome = true := by decide +kernel
  obtain ⟨d, hd⟩ := Option.isSome_iff_exists.mp hsome
  rw [block, hd, toOption_some.mp hd]
  rfl

theorem written_flow : clientAuth.authFlow signingPlatform (lit "POST") (asciiBytes (lit "/"))
    [123, 125] 1000 nonceRaw = .ok written := by
  have hsome : (clientAuth.authFlow signingPlatform (lit "POST") (asciiBytes (lit "/")) [123, 125]
    1000 nonceRaw).toOption.isSome = true := by decide +kernel
  obtain ⟨d, hd⟩ := Option.isSome_iff_exists.mp hsome
  rw [written, hd, toOption_some.mp hd]
  rfl

theorem unused (P : Platform) (later : Int) (sig : PyStr) : ¬ Used P later sig .empty := by
  rintro ⟨key, _, expiry, hget, _⟩
  simp at hget

end Sample

/-- The first and the last instant of a delegation, and a request. -/
theorem signed_blocks_accepted_sample :
    (∃ raven, ravenStrings Identity.Sample.signingPlatform Sample.block = .ok raven ∧
      ∀ now ∈ [940, 1599], (verifyDelegation Identity.Sample.signingPlatform
        (extractRavenMeta ⟨Identity.Sample.address, true, lit "t1", raven, lit " hello "⟩)
        (lit " hello ") Identity.Sample.peers true [] {}
        ⟨Identity.Sample.nodeAddress, lit "t1", lit "task"⟩ true noFaults now now .empty).1 =
          .ok (true, lit "verified " ++ Identity.Sample.address)) ∧
    (RavenRequestAuthenticator.authenticate Identity.Sample.signingPlatform
      ⟨Identity.Sample.nodeAddress, {}⟩ (rawHeaders .empty false Sample.headers).1 (lit "POST")
      (lit "/") [123, 125] Agent.Sample.policy noFaults 1100 1100 .empty).1 =
        .ok (true, lit "HTTP authorization verified", Identity.Sample.address) := by
  obtain ⟨hdelegation, hrequest⟩ := signed_blocks_accepted Identity.Sample.signingPlatform
  have hpin : Identity.Sample.peers.get?
      (Identity.Sample.signer.address Identity.Sample.signingPlatform) =
        some (hex Identity.Sample.key) := KeyedTable.get?_set_self _ _ _
  constructor
  · obtain ⟨raven, hraven, haccepted⟩ := hdelegation _ _ _ _ _ _ _ _ _ Identity.Sample.signs
      (by decide) Sample.block_signed
    refine ⟨raven, hraven, ?_⟩
    intro now hnow
    refine haccepted _ _ [] _ true {} now now .empty rfl hpin (fromhex_hex _) List.not_mem_nil
      ?_ ?_ (fun sig _ => Sample.unused _ _ sig) (ReplayCache.bounds_positive {})
    · rcases List.mem_pair.mp hnow with rfl | rfl <;> decide
    · rcases List.mem_pair.mp hnow with rfl | rfl <;> decide
  · exact hrequest _ _ _ _ _ _ _ _ Identity.Sample.signs (by decide) Sample.clock (by decide)
      Sample.written_flow Sample.nodeIdentity _ _ _ _ [] _ _ _ _ rfl rfl (by decide +kernel) rfl rfl hpin
      (fromhex_hex _) List.not_mem_nil (by decide) (by decide) (fun sig _ => Sample.unused _ _ sig)
      (by decide)

end Rdap.Server
