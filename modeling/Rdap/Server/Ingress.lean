import Rdap.Agent.Authorize

/-!
# The ingress middleware

A request to the RPC route is collected, authenticated and then handed to the application
together with the owner of its tasks. The events the server delivers are a list, which ends
where the body timeout strikes. Downstream code reads the owner from the scope only.
-/

set_option autoImplicit false

namespace Rdap.Server
open Python Protocol Lib Identity Agent

/-- What the middleware reads of an ASGI scope, and the owner entry of its state. -/
structure Scope where
  type : PyStr
  path : PyStr
  method : PyStr
  rawPath : Option Bytes
  queryString : Bytes
  headers : List (Bytes × Bytes)
  /-- The host of the client. -/
  client : Option PyStr
  ravenOwner : Option PyStr

inductive ReceiveEvent where
  | request (body : Bytes) (moreBody : Bool)
  | disconnect
  | other

/-! ## The body -/

inductive Collected where
  | complete (body : Bytes) (rest : List ReceiveEvent)
  | disconnected
  | unexpected
  | tooLarge
  | timeout

/-- `_body`; the first argument of the recursion is what has been read so far. -/
def collect (maxBodyBytes : Nat) : Bytes → List ReceiveEvent → Collected
  | _, [] => .timeout
  | _, .disconnect :: _ => .disconnected
  | _, .other :: _ => .unexpected
  | body, .request chunk moreBody :: rest =>
    if maxBodyBytes < body.length + chunk.length then .tooLarge
    else if moreBody then collect maxBodyBytes (body ++ chunk) rest
    else .complete (body ++ chunk) rest

/-- The events carry the body: its chunks in order, the last one marked as such. -/
def Carries (events : List ReceiveEvent) (body : Bytes) (rest : List ReceiveEvent) : Prop :=
  ∃ (chunks : List Bytes) (last : Bytes),
    events = chunks.map (.request · true) ++ .request last false :: rest ∧
      body = chunks.flatten ++ last

theorem Carries.single (body : Bytes) (rest : List ReceiveEvent) :
    Carries (.request body false :: rest) body rest := ⟨[], body, rfl, rfl⟩

/-- A stream carries at most one body. -/
theorem Carries.unique {events rest rest' : List ReceiveEvent} {body body' : Bytes}
    (h : Carries events body rest) (h' : Carries events body' rest') :
    body = body' ∧ rest = rest' := by
  obtain ⟨chunks, last, rfl, rfl⟩ := h
  obtain ⟨chunks', last', heq, rfl⟩ := h'
  induction chunks generalizing chunks' with
  | nil =>
    cases chunks' with
    | nil =>
      obtain ⟨rfl, rfl⟩ : last = last' ∧ rest = rest' := by simpa using heq
      exact ⟨rfl, rfl⟩
    | cons c cs => simp at heq
  | cons c cs ih =>
    cases chunks' with
    | nil => simp at heq
    | cons c' cs' =>
      obtain ⟨rfl, htail⟩ : c = c' ∧ _ := by simpa using heq
      obtain ⟨hbody, hrest⟩ := ih cs' (by simpa using htail)
      exact ⟨by simp [hbody], hrest⟩

theorem collect_complete {maxBodyBytes : Nat} {acc body : Bytes} {events rest : List ReceiveEvent}
    (h : collect maxBodyBytes acc events = .complete body rest) :
    ∃ tail, Carries events tail rest ∧ body = acc ++ tail := by
  induction events generalizing acc with
  | nil => cases h
  | cons event events ih =>
    cases event with
    | disconnect => cases h
    | other => cases h
    | request chunk moreBody =>
      simp only [collect] at h
      split at h
      · cases h
      · cases moreBody with
        | false =>
          obtain ⟨rfl, rfl⟩ : acc ++ chunk = body ∧ events = rest := by simpa using h
          exact ⟨chunk, .single chunk events, rfl⟩
        | true =>
          obtain ⟨tail, ⟨chunks, last, rfl, rfl⟩, rfl⟩ := ih (by simpa using h)
          exact ⟨chunk ++ (chunks.flatten ++ last), ⟨chunk :: chunks, last, rfl, by simp⟩, by simp⟩

/-! ## Headers -/

def ravenHttpHeaderPrefix : PyStr := lit "raven-request-"

/-- The `raw_headers` dictionary. -/
abbrev Headers := KeyedTable PyStr PyStr

/-- `name.decode('latin-1').lower()` -/
def headerName (name : Bytes) : PyStr := latin1Lower (decodeLatin1 name)

def isRavenHeader (name : PyStr) : Bool := startsWith name ravenHttpHeaderPrefix

/-- The dictionary of all headers, a later one in place of an earlier, and whether a raven
header was repeated. -/
def rawHeaders : Headers → Bool → List (Bytes × Bytes) → Headers × Bool
  | table, duplicate, [] => (table, duplicate)
  | table, duplicate, (name, value) :: rest =>
    let key := headerName name
    rawHeaders (table.set key (decodeLatin1 value))
      (duplicate || (isRavenHeader key && table.contains key)) rest

/-- The raven headers of a request, with repetitions. -/
def ravenNames (headers : List (Bytes × Bytes)) : List PyStr :=
  (headers.map fun h => headerName h.1).filter isRavenHeader

def RavenHeaderPresent (scope : Scope) : Prop := ravenNames scope.headers ≠ []

def RavenHeadersOnce (scope : Scope) : Prop := (ravenNames scope.headers).Nodup

instance (scope : Scope) : Decidable (RavenHeaderPresent scope) :=
  inferInstanceAs (Decidable (_ ≠ _))

instance (scope : Scope) : Decidable (RavenHeadersOnce scope) :=
  inferInstanceAs (Decidable (List.Nodup _))

theorem contains_set (table : Headers) (key value name : PyStr) :
    (table.set key value).contains name = true ↔ name = key ∨ table.contains name = true := by
  simp only [KeyedTable.contains, KeyedTable.get?_set]
  split <;> simp [*]

/-- The dictionary has exactly the names that occur. -/
theorem rawHeaders_contains (headers : List (Bytes × Bytes)) (table : Headers) (duplicate : Bool)
    (name : PyStr) : (rawHeaders table duplicate headers).1.contains name = true ↔
      table.contains name = true ∨ name ∈ headers.map fun h => headerName h.1 := by
  induction headers generalizing table duplicate with
  | nil => simp [rawHeaders]
  | cons h rest ih =>
    obtain ⟨raw, value⟩ := h
    simp only [rawHeaders, ih, contains_set, List.map_cons, List.mem_cons]
    constructor
    · rintro ((rfl | hold) | hrest)
      · exact Or.inr (Or.inl rfl)
      · exact Or.inl hold
      · exact Or.inr (Or.inr hrest)
    · rintro (hold | rfl | hrest)
      · exact Or.inl (Or.inr hold)
      · exact Or.inl (Or.inl rfl)
      · exact Or.inr hrest

/-- Without a duplicate the raven headers are pairwise different and new to the dictionary. -/
theorem rawHeaders_once {headers : List (Bytes × Bytes)} {table : Headers} {duplicate : Bool}
    (h : (rawHeaders table duplicate headers).2 = false) :
    duplicate = false ∧ (ravenNames headers).Nodup ∧
      ∀ name ∈ ravenNames headers, table.contains name = false := by
  induction headers generalizing table duplicate with
  | nil => exact ⟨h, List.nodup_nil, by simp [ravenNames]⟩
  | cons header rest ih =>
    obtain ⟨raw, value⟩ := header
    obtain ⟨hfold, hnodup, hnew⟩ := ih h
    have hfresh : ∀ name ∈ ravenNames rest, name ≠ headerName raw ∧ table.contains name = false := by
      intro name hname
      have hset := hnew name hname
      rw [← Bool.not_eq_true, contains_set, not_or] at hset
      exact ⟨hset.1, by simpa using hset.2⟩
    rw [Bool.or_eq_false_iff] at hfold
    by_cases hraven : isRavenHeader (headerName raw) = true
    · have hnames : ravenNames ((raw, value) :: rest) = headerName raw :: ravenNames rest := by
        simp [ravenNames, hraven]
      rw [hnames]
      refine ⟨hfold.1, List.nodup_cons.mpr ⟨fun hmem => (hfresh _ hmem).1 rfl, hnodup⟩, ?_⟩
      intro name hname
      rcases List.mem_cons.mp hname with rfl | hname
      · simpa [hraven] using hfold.2
      · exact (hfresh name hname).2
    · have hnames : ravenNames ((raw, value) :: rest) = ravenNames rest := by
        simp [ravenNames, hraven]
      rw [hnames]
      exact ⟨hfold.1, hnodup, fun name hname => (hfresh name hname).2⟩

/-! ## The authenticator -/

structure RavenRequestAuthenticator where
  address : PyStr
  replay : ReplayCache

namespace RavenRequestAuthenticator

/-- `_FIELDS` -/
def fields : List PyStr :=
  [lit "address", lit "recipient", lit "issued-at", lit "expires-at", lit "nonce",
    lit "algorithm", lit "context", lit "signature"]

/-- `field.replace('-', '_')` -/
def metaKey (field : PyStr) : PyStr := field.map fun c => if c = 45 then 95 else c

def readField (headers : Headers) (field : PyStr) : Except Stop (PyStr × Value) := do
  let value := (headers.get? (ravenHttpHeaderPrefix ++ field)).getD []
  let encoded ← raising (encodeUtf8 value)
  ensure (value ≠ [] ∧ encoded.length ≤ 4096) (lit "incomplete Raven request authorization")
  return (metaKey field, .str value)

variable (P : Platform)

def authenticate (auth : RavenRequestAuthenticator) (headers : Headers) (method target : PyStr)
    (body : Bytes) (policy : Policy) (faults : Faults) (now later : Int) (db : Ledger) :
    Except PyExc (Bool × PyStr × PyStr) × Ledger :=
  if headers.rows.all fun header => !isRavenHeader header.1 then
    (.ok (false, lit "missing Raven request authorization", []), db)
  else
    match fields.mapM (readField headers) with
    | .error (.rejected reason) => (.ok (true, reason, []), db)
    | .error (.raised e) => (.error e, db)
    | .ok values =>
      match policy.peers, policy.revocations with
      | .error e, _ | .ok _, .error e => (.error e, db)
      | .ok peers, .ok revoked =>
        match verifyHttpRequest P values method target body peers auth.address revoked auth.replay
            faults now later db with
        | (.ok (ok, reason, owner), db') => (.ok (true, reason, if ok then owner else []), db')
        | (.error e, db') => (.error e, db')

end RavenRequestAuthenticator

/-! ## The middleware -/

structure RpcIngressLimitMiddleware where
  maxBodyBytes : Nat
  maxBodyBytes_pos : 0 < maxBodyBytes
  ravenAuthenticator : Option RavenRequestAuthenticator
  requireRavenAuth : Bool

/-- How a request ends without the application. -/
inductive Refusal where
  | error (status : Nat) (message : PyStr)
  /-- The client went away. -/
  | dropped
  | raised (exc : PyExc)

inductive Response where
  /-- Not a request to the RPC route: the application gets it as it is. -/
  | passed
  | refused (refusal : Refusal)
  /-- The application runs on the scope and receives the events. -/
  | forwarded (scope : Scope) (receive : List ReceiveEvent)

/-- What the outside decides for one request. -/
structure Arrival where
  slotAcquired : Bool
  receive : List ReceiveEvent
  policy : Policy
  faults : Faults
  now : Int
  later : Int

def hintRpcCapacity : PyStr :=
  lit "RPC capacity exhausted. next: retry shortly, or raise " ++
    lit "TEAM_MAX_CONCURRENT_RPC on the server (default 16). " ++
    lit "Do not switch to --open to bypass this."

def authorizationFailed : Refusal := .error 401 (lit "Raven request authorization failed")

def byteLower (b : UInt8) : UInt8 := if 65 ≤ b ∧ b ≤ 90 then b + 32 else b

variable (P : Platform)

def Scope.isRpc (scope : Scope) : Prop :=
  scope.type = lit "http" ∧ scope.path = lit "/" ∧ P.upper scope.method = lit "POST"

instance (scope : Scope) : Decidable (scope.isRpc P) := inferInstanceAs (Decidable (_ ∧ _))

def declaredLength (scope : Scope) : Except PyExc (Option Int) :=
  match scope.headers.filter fun h => h.1.map byteLower = asciiBytes (lit "content-length") with
  | [] => .ok none
  | [(_, raw)] =>
    if raw ≠ [] ∧ raw.all fun b => 48 ≤ b && b ≤ 57 then
      (intOfStr P (decodeLatin1 raw)).map some
    else valueError (lit "invalid content-length header")
  | _ => valueError (lit "multiple content-length headers")

def requestTarget (scope : Scope) : Except PyExc PyStr := do
  let rawPath ← match scope.rawPath with
    | some (b :: bs) => .ok (b :: bs)
    | _ => encodeAscii scope.path
  let target ← decodeAscii rawPath
  if scope.queryString = [] then return target
  else
    let query ← decodeAscii scope.queryString
    return target ++ lit "?" ++ query

def openOwner (scope : Scope) : PyStr := lit "open:" ++ scope.client.getD (lit "unknown")

/-- `__call__` up to the body. -/
def readBody (m : RpcIngressLimitMiddleware) (scope : Scope) (arrival : Arrival) :
    Except Refusal (Bytes × List ReceiveEvent) :=
  match declaredLength P scope with
  | .error _ => .error (.error 400 (lit "invalid content length"))
  | .ok declared =>
    if declared.any fun n => (m.maxBodyBytes : Int) < n then
      .error (.error 413 (lit "request body too large"))
    else if !arrival.slotAcquired then .error (.error 503 hintRpcCapacity)
    else
      match collect m.maxBodyBytes [] arrival.receive with
      | .tooLarge => .error (.error 413 (lit "request body too large"))
      | .timeout => .error (.error 408 (lit "request body timeout"))
      | .unexpected => .error (.error 400 (lit "invalid request body"))
      | .disconnected => .error .dropped
      | .complete body rest => .ok (body, rest)

/-- The owner under which the application runs. -/
def identify (m : RpcIngressLimitMiddleware) (auth : RavenRequestAuthenticator) (scope : Scope)
    (body : Bytes) (arrival : Arrival) (db : Ledger) : Except Refusal PyStr × Ledger :=
  let headers := rawHeaders .empty false scope.headers
  if headers.2 then (.error authorizationFailed, db)
  else
    match requestTarget scope with
    | .error _ => (.error (.error 400 (lit "invalid request target")), db)
    | .ok target =>
      match auth.authenticate P headers.1 scope.method target body arrival.policy arrival.faults
          arrival.now arrival.later db with
      | (.error e, db') => (.error (.raised e), db')
      | (.ok (present, _, owner), db') =>
        if owner = [] ∧ (m.requireRavenAuth ∨ present) then (.error authorizationFailed, db')
        else (.ok (if owner = [] then openOwner scope else owner), db')

/-- `__call__` -/
def RpcIngressLimitMiddleware.call (m : RpcIngressLimitMiddleware) (scope : Scope)
    (arrival : Arrival) (db : Ledger) : Response × Ledger :=
  if ¬ scope.isRpc P then (.passed, db)
  else
    match readBody P m scope arrival with
    | .error refusal => (.refused refusal, db)
    | .ok (body, rest) =>
      let replayed := .request body false :: rest
      match m.ravenAuthenticator with
      | none => (.forwarded scope replayed, db)
      | some auth =>
        match identify P m auth scope body arrival db with
        | (.error refusal, db') => (.refused refusal, db')
        | (.ok owner, db') => (.forwarded { scope with ravenOwner := some owner } replayed, db')

/-! ## Owners -/

def isOpenOwner (owner : PyStr) : Bool := startsWith owner (lit "open:")

variable {P}

theorem openOwner_isOpen (scope : Scope) : isOpenOwner (openOwner scope) = true := by
  simp [isOpenOwner, openOwner, startsWith]

theorem address_not_open (publicKey : Bytes) :
    isOpenOwner (Address.encode P publicKey) = false := by
  have hhead : lit "rvn" = 114 :: [118, 110] := by decide
  have hopen : lit "open:" = 111 :: [112, 101, 110, 58] := by decide
  simp only [isOpenOwner, Address.encode, Bech32m.encode, startsWith, hhead, hopen,
    List.cons_append]
  rfl

/-- The authenticator vouches for an owner of a request. -/
def Vouches (P : Platform) (auth : RavenRequestAuthenticator) (scope : Scope) (target : PyStr)
    (body : Bytes) (arrival : Arrival) (db db' : Ledger) (owner : PyStr) : Prop :=
  owner ≠ [] ∧ ∃ reason, auth.authenticate P (rawHeaders .empty false scope.headers).1 scope.method
    target body arrival.policy arrival.faults arrival.now arrival.later db =
      (.ok (true, reason, owner), db')

section
variable {auth : RavenRequestAuthenticator} {headers : Headers} {method target : PyStr}
  {body : Bytes} {policy : Policy} {faults : Faults} {now later : Int} {db db' : Ledger}
  {present : Bool} {reason owner : PyStr}

/-- Whoever is vouched for has signed the request under a pinned key. -/
theorem authenticate_owner (howner : owner ≠ [])
    (h : auth.authenticate P headers method target body policy faults now later db =
      (.ok (present, reason, owner), db')) :
    present = true ∧ ∃ values peers revoked a, policy.peers = .ok peers ∧
      policy.revocations = .ok revoked ∧
      checkHttpRequest P values method target body peers auth.address revoked now = .ok a ∧
      owner = a.sender := by
  unfold RavenRequestAuthenticator.authenticate at h
  split at h
  · simp [howner.symm] at h
  · split at h
    · simp [howner.symm] at h
    · simp at h
    · rename_i values _
      split at h
      · simp at h
      · simp at h
      · rename_i peers revoked hpeers hrevoked
        split at h
        · rename_i ok why sender db'' hverify
          simp only [Prod.mk.injEq, Except.ok.injEq] at h
          obtain ⟨⟨rfl, rfl, howned⟩, rfl⟩ := h
          cases ok with
          | false => exact absurd howned.symm howner
          | true =>
            obtain ⟨a, ha, hsender, _⟩ := verifyHttpRequest_accepts P hverify
            exact ⟨rfl, values, peers, revoked, a, hpeers, hrevoked, ha, howned.symm.trans hsender⟩
        · simp at h

theorem authenticate_not_open (howner : owner ≠ [])
    (h : auth.authenticate P headers method target body policy faults now later db =
      (.ok (present, reason, owner), db')) : isOpenOwner owner = false := by
  obtain ⟨_, _, _, _, a, _, _, ha, rfl⟩ := authenticate_owner howner h
  obtain ⟨pin, _, hkey⟩ := (checkHttpRequest_ok P ha).pinned
  rw [(validateAddressPublicKey_ok P hkey).2]
  exact address_not_open a.publicKey

theorem authenticate_present {name : PyStr} (hname : headers.contains name = true)
    (hraven : isRavenHeader name = true)
    (h : auth.authenticate P headers method target body policy faults now later db =
      (.ok (present, reason, owner), db')) : present = true := by
  unfold RavenRequestAuthenticator.authenticate at h
  split at h
  · rename_i habsent
    obtain ⟨value, hvalue⟩ := Option.isSome_iff_exists.mp hname
    have hrow := List.all_eq_true.mp habsent (name, value) ((headers.get?_eq_some).mp hvalue)
    simp [hraven] at hrow
  · split at h
    · simp only [Prod.mk.injEq, Except.ok.injEq] at h
      exact h.1.1.symm
    · simp at h
    · split at h
      · simp at h
      · simp at h
      · split at h
        · simp only [Prod.mk.injEq, Except.ok.injEq] at h
          exact h.1.1.symm
        · simp at h

end

theorem requirement_of_present {scope : Scope} (h : RavenHeaderPresent scope) :
    ∃ name, (rawHeaders .empty false scope.headers).1.contains name = true ∧
      isRavenHeader name = true := by
  obtain ⟨name, hname⟩ := List.exists_mem_of_ne_nil _ h
  obtain ⟨hmem, hraven⟩ := List.mem_filter.mp hname
  exact ⟨name, (rawHeaders_contains _ _ _ name).mpr (Or.inr hmem), hraven⟩

section
variable {m : RpcIngressLimitMiddleware} {auth : RavenRequestAuthenticator} {scope : Scope}
  {body : Bytes} {arrival : Arrival} {db db' : Ledger} {owner : PyStr}

/-- An identified request repeats no raven header, and its owner is either vouched for or the
open one, the latter only when nothing asked for a signature. -/
theorem identify_ok (h : identify P m auth scope body arrival db = (.ok owner, db')) :
    RavenHeadersOnce scope ∧ ∃ target, requestTarget scope = .ok target ∧
      (Vouches P auth scope target body arrival db db' owner ∧ isOpenOwner owner = false ∨
        owner = openOwner scope ∧ m.requireRavenAuth = false ∧ ¬ RavenHeaderPresent scope) := by
  simp only [identify] at h
  split at h
  · simp at h
  · rename_i hduplicate
    obtain ⟨_, honce, _⟩ := rawHeaders_once (Bool.eq_false_of_not_eq_true hduplicate)
    split at h
    · simp at h
    · rename_i target htarget
      refine ⟨honce, target, htarget, ?_⟩
      split at h
      · simp at h
      · rename_i present reason answered db'' hauth
        split at h
        · simp at h
        · rename_i hallowed
          simp only [Prod.mk.injEq, Except.ok.injEq] at h
          obtain ⟨howner, rfl⟩ := h
          by_cases hempty : answered = []
          · right
            rw [if_pos hempty] at howner
            simp only [hempty, true_and, not_or, Bool.not_eq_true] at hallowed
            refine ⟨howner.symm, hallowed.1, fun hpresent => ?_⟩
            obtain ⟨name, hname, hraven⟩ := requirement_of_present hpresent
            simp [authenticate_present hname hraven hauth] at hallowed
          · left
            rw [if_neg hempty] at howner
            subst howner
            obtain ⟨rfl, _⟩ := authenticate_owner hempty hauth
            exact ⟨⟨hempty, reason, hauth⟩, authenticate_not_open hempty hauth⟩

theorem readBody_ok {rest : List ReceiveEvent} (h : readBody P m scope arrival = .ok (body, rest)) :
    Carries arrival.receive body rest := by
  unfold readBody at h
  split at h
  · cases h
  · split at h
    · cases h
    · split at h
      · cases h
      · split at h <;> try cases h
        rename_i hcollect
        obtain ⟨tail, hcarries, rfl⟩ := collect_complete hcollect
        exact hcarries

/-- The application runs on an RPC request under an owner of its own only if the authenticator
accepted that owner for the method, the target and the body it receives; it runs under an open
owner only if no signature was asked for or offered; and no raven header is repeated. -/
theorem ingress_owner_propagation (hrpc : scope.isRpc P) (hauth : m.ravenAuthenticator = some auth)
    {seen : Scope} {receive : List ReceiveEvent}
    (h : m.call P scope arrival db = (.forwarded seen receive, db')) :
    ∃ owner, seen = { scope with ravenOwner := some owner } ∧ RavenHeadersOnce scope ∧
      (isOpenOwner owner = false → ∃ target body rest, requestTarget seen = .ok target ∧
        Carries arrival.receive body rest ∧ Carries receive body rest ∧
        Vouches P auth seen target body arrival db db' owner) ∧
      (RavenHeaderPresent scope ∨ m.requireRavenAuth = true → isOpenOwner owner = false) := by
  simp only [RpcIngressLimitMiddleware.call, hrpc, not_true_eq_false, if_false, hauth] at h
  split at h
  · simp at h
  · rename_i body rest hread
    split at h
    · simp at h
    · rename_i owner db'' hidentify
      simp only [Prod.mk.injEq, Response.forwarded.injEq] at h
      obtain ⟨⟨rfl, rfl⟩, rfl⟩ := h
      obtain ⟨honce, target, htarget, hcase⟩ := identify_ok hidentify
      refine ⟨owner, rfl, honce, ?_, ?_⟩
      · intro hnamed
        rcases hcase with ⟨hvouches, _⟩ | ⟨rfl, _⟩
        · exact ⟨target, body, rest, htarget, readBody_ok hread, .single body rest, hvouches⟩
        · simp [openOwner_isOpen] at hnamed
      · intro hasked
        rcases hcase with ⟨_, hnamed⟩ | ⟨_, hnot, habsent⟩
        · exact hnamed
        · rcases hasked with hpresent | hrequired
          · exact absurd hpresent habsent
          · simp [hnot] at hrequired

end

namespace Sample

def auth : RavenRequestAuthenticator := ⟨Identity.Sample.nodeAddress, Identity.Sample.cache⟩

def middleware : RpcIngressLimitMiddleware := ⟨1024, by decide, some auth, true⟩

def header (name value : PyStr) : Bytes × Bytes :=
  (asciiBytes (lit "Raven-Request-" ++ name), asciiBytes value)

def scope : Scope where
  type := lit "http"
  path := lit "/"
  method := lit "POST"
  rawPath := some (asciiBytes (lit "/"))
  queryString := []
  headers :=
    [header (lit "Address") Identity.Sample.address,
      header (lit "Recipient") Identity.Sample.nodeAddress,
      header (lit "Issued-At") (lit "1000"), header (lit "Expires-At") (lit "1600"),
      header (lit "Nonce") Identity.Sample.nonce, header (lit "Algorithm") (lit "ed25519"),
      header (lit "Context") httpSigningContext,
      header (lit "Signature") (b64encode Identity.Sample.httpSignature)]
  client := some (lit "127.0.0.1")
  ravenOwner := none

/-- The body comes in two chunks. -/
def arrival : Arrival where
  slotAcquired := true
  receive := [.request [123] true, .request [125] false, .disconnect]
  policy := ⟨.ok Identity.Sample.peers, .ok []⟩
  faults := noFaults
  now := 1100
  later := 1100

def ForwardedAs (owner : PyStr) : Response → Prop
  | .forwarded seen _ => seen.ravenOwner = some owner
  | _ => False

instance (owner : PyStr) : (r : Response) → Decidable (ForwardedAs owner r)
  | .forwarded _ _ => inferInstanceAs (Decidable (_ = _))
  | .passed | .refused _ => .isFalse id

theorem forwardedAs_ok (owner : PyStr) {x : Response × Ledger} (h : ForwardedAs owner x.1) :
    ∃ seen receive db', x = (.forwarded seen receive, db') ∧ seen.ravenOwner = some owner := by
  obtain ⟨response, db'⟩ := x
  cases response with
  | passed => cases h
  | refused refusal => cases h
  | forwarded seen receive => exact ⟨seen, receive, db', rfl, h⟩

end Sample

theorem ingress_owner_propagation_sample :
    ∃ seen receive db', Sample.middleware.call Identity.Sample.platform Sample.scope Sample.arrival
        .empty = (.forwarded seen receive, db') ∧
      ∃ owner target body rest, seen.ravenOwner = some owner ∧ isOpenOwner owner = false ∧
        requestTarget seen = .ok target ∧
        Carries Sample.arrival.receive body rest ∧ Carries receive body rest ∧
        Vouches Identity.Sample.platform Sample.auth seen target body Sample.arrival .empty db'
          owner := by
  obtain ⟨seen, receive, db', hcall, _⟩ := Sample.forwardedAs_ok Identity.Sample.address
    (x := Sample.middleware.call Identity.Sample.platform Sample.scope Sample.arrival .empty)
    (by decide +kernel)
  obtain ⟨owner, hseen, _, hvouched, hasked⟩ :=
    ingress_owner_propagation (by decide +kernel) rfl hcall
  have hnamed := hasked (Or.inr rfl)
  obtain ⟨target, body, rest, hvouch⟩ := hvouched hnamed
  exact ⟨seen, receive, db', hcall, owner, target, body, rest, by rw [hseen], hnamed, hvouch⟩

end Rdap.Server
