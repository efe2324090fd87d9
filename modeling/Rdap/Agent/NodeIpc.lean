import Rdap.Lib.Framing
import Rdap.Python.JsonReread
import Rdap.Python.Raise

/-!
# Calls to the local node

A request and its answer are JSON objects, each behind its length in four bytes. The answer
comes in pieces of any size and is read to its exact length.
-/

set_option autoImplicit false

namespace Rdap.Agent
open Python Lib Python.Json

def maxIpcFrame : Nat := 256 * 1024

/-- `RavenIpcError`, or any other exception. -/
inductive IpcExc where
  | ipc (code message : PyStr)
  | other (exc : PyExc)

def ipcFrame {α : Type} (message : String) : Except IpcExc α := .error (.ipc (lit "IPC_FRAME") (lit message))

def forbiddenJsonSubstrings : List PyStr := [lit "seed", lit "private_key", lit "plaintext", lit "recovery"]

variable (P : Platform)

/-- `_refuse_forbidden_json`: the names of the outermost object only. -/
def refuseForbiddenJson (req : Dict) : Except IpcExc Unit :=
  if req.any fun item => forbiddenJsonSubstrings.any fun bad =>
      (P.lower item.1).tails.any fun rest => startsWith rest bad then
    .error (.ipc (lit "forbidden field") (lit "forbidden field"))
  else .ok ()

def encodeRequest (req : Dict) : Except IpcExc Bytes := do
  refuseForbiddenJson P req
  let text ← (dumpsAscii P (.dict req)).mapError IpcExc.other
  let body ← (encodeUtf8 text).mapError IpcExc.other
  if maxIpcFrame < body.length then ipcFrame "ipc request too large"
  else .ok (bigEndian 4 body.length ++ body)

/-- `json.JSONDecodeError`: every `ValueError` but that of an integer with too many digits. -/
def isJsonDecodeError (e : PyExc) : Bool := e.kind = .valueError && e ≠ intLiteralError

def decodeResponseFrame (frame : Bytes) : Except IpcExc Dict :=
  if frame.length < 4 then ipcFrame "short frame"
  else
    let n := ofBigEndian (frame.take 4)
    if n = 0 ∨ maxIpcFrame < n ∨ frame.length < 4 + n then ipcFrame "bad length"
    else match decodeUtf8 .strict ((frame.drop 4).take n) with
      | .error _ => ipcFrame "response is not JSON"
      | .ok text =>
        match loads P text with
        | .error e => if isJsonDecodeError e then ipcFrame "response is not JSON" else .error (.other e)
        | .ok (.dict d) => .ok d
        | .ok _ => ipcFrame "response must be a JSON object"

/-- `sock.recv(n)` on what is still to come: at most one piece, and nothing at the end. -/
def recv (n : Nat) : List Bytes → Bytes × List Bytes
  | [] => ([], [])
  | piece :: pieces =>
    if piece.length ≤ n then (piece, pieces) else (piece.take n, piece.drop n :: pieces)

/-- `_recv_exact_sock`, and `_read_exact_file`, which is the same loop over `read`. -/
def recvExact (n : Nat) (buf : Bytes) (pieces : List Bytes) : Except IpcExc Bytes × List Bytes :=
  if n ≤ buf.length then (.ok buf, pieces)
  else
    let received := recv (n - buf.length) pieces
    if received.1 = [] then (ipcFrame "ipc connection closed", received.2)
    else recvExact n (buf ++ received.1) received.2
termination_by n - buf.length
decreasing_by
  rename_i hfull hclosed
  have hpos := List.length_pos_of_ne_nil hclosed
  rw [List.length_append]
  exact Nat.sub_lt_sub_left (Nat.lt_of_not_le hfull) (Nat.lt_add_of_pos_right hpos)

/-- What the call returns, and what it leaves unread of the answer. -/
def transactStream (req : Dict) (pieces : List Bytes) : Except IpcExc Dict × List Bytes :=
  match encodeRequest P req with
  | .error e => (.error e, pieces)
  | .ok _ =>
    match recvExact 4 [] pieces with
    | (.error e, rest) => (.error e, rest)
    | (.ok header, rest) =>
      let n := ofBigEndian header
      if n = 0 ∨ maxIpcFrame < n then (ipcFrame "IPC_FRAME", rest)
      else match recvExact n [] rest with
        | (.error e, rest) => (.error e, rest)
        | (.ok body, rest) => (decodeResponseFrame P (header ++ body), rest)

/-! ## Reading pieces -/

/-- No read of a stream that goes on is empty. -/
def Pieces (pieces : List Bytes) : Prop := ∀ piece ∈ pieces, piece ≠ []

theorem recv_spec {n : Nat} (hn : 0 < n) {pieces : List Bytes} (h : Pieces pieces) :
    (recv n pieces).1 ++ (recv n pieces).2.flatten = pieces.flatten ∧ (recv n pieces).1.length ≤ n ∧
      Pieces (recv n pieces).2 ∧ ((recv n pieces).1 = [] ↔ pieces = []) := by
  cases pieces with
  | nil => exact ⟨rfl, Nat.zero_le _, h, by simp [recv]⟩
  | cons piece pieces =>
    obtain ⟨hpiece, hpieces⟩ := List.forall_mem_cons.mp h
    rw [recv]
    split
    · rename_i hle
      exact ⟨rfl, hle, hpieces, by simp [hpiece]⟩
    · rename_i hgt
      refine ⟨?_, by simp, ?_, ?_⟩
      · rw [List.flatten_cons, List.flatten_cons, ← List.append_assoc, List.take_append_drop]
      · refine List.forall_mem_cons.mpr ⟨?_, hpieces⟩
        intro hnil
        have := congrArg List.length hnil
        simp only [List.length_drop, List.length_nil] at this
        omega
      · simp only [reduceCtorEq, iff_false]
        intro hnil
        have := congrArg List.length hnil
        simp only [List.length_take, List.length_nil] at this
        omega

/-- The loop returns the next bytes of the stream if there are enough of them, however they are cut
into pieces, and leaves the others. -/
theorem recvExact_enough (n : Nat) (buf : Bytes) {pieces : List Bytes} (h : Pieces pieces)
    (hbuf : buf.length ≤ n) (henough : n ≤ buf.length + pieces.flatten.length) :
    ∃ rest, recvExact n buf pieces = (.ok (buf ++ pieces.flatten.take (n - buf.length)), rest) ∧
      rest.flatten = pieces.flatten.drop (n - buf.length) ∧ Pieces rest := by
  fun_induction recvExact n buf pieces with
  | case1 buf pieces hfull =>
    have hzero : n - buf.length = 0 := by omega
    exact ⟨pieces, by simp [hzero], by simp [hzero], h⟩
  | case2 buf pieces hfull received hclosed =>
    obtain ⟨_, _, _, hnil⟩ := recv_spec (n := n - buf.length) (by omega) h
    rw [hnil.mp hclosed, List.flatten_nil, List.length_nil] at henough
    omega
  | case3 buf pieces hfull received hopen ih =>
    obtain ⟨hsplit, hle, hpieces, _⟩ : received.1 ++ received.2.flatten = pieces.flatten ∧
        received.1.length ≤ n - buf.length ∧ Pieces received.2 ∧ _ :=
      recv_spec (n := n - buf.length) (by omega) h
    rw [← hsplit, List.length_append] at henough
    have hsub : n - (buf ++ received.1).length = n - buf.length - received.1.length := by
      rw [List.length_append]
      omega
    obtain ⟨rest, heq, hrest, hrestPieces⟩ := ih hpieces
      (by rw [List.length_append]; omega) (by rw [List.length_append]; omega)
    refine ⟨rest, ?_, ?_, hrestPieces⟩
    · rw [heq, hsub, ← hsplit, List.take_append, List.append_assoc, List.take_of_length_le hle]
    · rw [hrest, hsub, ← hsplit, List.drop_append, List.drop_eq_nil_of_le hle, List.nil_append]

theorem recvExact_short (n : Nat) (buf : Bytes) {pieces : List Bytes} (h : Pieces pieces)
    (hshort : buf.length + pieces.flatten.length < n) :
    ∃ rest, recvExact n buf pieces = (ipcFrame "ipc connection closed", rest) := by
  fun_induction recvExact n buf pieces with
  | case1 buf pieces hfull => omega
  | case2 buf pieces hfull received hclosed => exact ⟨_, rfl⟩
  | case3 buf pieces hfull received hopen ih =>
    obtain ⟨hsplit, _, hpieces, _⟩ : received.1 ++ received.2.flatten = pieces.flatten ∧
        received.1.length ≤ n - buf.length ∧ Pieces received.2 ∧ _ :=
      recv_spec (n := n - buf.length) (by omega) h
    rw [← hsplit, List.length_append] at hshort
    exact ih hpieces (by rw [List.length_append]; omega)

/-! ## One call -/

variable {P}

/-- The bytes are the UTF-8 of a text that is the JSON of an object. -/
def IsObject (P : Platform) (body : Bytes) (d : Dict) : Prop :=
  ∃ text, decodeUtf8 .strict body = .ok text ∧ loads P text = .ok (.dict d)

/-- The answer at the start of a stream: a body behind its length, which is neither zero nor more than
the limit. -/
def Framed (stream body : Bytes) : Prop :=
  0 < body.length ∧ body.length ≤ maxIpcFrame ∧ (bigEndian 4 body.length ++ body) <+: stream

/-- What decoding a body comes to. -/
def decodeBody (P : Platform) (body : Bytes) : Except IpcExc Dict :=
  match decodeUtf8 .strict body with
  | .error _ => ipcFrame "response is not JSON"
  | .ok text =>
    match loads P text with
    | .error e => if isJsonDecodeError e then ipcFrame "response is not JSON" else .error (.other e)
    | .ok (.dict d) => .ok d
    | .ok _ => ipcFrame "response must be a JSON object"

theorem decodeResponseFrame_frame {body : Bytes} (hpos : 0 < body.length)
    (hmax : body.length ≤ maxIpcFrame) :
    decodeResponseFrame P (bigEndian 4 body.length ++ body) = decodeBody P body := by
  have hfits : body.length < 256 ^ 4 := by
    unfold maxIpcFrame at hmax
    omega
  have hwidth : (bigEndian 4 body.length).length = 4 := by simp
  have hn : ofBigEndian ((bigEndian 4 body.length ++ body).take 4) = body.length := by
    rw [List.take_left' hwidth, ofBigEndian_bigEndian hfits]
  have hbody : ((bigEndian 4 body.length ++ body).drop 4).take body.length = body := by
    rw [List.drop_left' hwidth, List.take_length]
  unfold decodeResponseFrame decodeBody
  rw [if_neg (by rw [List.length_append]; omega)]
  dsimp only
  rw [hn, hbody, if_neg]
  rintro (h | h | h)
  · omega
  · omega
  · rw [List.length_append, hwidth] at h
    omega

/-- The message for a stream that begins with no framed body. -/
def unframedMessage (stream : Bytes) : String :=
  let n := ofBigEndian (stream.take 4)
  if 4 ≤ stream.length ∧ (n = 0 ∨ maxIpcFrame < n) then "IPC_FRAME" else "ipc connection closed"

/-- A call on a stream, whatever its pieces: on a framed body it decodes the body and leaves the rest
unread; on any other stream it is an `IPC_FRAME`. -/
theorem transactStream_framed {req : Dict} {frame : Bytes} (hframe : encodeRequest P req = .ok frame)
    {pieces : List Bytes} (h : Pieces pieces) (body rest : Bytes) (hpos : 0 < body.length)
    (hmax : body.length ≤ maxIpcFrame)
    (hstream : pieces.flatten = bigEndian 4 body.length ++ body ++ rest) :
    ∃ left, transactStream P req pieces = (decodeBody P body, left) ∧ left.flatten = rest := by
  have hwidth : (bigEndian 4 body.length).length = 4 := by simp
  have hfits : body.length < 256 ^ 4 := by
    unfold maxIpcFrame at hmax
    omega
  rw [List.append_assoc] at hstream
  obtain ⟨left, heq, hleft, hpieces⟩ := recvExact_enough 4 [] h (Nat.zero_le _)
    (by rw [hstream, List.length_append]; omega)
  rw [hstream, List.nil_append, List.length_nil, Nat.sub_zero, List.take_left' hwidth] at heq
  rw [hstream, List.length_nil, Nat.sub_zero, List.drop_left' hwidth] at hleft
  obtain ⟨left', heq', hleft', _⟩ := recvExact_enough body.length [] hpieces
    (Nat.zero_le _) (by rw [hleft, List.length_append]; omega)
  rw [hleft, List.nil_append, List.length_nil, Nat.sub_zero, List.take_left' rfl] at heq'
  rw [hleft, List.length_nil, Nat.sub_zero, List.drop_left' rfl] at hleft'
  refine ⟨left', ?_, hleft'⟩
  unfold transactStream
  simp only [hframe, heq, ofBigEndian_bigEndian hfits]
  rw [if_neg (by omega), heq']
  simp only [decodeResponseFrame_frame hpos hmax]

theorem transactStream_unframed {req : Dict} {frame : Bytes} (hframe : encodeRequest P req = .ok frame)
    {pieces : List Bytes} (h : Pieces pieces) (hnone : ∀ body, ¬ Framed pieces.flatten body) :
    ∃ left, transactStream P req pieces = (ipcFrame (unframedMessage pieces.flatten), left) := by
  unfold transactStream unframedMessage
  simp only [hframe]
  by_cases hheader : 4 ≤ pieces.flatten.length
  · obtain ⟨left, heq, hleft, hpieces⟩ := recvExact_enough 4 [] h (Nat.zero_le _)
      (by simpa using hheader)
    rw [List.nil_append, List.length_nil, Nat.sub_zero] at heq
    rw [List.length_nil, Nat.sub_zero] at hleft
    simp only [heq, hheader, true_and]
    generalize hn : ofBigEndian (pieces.flatten.take 4) = n
    by_cases hbounds : n = 0 ∨ maxIpcFrame < n
    · rw [if_pos hbounds, if_pos hbounds]
      exact ⟨left, rfl⟩
    · rw [if_neg hbounds, if_neg hbounds]
      rw [not_or, Nat.not_lt] at hbounds
      by_cases hbody : n ≤ left.flatten.length
      · refine absurd ?_ (hnone (left.flatten.take n))
        have hlength : (left.flatten.take n).length = n := by
          rw [List.length_take]
          omega
        refine ⟨by omega, by omega, left.flatten.drop n, ?_⟩
        have hfour : (pieces.flatten.take 4).length = 4 := by
          rw [List.length_take]
          omega
        have hback := bigEndian_ofBigEndian (pieces.flatten.take 4)
        rw [hfour, hn] at hback
        rw [hlength, hback, List.append_assoc, List.take_append_drop, hleft, List.take_append_drop]
      · obtain ⟨left', heq'⟩ := recvExact_short n [] hpieces
          (by rw [List.length_nil, Nat.zero_add]; omega)
        rw [heq']
        exact ⟨left', rfl⟩
  · obtain ⟨left, heq⟩ := recvExact_short 4 [] h
      (by rw [List.length_nil, Nat.zero_add]; omega)
    rw [heq, if_neg fun h => hheader h.1]
    exact ⟨left, rfl⟩

/-- One request and one stream: the request is in its frame, and the call returns an object exactly
when the stream begins with it, reads no further, does not look at the pieces, and raises
`RavenIpcError` otherwise. -/
structure FramedExchange (P : Platform) (req : Dict) (frame : Bytes) (pieces : List Bytes) : Prop where
  request : decodeResponseFrame P frame = .ok req
  answer : ∀ d, (transactStream P req pieces).1 = .ok d ↔
    ∃ body, Framed pieces.flatten body ∧ IsObject P body d
  consumed : ∀ d, (transactStream P req pieces).1 = .ok d → ∀ body, Framed pieces.flatten body →
    (transactStream P req pieces).2.flatten = pieces.flatten.drop (4 + body.length)
  fragments : ∀ others, Pieces others → others.flatten = pieces.flatten →
    (transactStream P req others).1 = (transactStream P req pieces).1
  otherwise : (∀ d, (transactStream P req pieces).1 ≠ .ok d) →
    ∃ code message, (transactStream P req pieces).1 = .error (.ipc code message)

/-- Where `json.loads` does not take a body it is because it is no JSON, and not because the body nests
too deep or has an integer of too many digits. -/
def WithinLimits (P : Platform) (stream : Bytes) : Prop :=
  ∀ body text e, Framed stream body → decodeUtf8 .strict body = .ok text → loads P text = .error e →
    isJsonDecodeError e = true

theorem Framed.unique {stream a b : Bytes} (ha : Framed stream a) (hb : Framed stream b) : a = b := by
  obtain ⟨_, hamax, s, hs⟩ := ha
  obtain ⟨_, hbmax, t, ht⟩ := hb
  unfold maxIpcFrame at hamax hbmax
  rw [← ht, List.append_assoc, List.append_assoc] at hs
  obtain ⟨hheader, hrest⟩ := List.append_inj hs (by simp)
  have hlength := congrArg ofBigEndian hheader
  rw [ofBigEndian_bigEndian (by omega), ofBigEndian_bigEndian (by omega)] at hlength
  exact (List.append_inj hrest hlength).1

theorem decodeBody_ok {body : Bytes} {d : Dict} : decodeBody P body = .ok d ↔ IsObject P body d := by
  unfold decodeBody IsObject
  cases hdecode : decodeUtf8 .strict body with
  | error e => exact iff_of_false (fun h => by cases h) (fun ⟨_, h, _⟩ => by cases h)
  | ok text =>
    simp only [Except.ok.injEq, exists_eq_left']
    cases hloads : loads P text with
    | error e =>
      refine iff_of_false (fun h => ?_) (fun h => by cases h)
      dsimp only at h
      split at h <;> cases h
    | ok v =>
      cases v <;> simp [ipcFrame]

/-- A body is refused as no frame, unless `json.loads` came to its limits. -/
theorem decodeBody_error {body : Bytes} (hlimits : ∀ text e, decodeUtf8 .strict body = .ok text →
    loads P text = .error e → isJsonDecodeError e = true) (h : ∀ d, decodeBody P body ≠ .ok d) :
    ∃ code message, decodeBody P body = .error (.ipc code message) := by
  unfold decodeBody at h ⊢
  cases hdecode : decodeUtf8 .strict body with
  | error e => exact ⟨_, _, rfl⟩
  | ok text =>
    rw [hdecode] at h
    cases hloads : loads P text with
    | error e =>
      simp only [hloads, hlimits text e hdecode hloads, if_true]
      exact ⟨_, _, rfl⟩
    | ok v =>
      simp only [hloads] at h ⊢
      cases v with
      | dict d => exact absurd rfl (h d)
      | _ => exact ⟨_, _, rfl⟩

theorem mapError_ok {α : Type} {x : Except PyExc α} {a : α} :
    x.mapError IpcExc.other = .ok a ↔ x = .ok a := by
  cases x with
  | error e => exact iff_of_false (fun h => by cases h) (fun h => by cases h)
  | ok b => exact ⟨fun h => congrArg Except.ok (Except.ok.inj h), fun h => congrArg Except.ok (Except.ok.inj h)⟩

theorem encodeRequest_ok {req : Dict} {frame : Bytes} (h : encodeRequest P req = .ok frame) :
    ∃ text body, dumpsAscii P (.dict req) = .ok text ∧ encodeUtf8 text = .ok body ∧
      body.length ≤ maxIpcFrame ∧ frame = bigEndian 4 body.length ++ body := by
  simp only [encodeRequest, bind_ok, mapError_ok] at h
  obtain ⟨_, _, text, htext, body, hbody, h⟩ := h
  split at h
  · cases h
  · rename_i hmax
    exact ⟨text, body, htext, hbody, Nat.le_of_not_lt hmax, (Except.ok.inj h).symm⟩

/-- A frame is read back as what its text is read as. -/
theorem decode_encodeRequest (hP : ReprFloats P) {req : Dict} {frame : Bytes}
    (h : encodeRequest P req = .ok frame) :
    decodeResponseFrame P frame = .ok (dictOf (rereadMembers req)) := by
  obtain ⟨text, body, htext, hbody, hmax, rfl⟩ := encodeRequest_ok h
  have hloads := loads_dumpsAscii hP htext
  have hpos : 0 < body.length := by
    by_contra hzero
    obtain rfl := List.eq_nil_of_length_eq_zero (Nat.le_zero.mp (Nat.le_of_not_lt hzero))
    have hdecode : decodeUtf8 .strict [] = .ok text := decodeUtf8_encodeUtf8 hbody .strict
    obtain rfl : [] = text := Except.ok.inj hdecode
    have hnone : loads P [] = expectingValue := by
      unfold loads
      cases P.recursionLimit <;> rfl
    rw [hnone] at hloads
    cases hloads
  rw [decodeResponseFrame_frame hpos hmax, decodeBody, decodeUtf8_encodeUtf8 hbody]
  simp only [hloads, reread]

/-- A request and an answer are exchanged as framed exactly when the request survives its text and
`json.loads` stays within its limits. -/
theorem framedExchange_iff (hP : ReprFloats P) {req : Dict} (hkeyed : Keyed (.dict req)) {frame : Bytes}
    (hframe : encodeRequest P req = .ok frame) {pieces : List Bytes} (hpieces : Pieces pieces) :
    FramedExchange P req frame pieces ↔ Survives (.dict req) ∧ WithinLimits P pieces.flatten := by
  have hrequest : decodeResponseFrame P frame = .ok req ↔ Survives (.dict req) := by
    rw [decode_encodeRequest hP hframe, ← reread_eq_iff (.dict req) hkeyed, reread, Value.dict.injEq,
      Except.ok.injEq]
  have hframed : ∀ {body : Bytes} {others : List Bytes}, Pieces others → Framed others.flatten body →
      ∃ left, transactStream P req others = (decodeBody P body, left) ∧
        left.flatten = others.flatten.drop (4 + body.length) := by
    rintro body others hothers ⟨hpos, hmax, rest, hrest⟩
    obtain ⟨left, heq, hleft⟩ := transactStream_framed hframe hothers body rest hpos hmax hrest.symm
    refine ⟨left, heq, ?_⟩
    rw [hleft, ← hrest, List.drop_left' (by simp)]
  constructor
  · intro h
    refine ⟨hrequest.mp h.request, ?_⟩
    intro body text e hbody htext hloads
    obtain ⟨left, heq, _⟩ := hframed hpieces hbody
    have hdecode : decodeBody P body =
        if isJsonDecodeError e then ipcFrame "response is not JSON" else .error (.other e) := by
      unfold decodeBody
      simp only [htext, hloads]
    by_contra hother
    rw [hdecode, if_neg hother] at heq
    obtain ⟨_, _, herror⟩ := h.otherwise fun d hd => by rw [heq] at hd; cases hd
    rw [heq] at herror
    cases herror
  · rintro ⟨hsurvives, hlimits⟩
    by_cases hsome : ∃ body, Framed pieces.flatten body
    · obtain ⟨body, hbody⟩ := hsome
      obtain ⟨left, heq, hleft⟩ := hframed hpieces hbody
      refine ⟨hrequest.mpr hsurvives, ?_, ?_, ?_, ?_⟩
      · intro d
        rw [heq, decodeBody_ok]
        constructor
        · exact fun hobject => ⟨body, hbody, hobject⟩
        · rintro ⟨other, hother, hobject⟩
          rwa [hbody.unique hother]
      · intro d _ other hother
        rw [heq, ← hbody.unique hother]
        exact hleft
      · intro others hothers hsame
        obtain ⟨left', heq', _⟩ := hframed hothers (hsame ▸ hbody)
        rw [heq, heq']
      · intro hno
        rw [heq] at hno ⊢
        exact decodeBody_error (fun text e => hlimits body text e hbody) hno
    · have hnone : ∀ body, ¬ Framed pieces.flatten body := fun body hbody => hsome ⟨body, hbody⟩
      obtain ⟨left, heq⟩ := transactStream_unframed hframe hpieces hnone
      refine ⟨hrequest.mpr hsurvives, ?_, ?_, ?_, ?_⟩
      · intro d
        rw [heq]
        refine iff_of_false (fun h => by cases h) ?_
        rintro ⟨body, hbody, _⟩
        exact hnone body hbody
      · exact fun d _ body hbody => absurd hbody (hnone body)
      · intro others hothers hsame
        obtain ⟨left', heq'⟩ := transactStream_unframed hframe hothers (hsame ▸ hnone)
        rw [heq, heq', hsame]
      · exact fun _ => ⟨_, _, by rw [heq]; rfl⟩

/-! ## An answer that nests too deep -/

theorem scanOnce_deep (n : Nat) (rest : PyStr) :
    scanOnce P n (List.replicate (n + 1) openList ++ rest) = recursionError := by
  have hopen : openList ≠ quote := by decide
  have hspace : isJsonSpace openList = false := by decide
  have hne : openList ≠ closeList := by decide
  induction n with
  | zero => simp [scanOnce, scanValue, hopen]
  | succ n ih =>
    have hhead : (List.replicate (n + 1) openList ++ rest).head? ≠ some closeList := by
      rw [List.replicate_succ, List.cons_append, List.head?_cons]
      exact fun h => hne (Option.some.inj h)
    have hskip : skipSpace (List.replicate (n + 1) openList ++ rest) =
        List.replicate (n + 1) openList ++ rest := by
      rw [List.replicate_succ, List.cons_append, skipSpace_cons hspace]
    rw [List.replicate_succ, List.cons_append]
    simp only [scanOnce, scanValue, hopen, if_false, if_true, scanList, hskip, hhead, ih]
    rfl

/-- A platform that writes a floating point number as its bits in decimal, with a point. -/
def pointedPlatform : Platform where
  __ := Platform.ofTable []
  reprValue
    | .float bits => natDecimal bits.toNat ++ lit ".0"
    | _ => lit "?"
  parseFloat s := UInt64.ofNat ((s.takeWhile isDigit).foldl (fun n c => n * 10 + (c.val - 48)) 0)

theorem pointedPlatform_floats : ReprFloats pointedPlatform where
  literal bits _ := by
    refine ⟨⟨false, bits.toNat, [0], none, Or.inl (by simp), by simp⟩, ?_⟩
    simp only [FloatLiteral.text, FloatLiteral.sign, FloatLiteral.point, FloatLiteral.power,
      Bool.false_eq_true, if_false, List.nil_append, List.append_nil]
    rfl
  parse bits _ := by
    show UInt64.ofNat (((natDecimal bits.toNat ++ lit ".0").takeWhile isDigit).foldl
      (fun n c => n * 10 + (c.val - 48)) 0) = bits
    have hvalue : (natDecimal bits.toNat).foldl (fun n c => n * 10 + (c.val - 48)) 0 = bits.toNat := by
      have hdigits : ∀ (ds : List Nat) (n : Nat), (∀ d ∈ ds, d < 10) →
          (ds.map digitChar).foldl (fun n c => n * 10 + (c.val - 48)) n =
            ds.foldl (fun n d => n * 10 + d) n := by
        intro ds
        induction ds with
        | nil => exact fun n _ => rfl
        | cons d ds ih =>
          intro n hds
          have hd := hds d List.mem_cons_self
          have hval : (digitChar d).val - 48 = d := by
            simp only [digitChar]
            omega
          rw [List.map_cons, List.foldl_cons, List.foldl_cons, hval]
          exact ih _ fun e he => hds e (List.mem_cons_of_mem _ he)
      rw [natDecimal_eq, hdigits _ 0 fun d hd => decimalDigits_lt hd, decimalDigits_value]
    have hpoint : ∀ c ∈ (lit ".0").head?, isDigit c = false := by
      intro c hc
      obtain rfl := Option.some.inj hc
      decide
    rw [(digits_span isDigit_natDecimal hpoint).1, hvalue, UInt64.ofNat_toNat]

def pingRequest : Dict := [(lit "op", .str (lit "ping"))]

theorem pingRequest_encodes : ∃ frame, encodeRequest pointedPlatform pingRequest = .ok frame :=
  ⟨_, rfl⟩

theorem framedExchange_ping : ∃ frame, encodeRequest pointedPlatform pingRequest = .ok frame ∧
    (FramedExchange pointedPlatform pingRequest frame [[0, 0], [0, 2, 123], [125, 7]] ↔
      Survives (.dict pingRequest) ∧
        WithinLimits pointedPlatform ([[0, 0], [0, 2, 123], [125, 7]] : List Bytes).flatten) := by
  obtain ⟨frame, hframe⟩ := pingRequest_encodes
  refine ⟨frame, hframe, framedExchange_iff pointedPlatform_floats ?_ hframe
    (by unfold Pieces; decide)⟩
  exact ⟨by decide, trivial, trivial⟩

/-- An answer of brackets alone raises `RecursionError`. -/
theorem deep_answer_raises : ∃ frame body,
    encodeRequest pointedPlatform pingRequest = .ok frame ∧
    encodeUtf8 (List.replicate 1001 openList) = .ok body ∧
    (transactStream pointedPlatform pingRequest [bigEndian 4 body.length ++ body]).1 =
      .error (.other ⟨.recursionError, lit "maximum recursion depth exceeded"⟩) ∧
    ¬ FramedExchange pointedPlatform pingRequest frame [bigEndian 4 body.length ++ body] := by
  obtain ⟨frame, hframe⟩ := pingRequest_encodes
  obtain ⟨body, hbody, hlength⟩ := encodeUtf8_of_ascii (s := List.replicate 1001 openList)
    (by rw [List.all_replicate]; rfl)
  rw [List.length_replicate] at hlength
  have hpieces : Pieces [bigEndian 4 body.length ++ body] := by
    intro piece hpiece
    obtain rfl := List.mem_singleton.mp hpiece
    intro hnil
    have := congrArg List.length hnil
    simp [hlength] at this
  obtain ⟨left, heq, _⟩ := transactStream_framed hframe hpieces body []
    (by omega) (by unfold maxIpcFrame; omega) (by simp)
  have hloads : loads pointedPlatform (List.replicate 1001 openList) = recursionError := by
    have hscan := scanOnce_deep (P := pointedPlatform) 1000 []
    rw [List.append_nil] at hscan
    have hspace : isJsonSpace openList = false := by decide
    have hskip : skipSpace (List.replicate (1000 + 1) openList) = List.replicate (1000 + 1) openList := by
      rw [List.replicate_succ, skipSpace_cons hspace]
    have hmark : (List.replicate 1001 openList).head? ≠ some byteOrderMark := by
      rw [List.replicate_succ, List.head?_cons]
      decide
    unfold loads
    rw [if_neg hmark]
    have hlimit : pointedPlatform.recursionLimit = 1000 := rfl
    rw [hlimit, hskip, hscan]
    rfl
  have hraised : (transactStream pointedPlatform pingRequest [bigEndian 4 body.length ++ body]).1 =
      .error (.other ⟨.recursionError, lit "maximum recursion depth exceeded"⟩) := by
    rw [heq, decodeBody, decodeUtf8_encodeUtf8 hbody]
    simp only [hloads]
    rfl
  refine ⟨frame, body, hframe, hbody, hraised, fun h => ?_⟩
  obtain ⟨_, _, herror⟩ := h.otherwise fun d hd => by rw [hraised] at hd; cases hd
  rw [hraised] at herror
  cases herror

end Rdap.Agent
