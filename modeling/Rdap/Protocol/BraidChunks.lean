import Rdap.Braid.WireReader
import Rdap.Identity.Signing
import Rdap.Lib.KeyedTable
import Rdap.Lib.Layout
import Mathlib.Algebra.Order.BigOperators.Group.List

/-!
# Braid chunks

A payload is sent in numbered chunks, each bound to its epoch, its type, its number and the session by a
digest. The receiver stores what belongs to its epoch and joins the parts when all of them are there.
-/

set_option autoImplicit false

namespace Rdap.Lib

/-- A table with its keys in a list weighs no more than the list. -/
theorem KeyedTable.weight_le_sum {κ ν : Type} [DecidableEq κ] {t : KeyedTable κ ν} {keys : List κ}
    (hkeys : ∀ row ∈ t.rows, row.1 ∈ keys) {f : κ × ν → Nat} {g : κ → Nat}
    (hle : ∀ row ∈ t.rows, f row ≤ g row.1) : t.weight f ≤ (keys.map g).sum := by
  have hsubset : t.rows.map Prod.fst ⊆ keys := by
    intro k hk
    obtain ⟨row, hrow, rfl⟩ := List.mem_map.mp hk
    exact hkeys row hrow
  obtain ⟨part, hperm, hpart⟩ := List.subperm_of_subset t.nodup hsubset
  calc t.weight f ≤ (t.rows.map fun row => g row.1).sum := List.sum_le_sum hle
    _ = ((t.rows.map Prod.fst).map g).sum := by rw [List.map_map]; rfl
    _ = (part.map g).sum := (hperm.map g).sum_eq.symm
    _ ≤ (keys.map g).sum := (hpart.map g).sum_le_sum fun _ _ => Nat.zero_le _

end Rdap.Lib

namespace Rdap.Protocol
open Python Lib Braid Identity

def braidChunkDomain : Bytes := asciiBytes (lit "ATSAM/v2/braid-chunk")

/-- `RVBC1` and three zeros -/
def braidMagic : Bytes := [0x52, 0x56, 0x42, 0x43, 0x31, 0, 0, 0]

def braidHeaderLen : Nat := 23
def braidDigestLen : Nat := 32
def braidMaxTotalPayloadBytes : Nat := 8192
def braidMaxPayload : Nat := braidMaxTotalPayloadBytes
def braidMaxChunksPerEpoch : Nat := 64

def braidAllowedTypes : List Nat := [0, 1, 2, 3, 4, 5, 6]
/-- `None` and `Ct1Ack` -/
def braidEmptyPayloadTypes : List Nat := [0, 4]
def braidDataPayloadTypes : List Nat := [1, 2, 3, 5, 6]

structure BraidChunk where
  epoch : Nat
  type : Nat
  chunkIndex : Nat
  payload : Bytes
  sessionId : Bytes
  bindingDigest : Bytes := []
  deriving DecidableEq

def requireSessionId (sessionId : Bytes) : Except PyExc Bytes := do
  orRaise (sessionId.length = 32) (lit "session_id must be 32 bytes")
  return sessionId

def requireEpochU64 (epoch : Nat) : Except PyExc Nat := do
  orRaise (epoch ≤ 0xFFFFFFFFFFFFFFFF) (lit "braid epoch must be u64")
  return epoch

def validateBraidPayloadRules (typ : Nat) (payload : Bytes) (chunkIndex : Nat) : Except PyExc Unit := do
  orRaise (typ ∈ braidAllowedTypes) (lit "unknown braid chunk type")
  if typ ∈ braidEmptyPayloadTypes then do
    orRaise (payload.length = 0) (lit "braid empty-type payload must be empty")
    orRaise (chunkIndex = 0) (lit "braid empty-type chunk_index must be 0")
  else if typ ∈ braidDataPayloadTypes then
    orRaise (payload.length ≠ 0) (lit "braid data-type payload must be non-empty")
  else return ()

variable (P : Platform)

def braidBinding (chunk : BraidChunk) : Except PyExc Bytes := do
  let sid ← requireSessionId chunk.sessionId
  let epoch ← requireEpochU64 chunk.epoch
  let index ← toBytes 4 chunk.chunkIndex
  return P.sha256 (braidChunkDomain ++ bigEndian 8 epoch ++ u8 chunk.type ++ index ++ chunk.payload ++ sid)

def encodeBraidChunk (chunk : BraidChunk) : Except PyExc Bytes := do
  let _ ← requireSessionId chunk.sessionId
  let _ ← requireEpochU64 chunk.epoch
  validateBraidPayloadRules chunk.type chunk.payload chunk.chunkIndex
  orRaise (chunk.payload.length ≤ braidMaxPayload) (lit "braid payload exceeds max")
  let dig ← braidBinding P chunk
  let index ← toBytes 4 chunk.chunkIndex
  return [braidMagic, bigEndian 8 chunk.epoch, [UInt8.ofNat chunk.type], index,
    bigEndian 2 chunk.payload.length, chunk.payload, dig].flatten

def decodeBraidChunk (wire sessionId : Bytes) : Except PyExc BraidChunk := do
  let sessionId ← requireSessionId sessionId
  orRaise (braidHeaderLen + braidDigestLen ≤ wire.length) (lit "short braid chunk")
  orRaise (wire.take 8 = braidMagic) (lit "bad braid magic")
  let typ := (wire.getD 16 0).toNat
  orRaise (typ ∈ braidAllowedTypes) (lit "unknown braid chunk type")
  let plen := ofBigEndian ((wire.drop 21).take 2)
  orRaise (wire.length = braidHeaderLen + plen + braidDigestLen) (lit "braid chunk length mismatch")
  orRaise (plen ≤ braidMaxPayload) (lit "braid payload exceeds max")
  let epoch := ofBigEndian ((wire.drop 8).take 8)
  let idx := ofBigEndian ((wire.drop 17).take 4)
  let payload := (wire.drop 23).take plen
  let dig := (wire.drop (23 + plen)).take braidDigestLen
  validateBraidPayloadRules typ payload idx
  let chunk : BraidChunk :=
    { epoch, type := typ, chunkIndex := idx, payload, sessionId, bindingDigest := dig }
  let binding ← braidBinding P chunk
  orRaise (binding = dig) (lit "braid chunk tamper")
  return chunk

/-! ## The codec -/

/-- What the encoder takes. -/
structure BraidChunk.Valid (c : BraidChunk) : Prop where
  session : c.sessionId.length = 32
  epoch : c.epoch < 256 ^ 8
  type : c.type ∈ braidAllowedTypes
  empty : c.type ∈ braidEmptyPayloadTypes → c.payload = [] ∧ c.chunkIndex = 0
  data : c.type ∈ braidDataPayloadTypes → c.payload ≠ []
  payload : c.payload.length ≤ braidMaxPayload
  index : c.chunkIndex < 256 ^ 4

/-- The digest that binds a chunk. -/
def BraidChunk.digest (c : BraidChunk) : Bytes :=
  P.sha256 (braidChunkDomain ++ bigEndian 8 c.epoch ++ u8 c.type ++ bigEndian 4 c.chunkIndex ++ c.payload ++
    c.sessionId)

def BraidChunk.fields (c : BraidChunk) : List Bytes :=
  [braidMagic, bigEndian 8 c.epoch, [UInt8.ofNat c.type], bigEndian 4 c.chunkIndex,
    bigEndian 2 c.payload.length, c.payload, c.digest P]

def BraidChunk.wire (c : BraidChunk) : Bytes := (c.fields P).flatten

/-- The widths of the fields of a chunk with a payload of this length. -/
def braidWidths (plen : Nat) : List Nat := [8, 8, 1, 4, 2, plen, 32]

variable {P}

theorem validateBraidPayloadRules_ok {typ chunkIndex : Nat} {payload : Bytes} {u : Unit} :
    validateBraidPayloadRules typ payload chunkIndex = .ok u ↔ typ ∈ braidAllowedTypes ∧
      (typ ∈ braidEmptyPayloadTypes → payload = [] ∧ chunkIndex = 0) ∧
      (typ ∈ braidDataPayloadTypes → payload ≠ []) := by
  have hdisjoint : ∀ t ∈ braidEmptyPayloadTypes, t ∉ braidDataPayloadTypes := by decide
  unfold validateBraidPayloadRules
  by_cases hempty : typ ∈ braidEmptyPayloadTypes
  · have hnot := hdisjoint typ hempty
    simp only [bind_ok, orRaise_ok, exists_const, if_pos hempty, List.length_eq_zero_iff]
    exact ⟨fun h => ⟨h.1, fun _ => h.2, fun hd => absurd hd hnot⟩, fun h => ⟨h.1, h.2.1 hempty⟩⟩
  · by_cases hdata : typ ∈ braidDataPayloadTypes
    · simp only [bind_ok, orRaise_ok, exists_const, if_neg hempty, if_pos hdata, ne_eq, List.length_eq_zero_iff]
      exact ⟨fun h => ⟨h.1, fun he => absurd he hempty, fun _ => h.2⟩, fun h => ⟨h.1, h.2.2 hdata⟩⟩
    · simp only [bind_ok, orRaise_ok, exists_const, if_neg hempty, if_neg hdata, pure_ok]
      exact ⟨fun h => ⟨h.1, fun he => absurd he hempty, fun hd => absurd hd hdata⟩, fun h => ⟨h.1, trivial⟩⟩

theorem toBytes_nat {w n : Nat} {b : Bytes} : toBytes w (n : Int) = .ok b ↔ n < 256 ^ w ∧ b = bigEndian w n := by
  have hword : Word w (n : Int) ↔ n < 256 ^ w := by
    refine ⟨?_, word_natCast⟩
    rintro ⟨_, h⟩
    exact_mod_cast h
  rw [toBytes_ok, hword]
  simp [word]

theorem braidBinding_ok {c : BraidChunk} {dig : Bytes} :
    braidBinding P c = .ok dig ↔
      c.sessionId.length = 32 ∧ c.epoch < 256 ^ 8 ∧ c.chunkIndex < 256 ^ 4 ∧ dig = c.digest P := by
  unfold braidBinding requireSessionId requireEpochU64 BraidChunk.digest
  simp only [bind_ok, orRaise_ok, pure_ok, exists_const, toBytes_nat]
  constructor
  · rintro ⟨_, ⟨hsession, rfl⟩, _, ⟨hepoch, rfl⟩, _, ⟨hindex, rfl⟩, rfl⟩
    exact ⟨hsession, by omega, hindex, rfl⟩
  · rintro ⟨hsession, hepoch, hindex, rfl⟩
    exact ⟨_, ⟨hsession, rfl⟩, _, ⟨by omega, rfl⟩, _, ⟨hindex, rfl⟩, rfl⟩

theorem encodeBraidChunk_ok {c : BraidChunk} {wire : Bytes} :
    encodeBraidChunk P c = .ok wire ↔ c.Valid ∧ wire = c.wire P := by
  unfold encodeBraidChunk requireSessionId requireEpochU64
  simp only [bind_ok, orRaise_ok, pure_ok, exists_const, toBytes_nat, validateBraidPayloadRules_ok, braidBinding_ok]
  constructor
  · rintro ⟨_, ⟨hsession, _⟩, _, ⟨hepoch, _⟩, ⟨htype, hempty, hdata⟩, hpayload, _, ⟨_, _, _, rfl⟩, _,
      ⟨hindex, rfl⟩, rfl⟩
    exact ⟨⟨hsession, by omega, htype, hempty, hdata, hpayload, hindex⟩, rfl⟩
  · rintro ⟨h, rfl⟩
    have hepoch := h.epoch
    exact ⟨_, ⟨h.session, rfl⟩, _, ⟨by omega, rfl⟩, ⟨h.type, h.empty, h.data⟩, h.payload, _,
      ⟨h.session, h.epoch, h.index, rfl⟩, _, ⟨h.index, rfl⟩, rfl⟩

theorem fields_widths (c : BraidChunk) : (c.fields P).map List.length = braidWidths c.payload.length := by
  simp [BraidChunk.fields, braidWidths, BraidChunk.digest, P.sha256_length, braidMagic]

/-- The slices that the decoder takes are the stretches of the fields. -/
theorem cut_braidWidths (plen : Nat) (wire : Bytes) : cut (braidWidths plen) wire =
    [wire.take 8, (wire.drop 8).take 8, (wire.drop 16).take 1, (wire.drop 17).take 4, (wire.drop 21).take 2,
      (wire.drop 23).take plen, (wire.drop (23 + plen)).take 32] := by
  simp [cut, braidWidths, List.drop_drop]

/-- Only the wire form of a chunk is decoded. -/
theorem decodeBraidChunk_ok {wire sessionId : Bytes} {c : BraidChunk}
    (h : decodeBraidChunk P wire sessionId = .ok c) :
    c.Valid ∧ wire = c.wire P ∧ sessionId = c.sessionId ∧ c.bindingDigest = c.digest P := by
  unfold decodeBraidChunk requireSessionId at h
  simp only [bind_ok, orRaise_ok, pure_ok, exists_const, validateBraidPayloadRules_ok, braidBinding_ok] at h
  obtain ⟨_, ⟨hsession, rfl⟩, _, hmagic, htype, hlength, hpayload, ⟨_, hempty, hdata⟩, _,
    ⟨_, hepoch, hindex, rfl⟩, hdigest, rfl⟩ := h
  have hsum : wire.length = (braidWidths (ofBigEndian ((wire.drop 21).take 2))).sum := by
    rw [hlength]
    simp [braidWidths, braidHeaderLen, braidDigestLen]
    omega
  have hwidths := cut_lengths (Nat.le_of_eq hsum.symm)
  rw [cut_braidWidths] at hwidths
  simp only [List.map_cons, List.map_nil, braidWidths, List.cons.injEq, and_true] at hwidths
  obtain ⟨_, hepochLen, _, hindexLen, hplenLen, hpayloadLen, _⟩ := hwidths
  have hflat := flatten_cut (braidWidths (ofBigEndian ((wire.drop 21).take 2))) wire
  rw [← hsum, List.take_length, cut_braidWidths] at hflat
  have hroom : 16 < wire.length := by
    rw [hlength]
    simp only [braidHeaderLen, braidDigestLen]
    omega
  have hbyte := take_one_drop 0 hroom
  refine ⟨⟨hsession, hepoch, htype, hempty, hdata, ?_, hindex⟩, ?_, rfl, hdigest.symm⟩
  · rw [hpayloadLen]
    exact hpayload
  · unfold BraidChunk.wire BraidChunk.fields
    rw [hdigest]
    dsimp only
    rw [bigEndian_stretch hepochLen, bigEndian_stretch hindexLen, hpayloadLen, bigEndian_stretch hplenLen,
      UInt8.ofNat_toNat, ← hbyte, ← hmagic]
    exact hflat.symm

/-- The wire form of a chunk is decoded. -/
theorem decodeBraidChunk_wire {c : BraidChunk} (h : c.Valid) :
    decodeBraidChunk P (c.wire P) c.sessionId = .ok { c with bindingDigest := c.digest P } := by
  have hcut := cut_flatten (fields_widths (P := P) c)
  change cut _ (c.wire P) = _ at hcut
  rw [cut_braidWidths] at hcut
  simp only [BraidChunk.fields, List.cons.injEq, and_true] at hcut
  obtain ⟨hmagic, hepoch, htype, hindex, hplen, hpayload, hdigest⟩ := hcut
  have hsize : c.payload.length < 256 ^ 2 := by
    have hmax := h.payload
    have hlimit : braidMaxPayload < 256 ^ 2 := by decide
    omega
  have hlength : (c.wire P).length = braidHeaderLen + c.payload.length + braidDigestLen := by
    rw [BraidChunk.wire, List.length_flatten, fields_widths]
    simp [braidWidths, braidHeaderLen, braidDigestLen]
    omega
  have hroom : 16 < (c.wire P).length := by
    rw [hlength]
    simp only [braidHeaderLen, braidDigestLen]
    omega
  have hsmall : c.type < 256 := by
    have hall : ∀ t ∈ braidAllowedTypes, t < 256 := by decide
    exact hall c.type h.type
  have hbyte : ((c.wire P).getD 16 0).toNat = c.type := by
    rw [take_one_drop 0 hroom, List.cons.injEq] at htype
    rw [htype.1, UInt8.toNat_ofNat', Nat.mod_eq_of_lt hsmall]
  have hshort : braidHeaderLen + braidDigestLen ≤ (c.wire P).length := by omega
  unfold decodeBraidChunk requireSessionId
  rw [hmagic, hbyte, hplen, hepoch, hindex, ofBigEndian_bigEndian hsize, ofBigEndian_bigEndian h.epoch,
    ofBigEndian_bigEndian h.index]
  have hdigest' : ((c.wire P).drop (23 + c.payload.length)).take braidDigestLen = c.digest P := hdigest
  dsimp only
  rw [hpayload, hdigest']
  simp only [bind_ok, orRaise_ok, pure_ok, exists_const, validateBraidPayloadRules_ok, braidBinding_ok]
  exact ⟨_, ⟨h.session, rfl⟩, hshort, trivial, h.type, hlength, h.payload, ⟨h.type, h.empty, h.data⟩, _,
    ⟨h.session, h.epoch, h.index, rfl⟩, rfl, rfl⟩

/-! ## Reassembly -/

/-- What `ingest` answers. -/
inductive Ingested where
  | epochMismatch | unknownType | indexOutOfRange | duplicateChunk | chunkCapExceeded | byteCapExceeded | stored
  deriving DecidableEq, Repr

structure BraidReassembly where
  epoch : Nat
  expectedCount : Nat
  parts : KeyedTable Nat Bytes := .empty
  totalPayloadBytes : Nat := 0
  maxChunks : Nat := braidMaxChunksPerEpoch
  maxTotalBytes : Nat := braidMaxTotalPayloadBytes

namespace BraidReassembly

/-- The constructor, with `__post_init__`. -/
def start (epoch expectedCount : Nat) : Except PyExc BraidReassembly := do
  let r : BraidReassembly := { epoch, expectedCount }
  orRaise (0 < r.expectedCount ∧ r.expectedCount ≤ r.maxChunks) (lit "braid expected_count out of bounds")
  return r

def ingest (r : BraidReassembly) (chunk : BraidChunk) : Ingested × BraidReassembly :=
  if chunk.epoch ≠ r.epoch then (.epochMismatch, r)
  else if chunk.type ∉ braidAllowedTypes then (.unknownType, r)
  else if chunk.chunkIndex ≥ r.expectedCount then (.indexOutOfRange, r)
  else if r.parts.contains chunk.chunkIndex = true then (.duplicateChunk, r)
  else if r.parts.count ≥ r.maxChunks then (.chunkCapExceeded, r)
  else
    let nxt := r.totalPayloadBytes + chunk.payload.length
    if nxt > r.maxTotalBytes then (.byteCapExceeded, r)
    else (.stored, { r with parts := r.parts.set chunk.chunkIndex chunk.payload, totalPayloadBytes := nxt })

def tryComplete (r : BraidReassembly) : Option Bytes :=
  if (List.range r.expectedCount).any fun i => !r.parts.contains i then none
  else some ((List.range r.expectedCount).flatMap fun i => (r.parts.get? i).getD [])

end BraidReassembly

/-- A wire is decoded and ingested; what the decoder rejects is dropped. -/
def receive (P : Platform) (sessionId : Bytes) (r : BraidReassembly) (wire : Bytes) : BraidReassembly :=
  match decodeBraidChunk P wire sessionId with
  | .ok chunk => (r.ingest chunk).2
  | .error _ => r

/-! ## A transfer -/

/-- A session, an epoch and a data type, and payloads within the two caps. -/
structure Transfer where
  sessionId : Bytes
  epoch : Nat
  type : Nat
  payloads : List Bytes
  session_length : sessionId.length = 32
  epoch_u64 : epoch < 256 ^ 8
  data_type : type ∈ braidDataPayloadTypes
  some_payloads : payloads ≠ []
  few_payloads : payloads.length ≤ braidMaxChunksPerEpoch
  nonempty : ∀ p ∈ payloads, p ≠ []
  total : (payloads.map List.length).sum ≤ braidMaxTotalPayloadBytes

namespace Transfer

def chunk (t : Transfer) (i : Nat) : BraidChunk where
  epoch := t.epoch
  type := t.type
  chunkIndex := i
  payload := t.payloads.getD i []
  sessionId := t.sessionId

/-- The wire of a chunk is among those that were delivered. -/
def Arrived (P : Platform) (t : Transfer) (wires : List Bytes) (i : Nat) : Prop :=
  ∃ wire ∈ wires, encodeBraidChunk P (t.chunk i) = .ok wire

/-- A wire of the transfer, or one that the decoder rejects. -/
def Deliverable (P : Platform) (t : Transfer) (wire : Bytes) : Prop :=
  (∃ i < t.payloads.length, encodeBraidChunk P (t.chunk i) = .ok wire) ∨
    ∃ e, decodeBraidChunk P wire t.sessionId = .error e

variable {t : Transfer}

theorem getD_mem {i : Nat} (h : i < t.payloads.length) : t.payloads.getD i [] ∈ t.payloads := by
  rw [List.getD_eq_getElem?_getD, List.getElem?_eq_getElem h]
  exact List.getElem_mem h

theorem chunk_valid {i : Nat} (h : i < t.payloads.length) : (t.chunk i).Valid := by
  have hdata : ∀ x ∈ braidDataPayloadTypes, x ∈ braidAllowedTypes ∧ x ∉ braidEmptyPayloadTypes := by decide
  have hmem := getD_mem h
  have hlength : (t.payloads.getD i []).length ≤ (t.payloads.map List.length).sum :=
    List.le_sum_of_mem (List.mem_map_of_mem hmem)
  have htotal := t.total
  have hfew := t.few_payloads
  have hcap : braidMaxChunksPerEpoch < 256 ^ 4 := by decide
  refine ⟨t.session_length, t.epoch_u64, (hdata _ t.data_type).1, ?_, ?_, Nat.le_trans hlength htotal, ?_⟩
  · exact fun hempty => absurd hempty (hdata _ t.data_type).2
  · exact fun _ => t.nonempty _ hmem
  · show i < 256 ^ 4
    omega

/-- The wire of a chunk is decoded to that chunk. -/
theorem decode_chunk {i : Nat} {wire : Bytes} (h : i < t.payloads.length)
    (hwire : encodeBraidChunk P (t.chunk i) = .ok wire) :
    decodeBraidChunk P wire t.sessionId = .ok { t.chunk i with bindingDigest := (t.chunk i).digest P } := by
  obtain ⟨_, rfl⟩ := encodeBraidChunk_ok.mp hwire
  exact decodeBraidChunk_wire (chunk_valid h)

/-- A wire carries one index. -/
theorem chunk_unique {i j : Nat} {wire : Bytes} (hi : i < t.payloads.length) (hj : j < t.payloads.length)
    (hwi : encodeBraidChunk P (t.chunk i) = .ok wire) (hwj : encodeBraidChunk P (t.chunk j) = .ok wire) : j = i := by
  have heq := (decode_chunk hj hwj).symm.trans (decode_chunk hi hwi)
  exact congrArg BraidChunk.chunkIndex (Except.ok.inj heq)

/-! ### The collector -/

/-- The collector holds the payloads of the indices that have arrived. -/
structure Collected (t : Transfer) (arrived : Nat → Prop) (r : BraidReassembly) : Prop where
  epoch : r.epoch = t.epoch
  expected : r.expectedCount = t.payloads.length
  chunks : r.maxChunks = braidMaxChunksPerEpoch
  bytes : r.maxTotalBytes = braidMaxTotalPayloadBytes
  parts : ∀ i v, r.parts.get? i = some v ↔ i < t.payloads.length ∧ arrived i ∧ v = t.payloads.getD i []
  total : r.totalPayloadBytes = r.parts.weight fun row => row.2.length

variable {arrived : Nat → Prop} {r : BraidReassembly}

/-- Only the indices of the payloads matter. -/
theorem Collected.congr {arrived' : Nat → Prop} (h : t.Collected arrived r)
    (heq : ∀ i < t.payloads.length, arrived i ↔ arrived' i) : t.Collected arrived' r := by
  refine { h with parts := fun i v => ?_ }
  rw [h.parts]
  constructor
  · rintro ⟨hi, harrived, hv⟩
    exact ⟨hi, (heq i hi).mp harrived, hv⟩
  · rintro ⟨hi, harrived, hv⟩
    exact ⟨hi, (heq i hi).mpr harrived, hv⟩

theorem Collected.contains (h : t.Collected arrived r) {i : Nat} (hi : i < t.payloads.length) :
    r.parts.contains i = true ↔ arrived i := by
  rw [KeyedTable.contains, Option.isSome_iff_exists]
  constructor
  · rintro ⟨v, hv⟩
    exact ((h.parts i v).mp hv).2.1
  · exact fun harrived => ⟨_, (h.parts i _).mpr ⟨hi, harrived, rfl⟩⟩

theorem payloads_eq_map (t : Transfer) :
    t.payloads = (List.range t.payloads.length).map fun i => t.payloads.getD i [] := by
  apply List.ext_getElem
  · simp
  · intro i hi _
    simp [List.getElem?_eq_getElem hi]

/-- What is stored together with one more payload stays within the two caps. -/
theorem Collected.room (h : t.Collected arrived r) {i : Nat} (hi : i < t.payloads.length) (hnew : ¬ arrived i) :
    r.parts.count < r.maxChunks ∧
      r.totalPayloadBytes + (t.payloads.getD i []).length ≤ r.maxTotalBytes := by
  have habsent : r.parts.get? i = none := by
    rw [← Option.not_isSome_iff_eq_none]
    exact fun hsome => hnew ((h.contains hi).mp hsome)
  have hrows : ∀ row ∈ (r.parts.set i (t.payloads.getD i [])).rows,
      row.1 ∈ List.range t.payloads.length ∧ row.2 = t.payloads.getD row.1 [] := by
    rintro ⟨j, v⟩ hrow
    have hget := (KeyedTable.get?_eq_some _).mpr hrow
    rw [KeyedTable.get?_set] at hget
    split at hget
    · rename_i hji
      obtain rfl := Option.some.inj hget
      exact ⟨List.mem_range.mpr (hji ▸ hi), by rw [hji]⟩
    · obtain ⟨hj, _, hv⟩ := (h.parts j v).mp hget
      exact ⟨List.mem_range.mpr hj, hv⟩
  have hcount := KeyedTable.weight_le_sum (fun row hrow => (hrows row hrow).1) (f := fun _ => 1) (g := fun _ => 1)
    fun _ _ => Nat.le_refl 1
  have hbytes := KeyedTable.weight_le_sum (fun row hrow => (hrows row hrow).1) (f := fun row => row.2.length)
    (g := fun j => (t.payloads.getD j []).length) fun row hrow => by rw [(hrows row hrow).2]
  rw [KeyedTable.weight_set_of_absent _ _ _ habsent] at hcount hbytes
  rw [← KeyedTable.count_eq_weight] at hcount
  have htotal := t.total
  have hfew := t.few_payloads
  rw [t.payloads_eq_map, List.map_map] at htotal
  rw [h.chunks, h.bytes, h.total]
  constructor
  · have hn : ((List.range t.payloads.length).map fun _ => 1).sum = t.payloads.length := by simp
    omega
  · exact Nat.le_trans hbytes htotal

/-- A chunk of the transfer is stored unless its index is there. -/
theorem Collected.ingest (h : t.Collected arrived r) {i : Nat} (hi : i < t.payloads.length) {c : BraidChunk}
    (hepoch : c.epoch = t.epoch) (htype : c.type = t.type) (hindex : c.chunkIndex = i)
    (hpayload : c.payload = t.payloads.getD i []) :
    t.Collected (fun j => arrived j ∨ j = i) (r.ingest c).2 := by
  have hallowed : c.type ∈ braidAllowedTypes := by
    have hdata : ∀ x ∈ braidDataPayloadTypes, x ∈ braidAllowedTypes := by decide
    exact htype ▸ hdata _ t.data_type
  unfold BraidReassembly.ingest
  rw [if_neg (by rw [hepoch, h.epoch]; exact fun hne => hne rfl), if_neg (fun hnot => hnot hallowed),
    if_neg (by rw [hindex, h.expected]; omega), hindex, hpayload]
  by_cases hthere : arrived i
  · rw [if_pos ((h.contains hi).mpr hthere)]
    refine h.congr fun j _ => ⟨Or.inl, ?_⟩
    rintro (hj | rfl)
    · exact hj
    · exact hthere
  · obtain ⟨hcount, hbytes⟩ := h.room hi hthere
    have habsent : ¬ r.parts.contains i = true := fun hc => hthere ((h.contains hi).mp hc)
    rw [if_neg habsent, if_neg (by omega), if_neg (by omega)]
    refine { h with parts := fun j v => ?_, total := ?_ }
    · rw [KeyedTable.get?_set]
      by_cases hji : j = i
      · subst hji
        rw [if_pos rfl, Option.some.injEq]
        exact ⟨fun hv => ⟨hi, Or.inr rfl, hv.symm⟩, fun hv => hv.2.2.symm⟩
      · rw [if_neg hji, h.parts]
        constructor
        · rintro ⟨hj, harrived, hv⟩
          exact ⟨hj, Or.inl harrived, hv⟩
        · rintro ⟨hj, harrived | heq, hv⟩
          · exact ⟨hj, harrived, hv⟩
          · exact absurd heq hji
    · have hnone : r.parts.get? i = none := by
        rw [← Option.not_isSome_iff_eq_none]
        exact habsent
      dsimp only
      rw [KeyedTable.weight_set_of_absent _ _ _ hnone, h.total]

/-- A delivered wire adds the indices it carries. -/
theorem Collected.receive (h : t.Collected arrived r) {wire : Bytes} (hwire : t.Deliverable P wire) :
    t.Collected (fun i => arrived i ∨ encodeBraidChunk P (t.chunk i) = .ok wire)
      (receive P t.sessionId r wire) := by
  unfold Protocol.receive
  rcases hwire with ⟨i, hi, hencode⟩ | ⟨e, hreject⟩
  · rw [decode_chunk hi hencode]
    refine (h.ingest hi rfl rfl rfl rfl).congr fun j hj => or_congr Iff.rfl ⟨?_, ?_⟩
    · rintro rfl
      exact hencode
    · exact chunk_unique hi hj hencode
  · rw [hreject]
    refine h.congr fun j hj => ⟨Or.inl, ?_⟩
    rintro (harrived | hencode)
    · exact harrived
    · cases (decode_chunk hj hencode).symm.trans hreject

theorem Collected.receive_all (wires : List Bytes) (h : t.Collected arrived r)
    (hwires : ∀ wire ∈ wires, t.Deliverable P wire) :
    t.Collected (fun i => arrived i ∨ t.Arrived P wires i) (wires.foldl (Protocol.receive P t.sessionId) r) := by
  induction wires generalizing arrived r with
  | nil =>
    refine h.congr fun i _ => ⟨Or.inl, ?_⟩
    rintro (harrived | ⟨_, hmem, _⟩)
    · exact harrived
    · cases hmem
  | cons wire rest ih =>
    have hstep := h.receive (hwires wire List.mem_cons_self)
    refine (ih hstep fun w hw => hwires w (List.mem_cons_of_mem wire hw)).congr fun i _ => ?_
    simp only [Arrived, List.mem_cons, exists_eq_or_imp, or_assoc]

theorem collected_start (t : Transfer) :
    ∃ r, BraidReassembly.start t.epoch t.payloads.length = .ok r ∧ t.Collected (fun _ => False) r := by
  have hpos : 0 < t.payloads.length := List.length_pos_iff.mpr t.some_payloads
  refine ⟨{ epoch := t.epoch, expectedCount := t.payloads.length }, ?_, ⟨rfl, rfl, rfl, rfl, ?_, rfl⟩⟩
  · unfold BraidReassembly.start
    simp only [bind_ok, orRaise_ok, pure_ok, exists_const]
    exact ⟨⟨hpos, t.few_payloads⟩, trivial⟩
  · intro i v
    simp

/-- The parts are joined when every index has arrived. -/
theorem Collected.complete (h : t.Collected arrived r) (hall : ∀ i < t.payloads.length, arrived i) :
    r.tryComplete = some t.payloads.flatten := by
  unfold BraidReassembly.tryComplete
  rw [h.expected, if_neg]
  · rw [List.flatMap, Option.some.injEq]
    conv_rhs => rw [t.payloads_eq_map]
    congr 1
    apply List.map_congr_left
    intro i hi
    have hlt := List.mem_range.mp hi
    rw [(h.parts i _).mpr ⟨hlt, hall i hlt, rfl⟩]
    rfl
  · rw [List.any_eq_true]
    rintro ⟨i, hi, hmissing⟩
    have hlt := List.mem_range.mp hi
    rw [(h.contains hlt).mpr (hall i hlt)] at hmissing
    cases hmissing

theorem Collected.incomplete (h : t.Collected arrived r) {i : Nat} (hi : i < t.payloads.length)
    (hmissing : ¬ arrived i) : r.tryComplete = none := by
  unfold BraidReassembly.tryComplete
  rw [h.expected, if_pos]
  rw [List.any_eq_true]
  refine ⟨i, List.mem_range.mpr hi, ?_⟩
  rw [Bool.not_eq_true', ← Bool.not_eq_true]
  exact fun hc => hmissing ((h.contains hi).mp hc)

end Transfer

/-- A transfer arrives whole in any order, and not before all of it is there; what the decoder takes is what
the encoder makes. -/
theorem braid_transfer (P : Platform) (t : Transfer) :
    (∀ i < t.payloads.length, ∃ wire, encodeBraidChunk P (t.chunk i) = .ok wire) ∧
      (∃ r, BraidReassembly.start t.epoch t.payloads.length = .ok r ∧
        ∀ wires : List Bytes, (∀ wire ∈ wires, t.Deliverable P wire) →
          ((∀ i < t.payloads.length, t.Arrived P wires i) →
            (wires.foldl (receive P t.sessionId) r).tryComplete = some t.payloads.flatten) ∧
          ((∃ i < t.payloads.length, ¬ t.Arrived P wires i) →
            (wires.foldl (receive P t.sessionId) r).tryComplete = none) ∧
          (wires.foldl (receive P t.sessionId) r).totalPayloadBytes =
            (wires.foldl (receive P t.sessionId) r).parts.weight fun row => row.2.length) ∧
      ∀ wire sessionId c, decodeBraidChunk P wire sessionId = .ok c →
        encodeBraidChunk P c = .ok wire ∧ c.sessionId = sessionId := by
  refine ⟨fun i hi => ⟨_, encodeBraidChunk_ok.mpr ⟨Transfer.chunk_valid hi, rfl⟩⟩, ?_, ?_⟩
  · obtain ⟨r, hr, hstart⟩ := t.collected_start
    refine ⟨r, hr, fun wires hwires => ?_⟩
    have hfinal := hstart.receive_all wires hwires
    refine ⟨fun hall => hfinal.complete fun i hi => Or.inr (hall i hi), ?_, hfinal.total⟩
    rintro ⟨i, hi, hmissing⟩
    exact hfinal.incomplete hi fun harrived => harrived.elim id hmissing
  · intro wire sessionId c hdecode
    obtain ⟨hvalid, hwire, hsession, _⟩ := decodeBraidChunk_ok hdecode
    exact ⟨encodeBraidChunk_ok.mpr ⟨hvalid, hwire⟩, hsession.symm⟩

def sampleTransfer : Transfer where
  sessionId := List.replicate 32 7
  epoch := 5
  type := 1
  payloads := [[1, 2], [3]]
  session_length := by decide
  epoch_u64 := by decide
  data_type := by decide
  some_payloads := by decide
  few_payloads := by decide
  nonempty := by decide
  total := by decide

def sampleWires : List Bytes :=
  [(sampleTransfer.chunk 1).wire (.ofTable []), [], (sampleTransfer.chunk 0).wire (.ofTable []),
    (sampleTransfer.chunk 1).wire (.ofTable [])]

theorem two_chunks_arrive : ∃ r, BraidReassembly.start 5 2 = .ok r ∧
    (sampleWires.foldl (receive (.ofTable []) (List.replicate 32 7)) r).tryComplete = some [1, 2, 3] := by
  obtain ⟨_, ⟨r, hr, hwires⟩, _⟩ := braid_transfer (.ofTable []) sampleTransfer
  have hencode : ∀ i < 2, encodeBraidChunk (.ofTable []) (sampleTransfer.chunk i) =
      .ok ((sampleTransfer.chunk i).wire (.ofTable [])) :=
    fun i hi => encodeBraidChunk_ok.mpr ⟨Transfer.chunk_valid hi, rfl⟩
  refine ⟨r, hr, (hwires sampleWires ?_).1 ?_⟩
  · intro wire hwire
    simp only [sampleWires, List.mem_cons, List.not_mem_nil, or_false] at hwire
    rcases hwire with rfl | rfl | rfl | rfl
    · exact Or.inl ⟨1, by decide, hencode 1 (by decide)⟩
    · exact Or.inr ⟨_, rfl⟩
    · exact Or.inl ⟨0, by decide, hencode 0 (by decide)⟩
    · exact Or.inl ⟨1, by decide, hencode 1 (by decide)⟩
  · intro i hi
    have hi2 : i < 2 := hi
    refine ⟨_, ?_, hencode i hi2⟩
    obtain rfl | rfl : i = 0 ∨ i = 1 := by omega
    · simp [sampleWires]
    · simp [sampleWires]

end Rdap.Protocol
