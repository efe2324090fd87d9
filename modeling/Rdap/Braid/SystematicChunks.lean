import Rdap.Braid.State
import Rdap.Braid.Wire
import Rdap.Lib.KeyedTable
import Rdap.Lib.Sorting
import Rdap.Python.Value

/-!
# Systematic chunks

A source is sent in chunks of 32 bytes, one after the other. The receiver keeps the chunks of each
direction, epoch and kind in a set of its own, sorted by index, beside a bitmap of the indices, and joins
them as soon as none is missing.
-/

set_option autoImplicit false

namespace Rdap.Braid
open Python Lib

/-- `CW` -/
def chunkWidth : Nat := 32

def domainSendSource : Bytes := (lit "ATSAM/v2/braid-send-source").map fun c => UInt8.ofNat c.val
def domainBraidChunk : Bytes := (lit "ATSAM/v2/braid-chunk").map fun c => UInt8.ofNat c.val

variable (P : Platform)

/-! ## Sending -/

def sendSourceDigest (sourceBytes : Bytes) : Bytes := P.sha256 (domainSendSource ++ sourceBytes)

def bindingDigest (direction epoch chunkType index : Int) (payload sessionId : Bytes) : Except PyExc Bytes := do
  orRaise (sessionId.length = 32) (lit "session_id must be 32 bytes")
  let epoch ← toBytes 8 epoch
  let index ← toBytes 4 index
  return P.sha256 (domainBraidChunk ++ u8 direction ++ epoch ++ u8 chunkType ++ index ++ payload ++ sessionId)

def systematicChunk (source : Bytes) (index : Int) : Except PyExc Bytes := do
  orRaise (source.length % chunkWidth = 0) (lit "source len")
  let n := source.length / chunkWidth
  orRaise (0 ≤ index ∧ index < n) (lit "systematic index out of range")
  return (source.drop (index.toNat * chunkWidth)).take chunkWidth

def newActiveSend (direction epoch wireType sourceKind : Int) (source : Bytes) : ActiveSend where
  direction := direction
  epoch := epoch
  wireType := wireType
  sourceKind := sourceKind
  sourceLen := source.length
  sourceDigest := sendSourceDigest P source
  sourceBytes := source
  nextSpqrIndex := 0

/-- The frame, and the state in which the next index is counted. -/
def emitActive (state : Rvfb1State) : Except PyExc (Rvbc1 × Rvfb1State) :=
  match state.activeSend with
  | none => valueError (lit "active send required")
  | some active => do
    orRaise (active.epoch = state.prefix_.braidAgentEpoch ∧ active.nextSpqrIndex ≤ 63) (lit "active send contract")
    let index := active.nextSpqrIndex
    let payload ← systematicChunk active.sourceBytes index
    let binding ←
      bindingDigest P active.direction active.epoch active.wireType index payload state.prefix_.sessionId
    return ({ epoch := active.epoch, chunkType := active.wireType, index, payload, binding },
      { state with activeSend := some { active with nextSpqrIndex := index + 1 } })

/-- Emitting again and again. -/
def emitMany : Nat → Rvfb1State → Except PyExc (List Rvbc1 × Rvfb1State)
  | 0, state => .ok ([], state)
  | k + 1, state => do
    let (frame, state) ← emitActive P state
    let (frames, state) ← emitMany k state
    return (frame :: frames, state)

/-- Frames that the state emits, sooner or later. -/
def Emitted (sender : Rvfb1State) (frame : Rvbc1) : Prop :=
  ∃ k frames last, emitMany P k sender = .ok (frames, last) ∧ frame ∈ frames

/-! ## Receiving -/

def InboundSet.key (self : InboundSet) : Int × Int × Int := (self.direction, self.epoch, self.sourceKind)

/-- The order of `sets.sort(key=...)`. -/
def inboundLe (a b : InboundSet) : Prop := LexLe a.key b.key

instance : DecidableRel inboundLe := fun a b =>
  inferInstanceAs (Decidable (a.key.1 < b.key.1 ∨ (a.key.1 = b.key.1 ∧ (a.key.2.1 < b.key.2.1 ∨
    (a.key.2.1 = b.key.2.1 ∧ a.key.2.2 ≤ b.key.2.2)))))

/-- `SOURCE_LENGTHS[source_kind]` -/
def sourceLengthAt (kind : Int) : Except PyExc Int :=
  match sourceLength kind with
  | some length => .ok length
  | none => .error ⟨.keyError, intDecimal kind⟩

def emptyInboundSet (direction epoch sourceKind : Int) : Except PyExc InboundSet := do
  let expectedSourceLen ← sourceLengthAt sourceKind
  return { direction, epoch, sourceKind, expectedSourceLen, maxIndex := 63, bitmap := List.replicate 8 0,
           chunks := [] }

/-- The set with the key, which is made if there is none, and all sets. -/
def findOrAppend (sets : List InboundSet) (direction epoch sourceKind : Int) :
    Except PyExc (InboundSet × List InboundSet) :=
  match sets.find? fun item => item.key = (direction, epoch, sourceKind) with
  | some inbound => .ok (inbound, sets)
  | none => do
    let inbound ← emptyInboundSet direction epoch sourceKind
    return (inbound, (sets ++ [inbound]).insertionSort inboundLe)

/-- `bitmap[index // 8] |= 1 << (index % 8)`, where a negative position counts from the end. -/
def setBit (bitmap : Bytes) (index : Int) : Except PyExc Bytes := do
  let byte ← signedIndex bitmap (index / 8)
  let position := if 0 ≤ index / 8 then (index / 8).toNat else (index / 8 + bitmap.length).toNat
  return bitmap.set position (byte ||| UInt8.ofNat (1 <<< (index % 8).toNat))

/-- What becomes of the set, also when something is raised. -/
def enterFrame (inbound : InboundSet) (frame : Rvbc1) (sourceKind : Int) : InboundSet × Except PyExc Unit :=
  match sourceLengthAt sourceKind with
  | .error e => (inbound, .error e)
  | .ok expected =>
    if inbound.expectedSourceLen ≠ expected ∨ inbound.maxIndex ≠ 63 ∨ inbound.bitmap.length ≠ 8 then
      (inbound, valueError (lit "inbound set contract"))
    else
      match inbound.chunks.find? fun chunk => chunk.index = frame.index with
      | some existing =>
        if existing.payload ≠ frame.payload then (inbound, valueError (lit "conflicting inbound chunk"))
        else (inbound, .ok ())
      | none =>
        let chunk : InboundChunk := ⟨frame.index, frame.payload⟩
        let grown := { inbound with
          chunks := (inbound.chunks ++ [chunk]).insertionSort fun a b => a.index ≤ b.index }
        match setBit inbound.bitmap frame.index with
        | .error e => (grown, .error e)
        | .ok bitmap => ({ grown with bitmap }, .ok ())

/-- The chunks joined, if none is missing. -/
def InboundSet.joined (self : InboundSet) : Option Bytes :=
  let needed := self.expectedSourceLen / chunkWidth
  let byIndex : KeyedTable Int Bytes := .ofRows (self.chunks.map fun chunk => (chunk.index, chunk.payload))
  if ∀ i < needed.toNat, byIndex.contains (i : Int) = true then
    some ((List.range needed.toNat).flatMap fun (i : Nat) => (byIndex.get? (i : Int)).getD [])
  else none

/-- The first set with the key of this one is this one now. -/
def putBack (inbound : InboundSet) : List InboundSet → List InboundSet
  | [] => []
  | item :: items => if item.key = inbound.key then inbound :: items else item :: putBack inbound items

def insertSystematicFrame (state : Rvfb1State) (direction : Int) (frame : Rvbc1) (sourceKind : Int) :
    Rvfb1State × Except PyExc (Option Bytes) :=
  match findOrAppend state.inboundSets direction frame.epoch sourceKind with
  | .error e => (state, .error e)
  | .ok (inbound, sets) =>
    let entered := enterFrame inbound frame sourceKind
    ({ state with inboundSets := putBack entered.1 sets }, entered.2.map fun _ => entered.1.joined)

end Rdap.Braid
