import Rdap.Braid.StateCodecs

/-!
# The state codec

The sections of a braid state in their order, each with the values its encoder and its reader
admit, and from them that both codecs are canonical.
-/

set_option autoImplicit false

namespace Rdap.Braid
open Python Lib

/-! ## The prefix -/

structure Rvfb1Prefix.Fits (p : Rvfb1Prefix) : Prop where
  sessionId : p.sessionId.length = 32
  role : Word 1 p.role
  generation : Word 8 p.generation
  agent : Word 1 p.agent
  terminalReason : Word 2 p.terminalReason
  authRoot : p.authRoot.length = 32
  authMacKey : p.authMacKey.length = 32
  agentEpoch : Word 8 p.braidAgentEpoch
  sendEpoch : Word 8 p.braidSendEpoch
  recvEpoch : Word 8 p.braidRecvEpoch
  flags : Word 4 p.flags
  pendingPhase : Word 1 p.pendingPhase
  pendingTransitionId : p.pendingTransitionId.length = 32
  pendingBeforeDigest : p.pendingBeforeDigest.length = 32
  pendingOutputDigest : p.pendingOutputDigest.length = 32
  pendingExecutionDigest : p.pendingExecutionDigest.length = 32

def Rvfb1Prefix.layout (p : Rvfb1Prefix) : Bytes :=
  rvfb1Magic ++ (word 2 rvfb1Schema ++ (p.sessionId ++ (word 1 p.role ++ (word 8 p.generation ++
    (word 1 p.agent ++ (word 2 p.terminalReason ++ (p.authRoot ++ (p.authMacKey ++
    (word 8 p.braidAgentEpoch ++ (word 8 p.braidSendEpoch ++ (word 8 p.braidRecvEpoch ++ (word 4 p.flags ++
    (word 1 p.pendingPhase ++ (p.pendingTransitionId ++ (p.pendingBeforeDigest ++
    (p.pendingOutputDigest ++ p.pendingExecutionDigest))))))))))))))))

theorem Rvfb1Prefix.Fits.layout_length {p : Rvfb1Prefix} (h : p.Fits) :
    p.layout.length = rvfb1PrefixLen := by
  simp [Rvfb1Prefix.layout, rvfb1Magic, h.sessionId, h.authRoot, h.authMacKey, h.pendingTransitionId,
    h.pendingBeforeDigest, h.pendingOutputDigest, h.pendingExecutionDigest, rvfb1PrefixLen]

theorem encodePrefix_ok {p : Rvfb1Prefix} {b : Bytes} : encodePrefix p = .ok b ↔ p.Fits ∧ b = p.layout := by
  have hschema : Word 2 rvfb1Schema := by decide
  unfold encodePrefix
  simp only [bind_ok, pure_ok, requireBytes_ok, toBytes_ok]
  constructor
  · rintro ⟨-, hsession, -, hroot, -, hmac, -, hid, -, hbefore, -, houtput, -, hexecution, _, ⟨-, rfl⟩, _,
      ⟨hrole, rfl⟩, _, ⟨hgeneration, rfl⟩, _, ⟨hagent, rfl⟩, _, ⟨hreason, rfl⟩, _, ⟨hagentEpoch, rfl⟩, _,
      ⟨hsend, rfl⟩, _, ⟨hrecv, rfl⟩, _, ⟨hflags, rfl⟩, _, ⟨hphase, rfl⟩, rfl⟩
    exact ⟨⟨hsession, hrole, hgeneration, hagent, hreason, hroot, hmac, hagentEpoch, hsend, hrecv, hflags,
      hphase, hid, hbefore, houtput, hexecution⟩, rfl⟩
  · rintro ⟨h, rfl⟩
    exact ⟨(), h.sessionId, (), h.authRoot, (), h.authMacKey, (), h.pendingTransitionId, (),
      h.pendingBeforeDigest, (), h.pendingOutputDigest, (), h.pendingExecutionDigest, _, ⟨hschema, rfl⟩, _,
      ⟨h.role, rfl⟩, _, ⟨h.generation, rfl⟩, _, ⟨h.agent, rfl⟩, _, ⟨h.terminalReason, rfl⟩, _,
      ⟨h.agentEpoch, rfl⟩, _, ⟨h.sendEpoch, rfl⟩, _, ⟨h.recvEpoch, rfl⟩, _, ⟨h.flags, rfl⟩, _,
      ⟨h.pendingPhase, rfl⟩, rfl⟩

theorem decodePrefix_ok {p : Rvfb1Prefix} {data : Bytes} :
    decodePrefix data = .ok p ↔ p.Fits ∧ data = p.layout ++ data.drop rvfb1PrefixLen := by
  have hschema : Word 2 rvfb1Schema := by decide
  unfold decodePrefix
  constructor
  · intro h
    simp only [bind_ok, orRaise_ok, pure_ok, expectMagic_ok (show rvfb1Magic.length = 8 from rfl),
      Prod.exists] at h
    obtain ⟨-, -, -, hmagic, schema, r, hread, -, rfl, session, r₁, hread₁, role, r₂, hread₂, generation, r₃,
      hread₃, agent, r₄, hread₄, reason, r₅, hread₅, root, r₆, hread₆, mac, r₇, hread₇, agentEpoch, r₈,
      hread₈, sendEpoch, r₉, hread₉, recvEpoch, r₁₀, hread₁₀, flags, r₁₁, hread₁₁, phase, r₁₂, hread₁₂, id,
      r₁₃, hread₁₃, before, r₁₄, hread₁₄, output, r₁₅, hread₁₅, execution, r₁₆, hread₁₆, -, -, rfl⟩ := h
    obtain ⟨-, hread⟩ := (readWord_reads 2).split hread
    obtain ⟨hsession, rfl⟩ := readArray32_reads.split hread₁
    obtain ⟨hrole, rfl⟩ := (readWord_reads 1).split hread₂
    obtain ⟨hgeneration, rfl⟩ := (readWord_reads 8).split hread₃
    obtain ⟨hagent, rfl⟩ := (readWord_reads 1).split hread₄
    obtain ⟨hreason, rfl⟩ := (readWord_reads 2).split hread₅
    obtain ⟨hroot, rfl⟩ := readArray32_reads.split hread₆
    obtain ⟨hmac, rfl⟩ := readArray32_reads.split hread₇
    obtain ⟨hagentEpoch, rfl⟩ := (readWord_reads 8).split hread₈
    obtain ⟨hsend, rfl⟩ := (readWord_reads 8).split hread₉
    obtain ⟨hrecv, rfl⟩ := (readWord_reads 8).split hread₁₀
    obtain ⟨hflags, rfl⟩ := (readWord_reads 4).split hread₁₁
    obtain ⟨hphase, rfl⟩ := (readWord_reads 1).split hread₁₂
    obtain ⟨hid, rfl⟩ := readArray32_reads.split hread₁₃
    obtain ⟨hbefore, rfl⟩ := readArray32_reads.split hread₁₄
    obtain ⟨houtput, rfl⟩ := readArray32_reads.split hread₁₅
    obtain ⟨hexecution, rfl⟩ := readArray32_reads.split hread₁₆
    have hfits : (Rvfb1Prefix.mk session role generation agent reason root mac agentEpoch sendEpoch
        recvEpoch flags phase id before output execution).Fits :=
      ⟨hsession, hrole, hgeneration, hagent, hreason, hroot, hmac, hagentEpoch, hsend, hrecv, hflags,
        hphase, hid, hbefore, houtput, hexecution⟩
    have hdata : data = (Rvfb1Prefix.mk session role generation agent reason root mac agentEpoch sendEpoch
        recvEpoch flags phase id before output execution).layout ++ r₁₆ := by
      rw [hmagic, hread]
      simp only [Rvfb1Prefix.layout, List.append_assoc]
    refine ⟨hfits, ?_⟩
    rw [hdata, List.drop_left' hfits.layout_length]
  · rintro ⟨h, hdata⟩
    obtain ⟨rest, hrest⟩ : ∃ rest, rest = data.drop rvfb1PrefixLen := ⟨_, rfl⟩
    rw [← hrest] at hdata
    have hlength : data.length = rvfb1PrefixLen + rest.length := by
      rw [hdata, List.length_append, h.layout_length]
    rw [orRaise_pos (by omega)]
    have hlayout : data = rvfb1Magic ++ (word 2 rvfb1Schema ++ (p.sessionId ++ (word 1 p.role ++
        (word 8 p.generation ++ (word 1 p.agent ++ (word 2 p.terminalReason ++ (p.authRoot ++
        (p.authMacKey ++ (word 8 p.braidAgentEpoch ++ (word 8 p.braidSendEpoch ++
        (word 8 p.braidRecvEpoch ++ (word 4 p.flags ++ (word 1 p.pendingPhase ++
        (p.pendingTransitionId ++ (p.pendingBeforeDigest ++ (p.pendingOutputDigest ++
        (p.pendingExecutionDigest ++ rest))))))))))))))))) := by
      rw [hdata]
      simp only [Rvfb1Prefix.layout, List.append_assoc]
    have hmagic : expectMagic data rvfb1Magic = .ok () := by
      rw [hlayout]
      exact expectMagic_append rfl _
    have hdrop := congrArg (List.drop 8) hlayout
    rw [List.drop_left' (show rvfb1Magic.length = 8 from rfl)] at hdrop
    rw [hmagic, hdrop]
    simp only [ok_bind, (readWord_reads 2).append hschema, orRaise_pos,
      readArray32_reads.append h.sessionId, (readWord_reads 1).append h.role,
      (readWord_reads 8).append h.generation, (readWord_reads 1).append h.agent,
      (readWord_reads 2).append h.terminalReason, readArray32_reads.append h.authRoot,
      readArray32_reads.append h.authMacKey, (readWord_reads 8).append h.agentEpoch,
      (readWord_reads 8).append h.sendEpoch, (readWord_reads 8).append h.recvEpoch,
      (readWord_reads 4).append h.flags, (readWord_reads 1).append h.pendingPhase,
      readArray32_reads.append h.pendingTransitionId, readArray32_reads.append h.pendingBeforeDigest,
      readArray32_reads.append h.pendingOutputDigest, readArray32_reads.append h.pendingExecutionDigest,
      hlength]
    rfl

/-! ## The sections -/

structure InboundChunk.Fits (c : InboundChunk) : Prop where
  index : Word 4 c.index
  payload : Word 2 c.payload.length

def InboundChunk.layout (c : InboundChunk) : Bytes := word 4 c.index ++ sizedLayout c.payload

theorem encodeInboundChunk_ok (c : InboundChunk) (b : Bytes) :
    encodeInboundChunk c = .ok b ↔ c.Fits ∧ b = c.layout := by
  simp only [encodeInboundChunk, bind_ok, pure_ok, toBytes_ok, encodeSized_ok]
  constructor
  · rintro ⟨_, ⟨hindex, rfl⟩, _, ⟨hpayload, rfl⟩, rfl⟩
    exact ⟨⟨hindex, hpayload⟩, rfl⟩
  · rintro ⟨h, rfl⟩
    exact ⟨_, ⟨h.index, rfl⟩, _, ⟨h.payload, rfl⟩, rfl⟩

theorem readInboundChunk_reads : Reads InboundChunk.Fits InboundChunk.layout readInboundChunk := by
  intro r c rest
  simp only [readInboundChunk, bind_ok, pure_ok, Prod.exists, Prod.mk.injEq]
  constructor
  · rintro ⟨index, r₁, hread₁, payload, r₂, hread₂, rfl, rfl⟩
    obtain ⟨hindex, rfl⟩ := (readWord_reads 4).split hread₁
    obtain ⟨hpayload, rfl⟩ := readSized_reads.split hread₂
    exact ⟨⟨hindex, hpayload⟩, by simp only [InboundChunk.layout, List.append_assoc]⟩
  · rintro ⟨h, rfl⟩
    simp only [InboundChunk.layout, List.append_assoc]
    exact ⟨_, _, (readWord_reads 4).append h.index _, _, _, readSized_reads.append h.payload _, rfl, rfl⟩

structure InboundSet.Fits (s : InboundSet) : Prop where
  direction : Word 1 s.direction
  epoch : Word 8 s.epoch
  sourceKind : Word 1 s.sourceKind
  expectedSourceLen : Word 4 s.expectedSourceLen
  maxIndex : Word 4 s.maxIndex
  bitmap : Word 2 s.bitmap.length
  chunks : Word 2 s.chunks.length ∧ ∀ c ∈ s.chunks, c.Fits

def InboundSet.layout (s : InboundSet) : Bytes :=
  word 1 s.direction ++ (word 8 s.epoch ++ (word 1 s.sourceKind ++ (word 4 s.expectedSourceLen ++
    (word 4 s.maxIndex ++ (sizedLayout s.bitmap ++ listLayout InboundChunk.layout s.chunks)))))

theorem encodeInboundSet_ok (s : InboundSet) (b : Bytes) :
    encodeInboundSet s = .ok b ↔ s.Fits ∧ b = s.layout := by
  simp only [encodeInboundSet, bind_ok, pure_ok, toBytes_ok, encodeSized_ok,
    encodeList_ok encodeInboundChunk_ok]
  constructor
  · rintro ⟨_, ⟨hdirection, rfl⟩, _, ⟨hepoch, rfl⟩, _, ⟨hkind, rfl⟩, _, ⟨hlen, rfl⟩, _, ⟨hmax, rfl⟩, _,
      ⟨hbitmap, rfl⟩, _, ⟨hchunks, rfl⟩, rfl⟩
    exact ⟨⟨hdirection, hepoch, hkind, hlen, hmax, hbitmap, hchunks⟩, rfl⟩
  · rintro ⟨h, rfl⟩
    exact ⟨_, ⟨h.direction, rfl⟩, _, ⟨h.epoch, rfl⟩, _, ⟨h.sourceKind, rfl⟩, _, ⟨h.expectedSourceLen, rfl⟩,
      _, ⟨h.maxIndex, rfl⟩, _, ⟨h.bitmap, rfl⟩, _, ⟨h.chunks, rfl⟩, rfl⟩

theorem readInboundSet_reads : Reads InboundSet.Fits InboundSet.layout readInboundSet := by
  intro r s rest
  simp only [readInboundSet, bind_ok, pure_ok, Prod.exists, Prod.mk.injEq]
  constructor
  · rintro ⟨direction, r₁, hread₁, epoch, r₂, hread₂, kind, r₃, hread₃, len, r₄, hread₄, max, r₅, hread₅,
      bitmap, r₆, hread₆, chunks, r₇, hread₇, rfl, rfl⟩
    obtain ⟨hdirection, rfl⟩ := (readWord_reads 1).split hread₁
    obtain ⟨hepoch, rfl⟩ := (readWord_reads 8).split hread₂
    obtain ⟨hkind, rfl⟩ := (readWord_reads 1).split hread₃
    obtain ⟨hlen, rfl⟩ := (readWord_reads 4).split hread₄
    obtain ⟨hmax, rfl⟩ := (readWord_reads 4).split hread₅
    obtain ⟨hbitmap, rfl⟩ := readSized_reads.split hread₆
    obtain ⟨hchunks, rfl⟩ := (readList_reads readInboundChunk_reads).split hread₇
    exact ⟨⟨hdirection, hepoch, hkind, hlen, hmax, hbitmap, hchunks⟩,
      by simp only [InboundSet.layout, List.append_assoc]⟩
  · rintro ⟨h, rfl⟩
    simp only [InboundSet.layout, List.append_assoc]
    exact ⟨_, _, (readWord_reads 1).append h.direction _, _, _, (readWord_reads 8).append h.epoch _, _, _,
      (readWord_reads 1).append h.sourceKind _, _, _, (readWord_reads 4).append h.expectedSourceLen _, _, _,
      (readWord_reads 4).append h.maxIndex _, _, _, readSized_reads.append h.bitmap _, _, _,
      (readList_reads readInboundChunk_reads).append h.chunks _, rfl, rfl⟩

structure ActiveSend.Fits (a : ActiveSend) : Prop where
  direction : Word 1 a.direction
  epoch : Word 8 a.epoch
  wireType : Word 1 a.wireType
  sourceKind : Word 1 a.sourceKind
  sourceLen : Word 4 a.sourceLen
  nextSpqrIndex : Word 4 a.nextSpqrIndex

/-- The byte strings that the encoder does not measure. -/
structure ActiveSend.Measured (a : ActiveSend) : Prop where
  sourceDigest : a.sourceDigest.length = 32
  sourceBytes : (a.sourceBytes.length : Int) = a.sourceLen

def activeLayout : Option ActiveSend → Bytes
  | none => word 1 0
  | some a => word 1 1 ++ (word 1 a.direction ++ (word 8 a.epoch ++ (word 1 a.wireType ++
      (word 1 a.sourceKind ++ (word 4 a.sourceLen ++ (a.sourceDigest ++ (a.sourceBytes ++
      word 4 a.nextSpqrIndex)))))))

theorem encodeActiveSend_ok {o : Option ActiveSend} {b : Bytes} :
    encodeActiveSend o = .ok b ↔ (∀ a, o = some a → a.Fits) ∧ b = activeLayout o := by
  have hzero : Word 1 0 := by decide
  have hone : Word 1 1 := by decide
  cases o with
  | none =>
    simp only [encodeActiveSend, toBytes_ok, activeLayout]
    exact ⟨fun h => ⟨by simp, h.2⟩, fun h => ⟨hzero, h.2⟩⟩
  | some a =>
    simp only [encodeActiveSend, bind_ok, pure_ok, toBytes_ok, activeLayout]
    constructor
    · rintro ⟨_, ⟨-, rfl⟩, _, ⟨hdirection, rfl⟩, _, ⟨hepoch, rfl⟩, _, ⟨htype, rfl⟩, _, ⟨hkind, rfl⟩, _,
        ⟨hlen, rfl⟩, _, ⟨hindex, rfl⟩, rfl⟩
      refine ⟨fun a' ha' => ?_, rfl⟩
      cases ha'
      exact ⟨hdirection, hepoch, htype, hkind, hlen, hindex⟩
    · rintro ⟨ha, rfl⟩
      have h := ha a rfl
      exact ⟨_, ⟨hone, rfl⟩, _, ⟨h.direction, rfl⟩, _, ⟨h.epoch, rfl⟩, _, ⟨h.wireType, rfl⟩, _,
        ⟨h.sourceKind, rfl⟩, _, ⟨h.sourceLen, rfl⟩, _, ⟨h.nextSpqrIndex, rfl⟩, rfl⟩

theorem readActiveSend_reads :
    Reads (fun o : Option ActiveSend => ∀ a, o = some a → a.Fits ∧ a.Measured) activeLayout
      readActiveSend := by
  have hzero : Word 1 0 := by decide
  have hone : Word 1 1 := by decide
  intro r o rest
  unfold readActiveSend
  constructor
  · intro hread
    simp only [bind_ok, Prod.exists] at hread
    obtain ⟨present, r₁, hread₁, hread⟩ := hread
    obtain ⟨-, rfl⟩ := (readWord_reads 1).split hread₁
    split at hread
    · rename_i hpresent
      cases hread
      exact ⟨by simp, by rw [hpresent]; rfl⟩
    · split at hread
      · rename_i hpresent
        simp only [bind_ok, pure_ok, Prod.exists, Prod.mk.injEq] at hread
        obtain ⟨direction, r₂, hread₂, epoch, r₃, hread₃, wireType, r₄, hread₄, kind, r₅, hread₅, len, r₆,
          hread₆, digest, r₇, hread₇, bytes, r₈, hread₈, index, r₉, hread₉, rfl, rfl⟩ := hread
        obtain ⟨hdirection, rfl⟩ := (readWord_reads 1).split hread₂
        obtain ⟨hepoch, rfl⟩ := (readWord_reads 8).split hread₃
        obtain ⟨htype, rfl⟩ := (readWord_reads 1).split hread₄
        obtain ⟨hkind, rfl⟩ := (readWord_reads 1).split hread₅
        obtain ⟨hlen, rfl⟩ := (readWord_reads 4).split hread₆
        obtain ⟨hdigest, rfl⟩ := readArray32_reads.split hread₇
        obtain ⟨hbytes, rfl⟩ := (readBytes_reads len).split hread₈
        obtain ⟨hindex, rfl⟩ := (readWord_reads 4).split hread₉
        refine ⟨fun a ha => ?_, ?_⟩
        · cases ha
          exact ⟨⟨hdirection, hepoch, htype, hkind, hlen, hindex⟩, ⟨hdigest, hbytes⟩⟩
        · simp only [activeLayout, hpresent, List.append_assoc]
      · cases hread
  · rintro ⟨ho, rfl⟩
    cases o with
    | none =>
      simp only [activeLayout, ok_bind, (readWord_reads 1).append hzero]
      rfl
    | some a =>
      obtain ⟨h, hmeasured⟩ := ho a rfl
      have hne : ¬(1 : Int) = 0 := by decide
      simp only [activeLayout, List.append_assoc]
      simp only [ok_bind, (readWord_reads 1).append hone, if_neg hne, if_true,
        (readWord_reads 1).append h.direction, (readWord_reads 8).append h.epoch,
        (readWord_reads 1).append h.wireType, (readWord_reads 1).append h.sourceKind,
        (readWord_reads 4).append h.sourceLen, readArray32_reads.append hmeasured.sourceDigest,
        (readBytes_reads a.sourceLen).append hmeasured.sourceBytes,
        (readWord_reads 4).append h.nextSpqrIndex]
      rfl

structure BraidObject.Fits (o : BraidObject) : Prop where
  direction : Word 1 o.direction
  epoch : Word 8 o.epoch
  sourceKind : Word 1 o.sourceKind
  objectDigest : o.objectDigest.length = 32

def BraidObject.layout (o : BraidObject) : Bytes :=
  word 1 o.direction ++ (word 8 o.epoch ++ (word 1 o.sourceKind ++ o.objectDigest))

theorem encodeBraidObject_ok (o : BraidObject) (b : Bytes) :
    encodeBraidObject o = .ok b ↔ o.Fits ∧ b = o.layout := by
  simp only [encodeBraidObject, bind_ok, pure_ok, requireBytes_ok, toBytes_ok]
  constructor
  · rintro ⟨-, hdigest, _, ⟨hdirection, rfl⟩, _, ⟨hepoch, rfl⟩, _, ⟨hkind, rfl⟩, rfl⟩
    exact ⟨⟨hdirection, hepoch, hkind, hdigest⟩, rfl⟩
  · rintro ⟨h, rfl⟩
    exact ⟨(), h.objectDigest, _, ⟨h.direction, rfl⟩, _, ⟨h.epoch, rfl⟩, _, ⟨h.sourceKind, rfl⟩, rfl⟩

theorem readBraidObject_reads : Reads BraidObject.Fits BraidObject.layout readBraidObject := by
  intro r o rest
  simp only [readBraidObject, bind_ok, pure_ok, Prod.exists, Prod.mk.injEq]
  constructor
  · rintro ⟨direction, r₁, hread₁, epoch, r₂, hread₂, kind, r₃, hread₃, digest, r₄, hread₄, rfl, rfl⟩
    obtain ⟨hdirection, rfl⟩ := (readWord_reads 1).split hread₁
    obtain ⟨hepoch, rfl⟩ := (readWord_reads 8).split hread₂
    obtain ⟨hkind, rfl⟩ := (readWord_reads 1).split hread₃
    obtain ⟨hdigest, rfl⟩ := readArray32_reads.split hread₄
    exact ⟨⟨hdirection, hepoch, hkind, hdigest⟩, by simp only [BraidObject.layout, List.append_assoc]⟩
  · rintro ⟨h, rfl⟩
    simp only [BraidObject.layout, List.append_assoc]
    exact ⟨_, _, (readWord_reads 1).append h.direction _, _, _, (readWord_reads 8).append h.epoch _, _, _,
      (readWord_reads 1).append h.sourceKind _, _, _, readArray32_reads.append h.objectDigest _, rfl, rfl⟩

structure ReplayRecord.Fits (p : ReplayRecord) : Prop where
  outputLen : Word 4 p.outputLen
  flags : Word 2 p.flags

structure ReplayRecord.Measured (p : ReplayRecord) : Prop where
  transitionId : p.transitionId.length = 32
  executionDigest : p.executionDigest.length = 32
  outputDigest : p.outputDigest.length = 32

def ReplayRecord.layout (p : ReplayRecord) : Bytes :=
  p.transitionId ++ (p.executionDigest ++ (p.outputDigest ++ (word 4 p.outputLen ++ word 2 p.flags)))

theorem encodeReplayRecord_ok (p : ReplayRecord) (b : Bytes) :
    encodeReplayRecord p = .ok b ↔ p.Fits ∧ b = p.layout := by
  simp only [encodeReplayRecord, bind_ok, pure_ok, toBytes_ok]
  constructor
  · rintro ⟨_, ⟨hlen, rfl⟩, _, ⟨hflags, rfl⟩, rfl⟩
    exact ⟨⟨hlen, hflags⟩, rfl⟩
  · rintro ⟨h, rfl⟩
    exact ⟨_, ⟨h.outputLen, rfl⟩, _, ⟨h.flags, rfl⟩, rfl⟩

theorem readReplayRecord_reads :
    Reads (fun p : ReplayRecord => p.Fits ∧ p.Measured) ReplayRecord.layout readReplayRecord := by
  intro r p rest
  simp only [readReplayRecord, bind_ok, pure_ok, Prod.exists, Prod.mk.injEq]
  constructor
  · rintro ⟨id, r₁, hread₁, execution, r₂, hread₂, output, r₃, hread₃, len, r₄, hread₄, flags, r₅, hread₅,
      rfl, rfl⟩
    obtain ⟨hid, rfl⟩ := readArray32_reads.split hread₁
    obtain ⟨hexecution, rfl⟩ := readArray32_reads.split hread₂
    obtain ⟨houtput, rfl⟩ := readArray32_reads.split hread₃
    obtain ⟨hlen, rfl⟩ := (readWord_reads 4).split hread₄
    obtain ⟨hflags, rfl⟩ := (readWord_reads 2).split hread₅
    exact ⟨⟨⟨hlen, hflags⟩, ⟨hid, hexecution, houtput⟩⟩,
      by simp only [ReplayRecord.layout, List.append_assoc]⟩
  · rintro ⟨⟨h, hmeasured⟩, rfl⟩
    simp only [ReplayRecord.layout, List.append_assoc]
    exact ⟨_, _, readArray32_reads.append hmeasured.transitionId _, _, _,
      readArray32_reads.append hmeasured.executionDigest _, _, _,
      readArray32_reads.append hmeasured.outputDigest _, _, _, (readWord_reads 4).append h.outputLen _, _, _,
      (readWord_reads 2).append h.flags _, rfl, rfl⟩

def longLayout (bytes : Bytes) : Bytes := word 4 bytes.length ++ bytes

theorem encodeLong_ok {bytes b : Bytes} :
    encodeLong bytes = .ok b ↔ Word 4 bytes.length ∧ b = longLayout bytes := by
  simp only [encodeLong, bind_ok, toBytes_ok, pure_ok]
  constructor
  · rintro ⟨_, ⟨h, rfl⟩, rfl⟩
    exact ⟨h, rfl⟩
  · rintro ⟨h, rfl⟩
    exact ⟨_, ⟨h, rfl⟩, rfl⟩

theorem readLong_reads : Reads (fun bytes : Bytes => Word 4 bytes.length) longLayout readLong := by
  intro r bytes rest
  simp only [readLong, bind_ok, Prod.exists]
  constructor
  · rintro ⟨n, r', hlength, hread⟩
    obtain ⟨hword, rfl⟩ := (readWord_reads 4).split hlength
    obtain ⟨rfl, rfl⟩ := (readBytes_reads n).split hread
    exact ⟨hword, by rw [longLayout, List.append_assoc]⟩
  · rintro ⟨hword, rfl⟩
    refine ⟨_, _, ?_, (readBytes_reads _).append rfl rest⟩
    rw [longLayout, List.append_assoc]
    exact (readWord_reads 4).append hword _

structure TlvEntry.Fits (t : TlvEntry) : Prop where
  tag : Word 2 t.tag
  value : Word 4 t.value.length

def TlvEntry.layout (t : TlvEntry) : Bytes := word 2 t.tag ++ longLayout t.value

theorem encodeTlvEntry_ok (t : TlvEntry) (b : Bytes) :
    encodeTlvEntry t = .ok b ↔ t.Fits ∧ b = t.layout := by
  simp only [encodeTlvEntry, bind_ok, pure_ok, toBytes_ok, encodeLong_ok]
  constructor
  · rintro ⟨_, ⟨htag, rfl⟩, _, ⟨hvalue, rfl⟩, rfl⟩
    exact ⟨⟨htag, hvalue⟩, rfl⟩
  · rintro ⟨h, rfl⟩
    exact ⟨_, ⟨h.tag, rfl⟩, _, ⟨h.value, rfl⟩, rfl⟩

theorem readTlvEntry_reads : Reads TlvEntry.Fits TlvEntry.layout readTlvEntry := by
  intro r t rest
  simp only [readTlvEntry, bind_ok, pure_ok, Prod.exists, Prod.mk.injEq]
  constructor
  · rintro ⟨tag, r₁, hread₁, value, r₂, hread₂, rfl, rfl⟩
    obtain ⟨htag, rfl⟩ := (readWord_reads 2).split hread₁
    obtain ⟨hvalue, rfl⟩ := readLong_reads.split hread₂
    exact ⟨⟨htag, hvalue⟩, by simp only [TlvEntry.layout, List.append_assoc]⟩
  · rintro ⟨h, rfl⟩
    simp only [TlvEntry.layout, List.append_assoc]
    exact ⟨_, _, (readWord_reads 2).append h.tag _, _, _, readLong_reads.append h.value _, rfl, rfl⟩

/-! ## RVFB1 -/

theorem validateState_ok {s : Rvfb1State} (h : validateState s = .ok ()) :
    (∀ a, s.activeSend = some a → a.Measured) ∧ (∀ p ∈ s.replays, p.Measured) ∧
      expectMagic s.trBytes rvft1Magic = .ok () := by
  unfold validateState at h
  simp only [bind_ok, orRaise_ok, checkEach_ok] at h
  obtain ⟨-, -, -, -, -, -, -, -, ⟨⟩, -, -, -, ⟨⟩, -, ⟨⟩, -, ⟨⟩, -, -, hreplays, ⟨⟩, -, ⟨⟩, hactive,
    hmagic⟩ := h
  refine ⟨?_, ?_, hmagic⟩
  · intro a ha
    rw [ha] at hactive
    simp only [validateActiveSend, bind_ok, orRaise_ok, requireBytes_ok] at hactive
    obtain ⟨-, -, -, hbytes, -, hdigest, -⟩ := hactive
    exact ⟨hdigest, hbytes⟩
  · intro p hp
    have hkeys := hreplays p hp
    simp only [requireBytes_ok] at hkeys
    obtain ⟨-, hid, -, hexecution, houtput⟩ := hkeys
    exact ⟨hid, hexecution, houtput⟩

/-- The numbers and lengths of a state have the sizes of the layout. -/
structure Rvfb1State.Fits (s : Rvfb1State) : Prop where
  head : s.prefix_.Fits
  inboundSets : Word 2 s.inboundSets.length ∧ ∀ i ∈ s.inboundSets, i.Fits
  activeSend : ∀ a, s.activeSend = some a → a.Fits
  objects : Word 2 s.objects.length ∧ ∀ o ∈ s.objects, o.Fits
  replays : Word 2 s.replays.length ∧ ∀ p ∈ s.replays, p.Fits
  tlvs : Word 2 s.tlvs.length ∧ ∀ t ∈ s.tlvs, t.Fits
  trBytes : Word 4 s.trBytes.length

def Rvfb1State.layout (s : Rvfb1State) : Bytes :=
  s.prefix_.layout ++ (listLayout InboundSet.layout s.inboundSets ++ (activeLayout s.activeSend ++
    (listLayout BraidObject.layout s.objects ++ (listLayout ReplayRecord.layout s.replays ++
    (listLayout TlvEntry.layout s.tlvs ++ longLayout s.trBytes)))))

theorem encodeRvfb1_ok {s : Rvfb1State} {b : Bytes} :
    encodeRvfb1 s = .ok b ↔ (validateState s = .ok () ∧ s.Fits) ∧ b = s.layout := by
  simp only [encodeRvfb1, bind_ok, pure_ok, encodePrefix_ok, encodeList_ok encodeInboundSet_ok,
    encodeActiveSend_ok, encodeList_ok encodeBraidObject_ok, encodeList_ok encodeReplayRecord_ok,
    encodeList_ok encodeTlvEntry_ok, encodeLong_ok]
  constructor
  · rintro ⟨⟨⟩, hvalid, _, ⟨hhead, rfl⟩, _, ⟨hinbound, rfl⟩, _, ⟨hactive, rfl⟩, _, ⟨hobjects, rfl⟩, _,
      ⟨hreplays, rfl⟩, _, ⟨htlvs, rfl⟩, _, ⟨htr, rfl⟩, rfl⟩
    exact ⟨⟨hvalid, ⟨hhead, hinbound, hactive, hobjects, hreplays, htlvs, htr⟩⟩, rfl⟩
  · rintro ⟨⟨hvalid, h⟩, rfl⟩
    exact ⟨(), hvalid, _, ⟨h.head, rfl⟩, _, ⟨h.inboundSets, rfl⟩, _, ⟨h.activeSend, rfl⟩, _,
      ⟨h.objects, rfl⟩, _, ⟨h.replays, rfl⟩, _, ⟨h.tlvs, rfl⟩, _, ⟨h.trBytes, rfl⟩, rfl⟩

theorem decodeRvfb1_ok {s : Rvfb1State} {b : Bytes} :
    decodeRvfb1 b = .ok s ↔ (validateState s = .ok () ∧ s.Fits) ∧ b = s.layout := by
  unfold decodeRvfb1
  constructor
  · intro h
    simp only [bind_ok, pure_ok, decodePrefix_ok, rejectTrailing_ok, Prod.exists] at h
    obtain ⟨p, ⟨hhead, hdata⟩, inbound, r₁, hread₁, active, r₂, hread₂, objects, r₃, hread₃, replays, r₄,
      hread₄, tlvs, r₅, hread₅, tr, r₆, hread₆, -, rfl, -, -, ⟨⟩, hvalid, rfl⟩ := h
    obtain ⟨hinbound, hread₁⟩ := (readList_reads readInboundSet_reads).split hread₁
    obtain ⟨hactive, rfl⟩ := readActiveSend_reads.split hread₂
    obtain ⟨hobjects, rfl⟩ := (readList_reads readBraidObject_reads).split hread₃
    obtain ⟨⟨hcount, hreplays⟩, rfl⟩ := (readList_reads readReplayRecord_reads).split hread₄
    obtain ⟨htlvs, rfl⟩ := (readList_reads readTlvEntry_reads).split hread₅
    obtain ⟨htr, rfl⟩ := readLong_reads.split hread₆
    refine ⟨⟨hvalid, ⟨hhead, hinbound, fun a ha => (hactive a ha).1, hobjects,
      ⟨hcount, fun p hp => (hreplays p hp).1⟩, htlvs, htr⟩⟩, ?_⟩
    rw [hdata, hread₁]
    simp only [Rvfb1State.layout, List.append_nil]
  · rintro ⟨⟨hvalid, h⟩, rfl⟩
    obtain ⟨hactive, hreplays, hmagic⟩ := validateState_ok hvalid
    have hdrop : s.layout.drop rvfb1PrefixLen = listLayout InboundSet.layout s.inboundSets ++
        (activeLayout s.activeSend ++ (listLayout BraidObject.layout s.objects ++
        (listLayout ReplayRecord.layout s.replays ++ (listLayout TlvEntry.layout s.tlvs ++
        (longLayout s.trBytes ++ []))))) := by
      rw [Rvfb1State.layout, List.drop_left' h.head.layout_length, List.append_nil]
    have hhead : decodePrefix s.layout = .ok s.prefix_ := by
      rw [decodePrefix_ok, hdrop, List.append_nil]
      exact ⟨h.head, rfl⟩
    rw [hhead, hdrop]
    simp only [ok_bind, (readList_reads readInboundSet_reads).append h.inboundSets,
      readActiveSend_reads.append fun a ha => ⟨h.activeSend a ha, hactive a ha⟩,
      (readList_reads readBraidObject_reads).append h.objects,
      (readList_reads readReplayRecord_reads).append
        ⟨h.replays.1, fun p hp => ⟨h.replays.2 p hp, hreplays p hp⟩⟩,
      (readList_reads readTlvEntry_reads).append h.tlvs, readLong_reads.append h.trBytes, rejectTrailing,
      orRaise_pos, hmagic, hvalid]
    rfl

/-- Decoding and encoding are inverse to each other, for the state and for the ratchets in it, and
the ratchets that are valid are never too large. -/
theorem state_codecs_canonical :
    (∀ b s, decodeRvfb1 b = .ok s ↔ encodeRvfb1 s = .ok b) ∧
    (∀ b v, decodeRvft1 b = .ok v ↔ encodeRvft1 v = .ok b) ∧
    (∀ v out, validateRvft1 v = .ok () → writeRvft1 v = .ok out → out.length ≤ rvft1MaxSize) ∧
    (∀ v, encodeRvft1 v = (do
      validateRvft1 v
      writeRvft1 v)) := by
  refine ⟨?_, ?_, ?_, encodeRvft1_eq⟩
  · intro b s
    rw [decodeRvfb1_ok, encodeRvfb1_ok]
  · intro b v
    rw [decodeRvft1_ok, encodeRvft1_ok]
  · intro v out hvalid hwrite
    obtain ⟨-, rfl⟩ := (writeRvft1_ok (validateRvft1_ok hvalid)).mp hwrite
    exact (validateRvft1_ok hvalid).layout_length

end Rdap.Braid
