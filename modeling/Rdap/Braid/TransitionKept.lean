import Rdap.Braid.InboundSets
import Rdap.Braid.Transition
import Rdap.Braid.WireCodecs
import Rdap.Braid.StateCanon

/-!
# What a transition leaves alone

No path touches the session, the role, the generation or the replays of a state, and each of them takes
the agent to where fewer paths are left.
-/

set_option autoImplicit false

namespace Rdap.Braid
open Python Lib Protocol

variable {P : Platform} {X : X25519} {O : Oracles}

structure Kept (before after : Rvfb1State) : Prop where
  sessionId : after.prefix_.sessionId = before.prefix_.sessionId
  role : after.prefix_.role = before.prefix_.role
  generation : after.prefix_.generation = before.prefix_.generation
  pendingPhase : after.prefix_.pendingPhase = before.prefix_.pendingPhase
  objects : after.objects = before.objects
  replays : after.replays = before.replays

theorem Kept.refl (state : Rvfb1State) : Kept state state := ⟨rfl, rfl, rfl, rfl, rfl, rfl⟩

theorem Kept.trans {a b c : Rvfb1State} (hab : Kept a b) (hbc : Kept b c) : Kept a c where
  sessionId := hbc.sessionId.trans hab.sessionId
  role := hbc.role.trans hab.role
  generation := hbc.generation.trans hab.generation
  pendingPhase := hbc.pendingPhase.trans hab.pendingPhase
  objects := hbc.objects.trans hab.objects
  replays := hbc.replays.trans hab.replays

/-! ## The steps of the paths -/

theorem emitActive_kept {state after : Rvfb1State} {frame : Rvbc1}
    (h : emitActive P state = .ok (frame, after)) :
    Kept state after ∧ after.prefix_ = state.prefix_ := by
  unfold emitActive at h
  split at h
  · cases h
  · simp only [bind_ok, pure_ok, Prod.mk.injEq] at h
    obtain ⟨-, -, payload, -, binding, -, -, rfl⟩ := h
    exact ⟨⟨rfl, rfl, rfl, rfl, rfl, rfl⟩, rfl⟩

theorem insertSystematicFrame_kept (state : Rvfb1State) (direction : Int) (frame : Rvbc1)
    (sourceKind : Int) :
    Kept state (insertSystematicFrame state direction frame sourceKind).1 ∧
      (insertSystematicFrame state direction frame sourceKind).1.prefix_ = state.prefix_ := by
  unfold insertSystematicFrame
  split
  · exact ⟨Kept.refl state, rfl⟩
  · exact ⟨⟨rfl, rfl, rfl, rfl, rfl, rfl⟩, rfl⟩

theorem applyKeysUnsampledSend_ok {state after : Rvfb1State} {material : KeygenMaterial} {direction : Int}
    {frameBytes : Bytes} (h : applyKeysUnsampledSend P state material direction = .ok (after, frameBytes)) :
    Kept state after ∧ after.prefix_.agent = agentKeysSampled ∧ ∃ frame, encodeRvbc1 frame = .ok frameBytes := by
  simp only [applyKeysUnsampledSend, bind_ok, pure_ok, Prod.mk.injEq] at h
  obtain ⟨-, -, auth, -, tag, -, -, -, payload, -, binding, -, frame, hframe, rfl, rfl⟩ := h
  exact ⟨⟨rfl, rfl, rfl, rfl, rfl, rfl⟩, rfl, _, hframe⟩

/-- A header is taken into an empty set, which holds it from then on. -/
theorem applyHdrReceive_ok {state after : Rvfb1State} {frame : Rvbc1}
    (h : applyHdrReceive state frame = .ok after) :
    Kept state after ∧ after.prefix_.agent = state.prefix_.agent ∧
      (∀ inbound ∈ state.inboundSets, inbound.chunks = []) ∧
      ∃ inbound ∈ after.inboundSets, inbound.chunks ≠ [] := by
  simp only [applyHdrReceive, bind_ok, orRaise_ok] at h
  obtain ⟨-, -, -, -, h⟩ := h
  split at h
  · rename_i inbound hsets
    simp only [bind_ok, orRaise_ok, pure_ok] at h
    obtain ⟨-, ⟨-, hempty⟩, bitmap, -, rfl⟩ := h
    refine ⟨⟨rfl, rfl, rfl, rfl, rfl, rfl⟩, rfl, ?_, _, List.mem_singleton_self _, List.cons_ne_nil _ _⟩
    intro other hother
    rw [hsets, List.mem_singleton] at hother
    rw [hother]
    exact hempty
  · cases h

theorem encaps1_ok {state after : Rvfb1State} {inp : Rvbi1} {env : Rvbe1} {material : PromoteMaterial}
    {frame : Rvbc1} {outputKey : Bytes}
    (h : encaps1 P O state inp env material = .ok (after, frame, outputKey)) :
    Kept state after ∧ after.prefix_.agent = agentCt1Sampled := by
  simp only [encaps1, bind_ok, pure_ok, Prod.mk.injEq, Prod.exists] at h
  obtain ⟨-, -, -, -, header, -, secret, -, -, -, -, -, key, -, auth, -, next, -, rho, -, hek, -, f, sent,
    hemit, rfl, -, -⟩ := h
  obtain ⟨hkept, hhead⟩ := emitActive_kept hemit
  refine ⟨⟨hkept.sessionId, hkept.role, hkept.generation, hkept.pendingPhase, hkept.objects,
    hkept.replays⟩, ?_⟩
  rw [hhead]

theorem confirmSend_ok {state after : Rvfb1State} {inp : Rvbi1} {env : Rvbe1} {frame : Rvbc1}
    {outputKey chOut sealedCt : Bytes} {epoch : Int}
    (h : confirmSend P O state inp env frame outputKey epoch = .ok (after, chOut, sealedCt)) :
    Kept state after ∧ after.prefix_ = state.prefix_ ∧ (∃ ch, encodeRvch1 ch = .ok chOut) ∧
      inp.mutation.expectedCt = some sealedCt := by
  simp only [confirmSend, bind_ok, pure_ok, Prod.exists, Prod.mk.injEq] at h
  obtain ⟨tr, ch, ct, hcompare, trBytes, -, rfl, rfl, rfl⟩ := h
  simp only [sealCompare, bind_ok, orRaise_ok, pure_ok, Prod.exists, Prod.mk.injEq] at hcompare
  obtain ⟨-, -, -, -, old, -, ec, header, mk, -, -, -, chBytes, hch, frameBytes, -, aad, -, -, -, key, nonce,
    -, -, hexpected, -, rfl, rfl⟩ := hcompare
  exact ⟨⟨rfl, rfl, rfl, rfl, rfl, rfl⟩, rfl, ⟨_, hch⟩, hexpected⟩

theorem applyHeaderReceivedSend_ok {state after : Rvfb1State} {inp : Rvbi1} {env : Rvbe1}
    {material : PromoteMaterial} {frame : Rvbc1} {chOut sealedCt : Bytes} {epoch : Int}
    (h : applyHeaderReceivedSend P O state inp env material = .ok (after, frame, chOut, sealedCt, epoch)) :
    Kept state after ∧ after.prefix_.agent = agentCt1Sampled ∧ (∃ ch, encodeRvch1 ch = .ok chOut) ∧
      inp.mutation.expectedCt = some sealedCt := by
  simp only [applyHeaderReceivedSend, bind_ok, pure_ok, Prod.exists, Prod.mk.injEq] at h
  obtain ⟨started, f, key, hencaps, sent, ch, ct, hconfirm, tr, -, promoted, -, trBytes, -, rfl, -, rfl, rfl,
    -⟩ := h
  obtain ⟨hstart, hagent⟩ := encaps1_ok hencaps
  obtain ⟨hkept, hhead, hch, hct⟩ := confirmSend_ok hconfirm
  refine ⟨(hstart.trans hkept).trans ⟨rfl, rfl, rfl, rfl, rfl, rfl⟩, ?_, hch, hct⟩
  rw [← hagent, ← hhead]

theorem acceptCt2_kept {state after : Rvfb1State} {inp : Rvbi1} {frame : Rvbc1} {material : PromoteMaterial}
    {outputKey : Bytes} (h : acceptCt2 P state inp frame material = .ok (after, outputKey)) :
    Kept state after := by
  simp only [acceptCt2, bind_ok, pure_ok, Prod.mk.injEq] at h
  obtain ⟨-, -, -, -, source, -, -, -, -, -, ct1, -, key, -, auth, -, next, -, mac, -, -, -, rfl, -⟩ := h
  exact (insertSystematicFrame_kept state inp.direction frame sourceKindCt2).1.trans
    ⟨rfl, rfl, rfl, rfl, rfl, rfl⟩

theorem confirmReceive_kept {state after : Rvfb1State} {inp : Rvbi1} {env : Rvbe1} {frame : Rvbc1}
    {outputKey : Bytes} {epoch : Int}
    (h : confirmReceive P X O state inp env frame outputKey epoch = .ok after) : Kept state after := by
  simp only [confirmReceive, bind_ok, pure_ok, Prod.exists] at h
  obtain ⟨tr, ec, -, trBytes, -, rfl⟩ := h
  exact ⟨rfl, rfl, rfl, rfl, rfl, rfl⟩

/-- The second ciphertext ends the epoch, and what is inbound begins again with nothing. -/
theorem applyEkSentCt1ReceivedReceive_ok {state after : Rvfb1State} {inp : Rvbi1} {env : Rvbe1}
    {frame : Rvbc1} {material : PromoteMaterial} {epoch : Int}
    (h : applyEkSentCt1ReceivedReceive P X O state inp env frame material = .ok (after, epoch)) :
    Kept state after ∧ after.prefix_.agent = agentNoHeaderReceived := by
  simp only [applyEkSentCt1ReceivedReceive, bind_ok, pure_ok, Prod.exists, Prod.mk.injEq] at h
  obtain ⟨accepted, key, haccept, confirmed, hconfirm, tr, -, promoted, -, trBytes, -, inbound, -, rfl, -⟩ := h
  exact ⟨((acceptCt2_kept haccept).trans (confirmReceive_kept hconfirm)).trans
    ⟨rfl, rfl, rfl, rfl, rfl, rfl⟩, rfl⟩

/-! ## The paths together -/

/-- How many more transitions a state can take. -/
def Rvfb1State.stepsLeft (self : Rvfb1State) : Nat :=
  if self.prefix_.agent = agentEkSentCt1Received then 2
  else if self.prefix_.agent = agentKeysUnsampled ∨ self.prefix_.agent = agentHeaderReceived then 1
  else if self.prefix_.agent = agentNoHeaderReceived ∧ ∀ inbound ∈ self.inboundSets, inbound.chunks = [] then 1
  else 0

theorem stepsLeft_le (state : Rvfb1State) : state.stepsLeft ≤ 2 := by
  unfold Rvfb1State.stepsLeft
  split_ifs <;> decide

theorem stepsLeft_started {state : Rvfb1State}
    (h : state.prefix_.agent = agentKeysSampled ∨ state.prefix_.agent = agentCt1Sampled) :
    state.stepsLeft = 0 := by
  unfold Rvfb1State.stepsLeft
  rcases h with h | h <;> rw [h] <;> simp [agentKeysSampled, agentCt1Sampled, agentEkSentCt1Received,
    agentKeysUnsampled, agentHeaderReceived, agentNoHeaderReceived]

theorem stepsLeft_ready {state : Rvfb1State}
    (h : state.prefix_.agent = agentKeysUnsampled ∨ state.prefix_.agent = agentHeaderReceived) :
    state.stepsLeft = 1 := by
  unfold Rvfb1State.stepsLeft
  rw [if_neg, if_pos h]
  rcases h with h | h <;> rw [h] <;> decide

theorem stepsLeft_noHeader {state : Rvfb1State} (h : state.prefix_.agent = agentNoHeaderReceived) :
    state.stepsLeft = if ∀ inbound ∈ state.inboundSets, inbound.chunks = [] then 1 else 0 := by
  unfold Rvfb1State.stepsLeft
  rw [h, if_neg (by decide), if_neg (by decide)]
  simp only [true_and]

/-- What a path hands out: a frame that is small enough, and with it a channel header and the expected
ciphertext, both or neither. -/
structure Applied.Handed (applied : Applied) (inp : Rvbi1) : Prop where
  frame : ∀ bytes, applied.frameBytes = some bytes → ∃ frame, encodeRvbc1 frame = .ok bytes
  sealing : (applied.chOutBytes = none ∧ applied.sealedCt = none) ∨
    ∃ ch chOut sealedCt, encodeRvch1 ch = .ok chOut ∧ applied.chOutBytes = some chOut ∧
      applied.sealedCt = some sealedCt ∧ inp.mutation.expectedCt = some sealedCt

theorem applySend_ok {state : Rvfb1State} {inp : Rvbi1} {env : Rvbe1} {keygenMaterial : Option KeygenMaterial}
    {promoteMaterial : Option PromoteMaterial} {applied : Applied}
    (h : applySend P O state inp env keygenMaterial promoteMaterial = .ok applied) :
    Kept state applied.candidate ∧ applied.candidate.stepsLeft < state.stepsLeft ∧ applied.Handed inp := by
  unfold applySend at h
  split at h
  · rename_i hagent
    cases keygenMaterial with
    | none => cases h
    | some material =>
      simp only [bind_ok, pure_ok, Prod.exists] at h
      obtain ⟨-, -, after, frameBytes, happly, rfl⟩ := h
      obtain ⟨hkept, hafter, hframe⟩ := applyKeysUnsampledSend_ok happly
      refine ⟨hkept, ?_, ?_, Or.inl ⟨rfl, rfl⟩⟩
      · rw [stepsLeft_ready (Or.inl hagent), stepsLeft_started (Or.inl hafter)]
        decide
      · rintro _ ⟨⟩
        exact hframe
  · rename_i hother
    split at h
    · rename_i hagent
      cases promoteMaterial with
      | none => cases h
      | some material =>
        simp only [bind_ok, pure_ok, Prod.exists] at h
        obtain ⟨after, frame, chOut, sealedCt, epoch, happly, frameBytes, hframe, rfl⟩ := h
        obtain ⟨hkept, hafter, ⟨ch, hch⟩, hct⟩ := applyHeaderReceivedSend_ok happly
        refine ⟨hkept, ?_, ?_, Or.inr ⟨ch, chOut, sealedCt, hch, rfl, rfl, hct⟩⟩
        · rw [stepsLeft_ready (Or.inr hagent), stepsLeft_started (Or.inr hafter)]
          decide
        · rintro _ ⟨⟩
          exact ⟨frame, hframe⟩
    · cases h

theorem applyReceive_ok {state : Rvfb1State} {inp : Rvbi1} {env : Rvbe1}
    {promoteMaterial : Option PromoteMaterial} {applied : Applied}
    (h : applyReceive P X O state inp env promoteMaterial = .ok applied) :
    Kept state applied.candidate ∧ applied.candidate.stepsLeft < state.stepsLeft ∧ applied.Handed inp := by
  simp only [applyReceive, bind_ok] at h
  obtain ⟨frame, -, h⟩ := h
  split at h
  · rename_i hagent
    simp only [bind_ok, pure_ok] at h
    obtain ⟨after, happly, rfl⟩ := h
    obtain ⟨hkept, hafter, hempty, inbound, hmem, hfilled⟩ := applyHdrReceive_ok happly
    refine ⟨hkept, ?_, by rintro _ ⟨⟩, Or.inl ⟨rfl, rfl⟩⟩
    rw [stepsLeft_noHeader hagent, stepsLeft_noHeader (hafter.trans hagent), if_pos hempty,
      if_neg fun hall => hfilled (hall inbound hmem)]
    decide
  · split at h
    · rename_i hagent
      cases promoteMaterial with
      | none => cases h
      | some material =>
        simp only [bind_ok, pure_ok, Prod.exists] at h
        obtain ⟨after, epoch, happly, rfl⟩ := h
        obtain ⟨hkept, hafter⟩ := applyEkSentCt1ReceivedReceive_ok happly
        refine ⟨hkept, ?_, by rintro _ ⟨⟩, Or.inl ⟨rfl, rfl⟩⟩
        have htwo : state.stepsLeft = 2 := if_pos hagent
        rw [stepsLeft_noHeader hafter, htwo]
        split_ifs <;> decide
    · cases h

theorem applyOp_ok {state : Rvfb1State} {inp : Rvbi1} {env : Rvbe1} {keygenMaterial : Option KeygenMaterial}
    {promoteMaterial : Option PromoteMaterial} {applied : Applied}
    (h : applyOp P X O state inp env keygenMaterial promoteMaterial = .ok applied) :
    Kept state applied.candidate ∧ applied.candidate.stepsLeft < state.stepsLeft ∧ applied.Handed inp := by
  unfold applyOp at h
  split at h
  · exact applySend_ok h
  · split at h
    · exact applyReceive_ok h
    · cases h

/-! ## The transition -/

theorem openInputs_ok {stateBytes inputBytes envBytes : Bytes} {before : Rvfb1State} {inp : Rvbi1}
    {env : Rvbe1} : openInputs stateBytes inputBytes envBytes = .ok (before, inp, env) ↔
      decodeRvfb1 stateBytes = .ok before ∧ before.prefix_.pendingPhase = 0 ∧
      (decodeRvbi1 inputBytes = .ok inp ∧ encodeRvbi1 inp = .ok inputBytes) ∧
      (decodeRvbe1 envBytes = .ok env ∧ encodeRvbe1 env = .ok envBytes) ∧
      expectedDirection before.prefix_.role inp.op = some inp.direction := by
  simp only [openInputs, validateRoleMode, bind_ok, orRaise_ok, pure_ok, Prod.mk.injEq]
  constructor
  · rintro ⟨s, hstate, encoded, -, -, -, -, hphase, i, hinput, _, hinp, -, rfl, e, henv, _, hencoded, -, rfl,
      -, hdirection, rfl, rfl, rfl⟩
    exact ⟨hstate, hphase, ⟨hinput, hinp⟩, ⟨henv, hencoded⟩, hdirection⟩
  · rintro ⟨hstate, hphase, ⟨hinput, hinp⟩, ⟨henv, hencoded⟩, hdirection⟩
    exact ⟨before, hstate, stateBytes, (state_codecs_canonical.1 _ _).mp hstate, (), rfl, (), hphase, inp,
      hinput, _, hinp, (), rfl, env, henv, _, hencoded, (), rfl, (), hdirection, rfl, rfl, rfl⟩

theorem transition_ok {stateBytes inputBytes envBytes : Bytes} {keygenMaterial : Option KeygenMaterial}
    {promoteMaterial : Option PromoteMaterial} {t : TransitionResult} :
    transition P X O stateBytes inputBytes envBytes keygenMaterial promoteMaterial = .ok t ↔
    ∃ before inp env applied, openInputs stateBytes inputBytes envBytes = .ok (before, inp, env) ∧
      applyOp P X O before inp env keygenMaterial promoteMaterial = .ok applied ∧
      decodeRvfb1 t.candidateBytes = .ok applied.candidate ∧
      t = {
        candidateBytes := t.candidateBytes
        frameBytes := applied.frameBytes
        chOutBytes := applied.chOutBytes
        sealedCt := applied.sealedCt
        info := {
          sendingEpoch := applied.candidate.prefix_.braidSendEpoch
          receivingEpoch := applied.candidate.prefix_.braidRecvEpoch
          outputKeyEpoch := applied.outputKeyEpoch } } := by
  simp only [transition, bind_ok, pure_ok, Prod.exists]
  constructor
  · rintro ⟨before, inp, env, hopen, candidate, hcandidate, applied, happly, bytes, hencode, rfl⟩
    obtain rfl : before = candidate := Except.ok.inj ((openInputs_ok.mp hopen).1.symm.trans hcandidate)
    exact ⟨before, inp, env, applied, hopen, happly, (state_codecs_canonical.1 _ _).mpr hencode, rfl⟩
  · rintro ⟨before, inp, env, applied, hopen, happly, hcandidate, ht⟩
    exact ⟨before, inp, env, hopen, before, (openInputs_ok.mp hopen).1, applied, happly, t.candidateBytes,
      (state_codecs_canonical.1 _ _).mp hcandidate, ht.symm⟩

end Rdap.Braid
