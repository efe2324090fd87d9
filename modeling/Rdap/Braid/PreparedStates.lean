import Rdap.Braid.Prepare
import Rdap.Braid.TransitionKept

/-!
# The three states of a journal

When the prepared, the promoted and the cleared state can be stored, and what the header of the journal
takes.
-/

set_option autoImplicit false

namespace Rdap.Braid
open Python Lib

variable {P : Platform}

/-! ## Flags -/

theorem clearFlag_word {flags : Int} (h : Word 4 flags) : Word 4 (clearFlag flags 0) := by
  unfold Word at *
  unfold clearFlag
  rw [Nat.testBit_zero]
  split
  · rename_i hodd
    have := of_decide_eq_true hodd
    omega
  · exact h

theorem setFlag_word {flags : Int} (h : Word 4 flags) : Word 4 (setFlag flags 0) := by
  unfold Word at *
  unfold setFlag
  rw [Nat.testBit_zero]
  split
  · exact h
  · rename_i heven
    have : flags.toNat % 2 ≠ 1 := fun hodd => heven (decide_eq_true hodd)
    omega

/-- The bit of a clear flag is clear. -/
theorem clearFlag_even {flags : Int} (h : 0 ≤ flags) : clearFlag flags 0 % 2 = 0 := by
  unfold clearFlag
  rw [Nat.testBit_zero]
  split
  · rename_i hodd
    have := of_decide_eq_true hodd
    omega
  · rename_i heven
    have : flags.toNat % 2 ≠ 1 := fun hodd => heven (decide_eq_true hodd)
    omega

/-- Setting the bit and clearing it again does nothing where it is clear. -/
theorem clearFlag_setFlag {flags : Int} (h : 0 ≤ flags) (heven : flags % 2 = 0) :
    clearFlag (setFlag flags 0) 0 = flags := by
  unfold setFlag clearFlag
  have hset : ¬ flags.toNat.testBit 0 = true := by
    rw [Nat.testBit_zero, decide_eq_true_eq]
    omega
  rw [if_neg hset, if_pos]
  · omega
  · rw [Nat.testBit_zero, decide_eq_true_eq]
    omega

/-! ## Replays -/

theorem replayBefore_trans (a b c : ReplayRecord) (hab : replayBefore a b = true)
    (hbc : replayBefore b c = true) : replayBefore a c = true := by
  simp only [replayBefore, decide_eq_true_eq] at *
  exact List.lt_trans hab hbc

theorem addReplay_perm (replays : List ReplayRecord) (replay : ReplayRecord) :
    (addReplay replays replay).Perm (replay :: replays) :=
  (List.perm_insertionSort _ _).trans (List.perm_append_singleton replay replays)

theorem addReplay_length (replays : List ReplayRecord) (replay : ReplayRecord) :
    (addReplay replays replay).length = replays.length + 1 := (addReplay_perm replays replay).length_eq

/-- Where the id is new, the replays stay strictly sorted. -/
theorem addReplay_sorted {replays : List ReplayRecord} {replay : ReplayRecord}
    (h : replays.Pairwise fun a b => replayBefore a b = true) :
    (addReplay replays replay).Pairwise (fun a b => replayBefore a b = true) ↔
      ∀ p ∈ replays, p.transitionId ≠ replay.transitionId := by
  constructor
  · intro hsorted p hp heq
    have hne : (addReplay replays replay).Pairwise fun a b => a.transitionId ≠ b.transitionId := by
      refine hsorted.imp fun {a b} hlt heq => ?_
      simp only [replayBefore, decide_eq_true_eq, heq] at hlt
      exact List.lt_irrefl _ hlt
    have hcons := ((addReplay_perm replays replay).pairwise_iff fun {a b} h => Ne.symm h).mp hne
    exact (List.pairwise_cons.mp hcons).1 p hp heq.symm
  · intro hnew
    have : Std.Total fun a b : ReplayRecord => a.transitionId ≤ b.transitionId :=
      ⟨fun a b => List.le_total a.transitionId b.transitionId⟩
    have : IsTrans ReplayRecord fun a b => a.transitionId ≤ b.transitionId :=
      ⟨fun a b c hab hbc => List.le_trans hab hbc⟩
    apply insertionSort_strict (r := fun a b : ReplayRecord => a.transitionId ≤ b.transitionId)
    · intro a b _ hnot
      exact decide_eq_true (List.not_le.mp hnot)
    · rw [List.pairwise_append]
      refine ⟨h.imp fun {a b} hlt hboth => ?_, List.pairwise_singleton _ _, ?_⟩
      · exact List.not_le.mpr (of_decide_eq_true hlt) hboth.2
      · rintro a ha b hb ⟨hle, hge⟩
        obtain rfl := List.mem_singleton.mp hb
        exact hnew a ha (List.le_antisymm hle hge)

/-! ## What can be stored -/

/-- The states that the encoder takes. -/
def Rvfb1State.Storable (self : Rvfb1State) : Prop := validateState self = .ok () ∧ self.Fits

/-- Of the prefix only the role and the agent are looked at. -/
theorem validateState_headed {state after : Rvfb1State} (hrole : after.prefix_.role = state.prefix_.role)
    (hagent : after.prefix_.agent = state.prefix_.agent) (hrest : after = { state with prefix_ := after.prefix_ }) :
    validateState after = validateState state := by
  rw [hrest]
  unfold validateState
  rw [hrole, hagent]

theorem validateState_replays {state : Rvfb1State} {replays : List ReplayRecord}
    (h : validateState state = .ok ()) :
    validateState { state with replays } = .ok () ↔ replays.length ≤ maxReplays ∧
      replays.Pairwise (fun a b => replayBefore a b = true) ∧ ∀ p ∈ replays, p.Measured := by
  unfold validateState at h ⊢
  simp only [bind_ok, orRaise_ok, checkEach_ok, requireBytes_ok, exists_const,
    strictlySorted_ok replayBefore_trans] at h ⊢
  obtain ⟨hrole, hinbound, hobjects, -, u₁, hsets, heach, u₂, hsorted, -, u₃, htlvs, -, hrest⟩ := h
  constructor
  · rintro ⟨-, -, -, hlength, -, -, -, -, -, hreplays, -, -, heach, -⟩
    exact ⟨hlength, hreplays, fun p hp => ⟨(heach p hp).1, (heach p hp).2.1, (heach p hp).2.2⟩⟩
  · rintro ⟨hlength, hreplays, hmeasured⟩
    refine ⟨hrole, hinbound, hobjects, hlength, u₁, hsets, heach, u₂, hsorted, hreplays, u₃, htlvs, ?_, hrest⟩
    intro p hp
    exact ⟨(hmeasured p hp).transitionId, (hmeasured p hp).executionDigest, (hmeasured p hp).outputDigest⟩

/-- What a state that is valid says about its replays. -/
theorem Rvfb1State.Storable.replays_ok {state : Rvfb1State} (h : state.Storable) :
    state.replays.length ≤ maxReplays ∧ state.replays.Pairwise (fun a b => replayBefore a b = true) ∧
      ∀ p ∈ state.replays, p.Measured :=
  @validateState_replays state state.replays h.1 |>.mp h.1

theorem Rvfb1State.Storable.of_decode {state : Rvfb1State} {bytes : Bytes}
    (h : decodeRvfb1 bytes = .ok state) : state.Storable := (decodeRvfb1_ok.mp h).1

/-- A candidate can be prepared as long as there is room for one more replay, with a new id. -/
theorem storable_prepared {candidate : Rvfb1State} {replay : ReplayRecord} {beforeD : Bytes}
    (h : candidate.Storable) (hfits : replay.Fits) (hmeasured : replay.Measured) (hbefore : beforeD.length = 32) :
    (preparedState candidate replay beforeD).Storable ↔ candidate.replays.length < maxReplays ∧
      ∀ p ∈ candidate.replays, p.transitionId ≠ replay.transitionId := by
  obtain ⟨-, hsorted, heach⟩ := h.replays_ok
  have hmem : ∀ p, p ∈ addReplay candidate.replays replay ↔ p = replay ∨ p ∈ candidate.replays := by
    intro p
    rw [(addReplay_perm candidate.replays replay).mem_iff, List.mem_cons]
  have hvalid : validateState (preparedState candidate replay beforeD) = .ok () ↔
      candidate.replays.length < maxReplays ∧
      ∀ p ∈ candidate.replays, p.transitionId ≠ replay.transitionId := by
    have hshape : validateState (preparedState candidate replay beforeD) =
        validateState { candidate with replays := addReplay candidate.replays replay } :=
      validateState_headed rfl rfl rfl
    rw [hshape, validateState_replays h.1, addReplay_length, addReplay_sorted hsorted]
    constructor
    · rintro ⟨hlength, hnew, -⟩
      exact ⟨hlength, hnew⟩
    · rintro ⟨hlength, hnew⟩
      refine ⟨hlength, hnew, fun p hp => ?_⟩
      rcases (hmem p).mp hp with rfl | hp
      · exact hmeasured
      · exact heach p hp
  constructor
  · exact fun hstorable => hvalid.mp hstorable.1
  · intro hroom
    have hhead := h.2.head
    refine ⟨hvalid.mpr hroom, ⟨?_, h.2.inboundSets, h.2.activeSend, h.2.objects, ⟨?_, ?_⟩, h.2.tlvs,
      h.2.trBytes⟩⟩
    · exact ⟨hhead.sessionId, hhead.role, hhead.generation, hhead.agent, hhead.terminalReason, hhead.authRoot,
        hhead.authMacKey, hhead.agentEpoch, hhead.sendEpoch, hhead.recvEpoch, clearFlag_word hhead.flags,
        show Word 1 1 by decide, hmeasured.transitionId, hbefore, hmeasured.outputDigest, hmeasured.executionDigest⟩
    · have hlength : (preparedState candidate replay beforeD).replays.length = candidate.replays.length + 1 :=
        addReplay_length candidate.replays replay
      rw [hlength]
      have hmax := hroom.1
      unfold maxReplays at hmax
      exact word_natCast (by omega)
    · intro p hp
      rcases (hmem p).mp hp with rfl | hp
      · exact hfits
      · exact h.2.replays.2 p hp

theorem storable_promoted {prepared : Rvfb1State} (h : prepared.Storable) : (promotedState prepared).Storable := by
  have hhead := h.2.head
  refine ⟨(validateState_headed rfl rfl rfl).trans h.1, ⟨?_, h.2.inboundSets, h.2.activeSend, h.2.objects,
    h.2.replays, h.2.tlvs, h.2.trBytes⟩⟩
  exact ⟨hhead.sessionId, hhead.role, hhead.generation, hhead.agent, hhead.terminalReason, hhead.authRoot,
    hhead.authMacKey, hhead.agentEpoch, hhead.sendEpoch, hhead.recvEpoch, setFlag_word hhead.flags,
    show Word 1 2 by decide, hhead.pendingTransitionId, hhead.pendingBeforeDigest, hhead.pendingOutputDigest,
    hhead.pendingExecutionDigest⟩

/-- A promoted state can be cleared as long as its generation can be counted. -/
theorem storable_cleared {promoted : Rvfb1State} (h : promoted.Storable) :
    (clearedState promoted).Storable ↔ promoted.prefix_.generation + 1 < 2 ^ 64 := by
  have hhead := h.2.head
  constructor
  · intro hstorable
    exact hstorable.2.head.generation.2
  · intro hgeneration
    have hkey : absentKey.length = 32 := List.length_replicate
    refine ⟨(validateState_headed rfl rfl rfl).trans h.1, ⟨?_, h.2.inboundSets, h.2.activeSend, h.2.objects,
      h.2.replays, h.2.tlvs, h.2.trBytes⟩⟩
    refine ⟨hhead.sessionId, hhead.role, ⟨?_, hgeneration⟩, hhead.agent, hhead.terminalReason, hhead.authRoot,
      hhead.authMacKey, hhead.agentEpoch, hhead.sendEpoch, hhead.recvEpoch, clearFlag_word hhead.flags,
      show Word 1 0 by decide, hkey, hkey, hkey, hkey⟩
    have := hhead.generation.1
    show 0 ≤ promoted.prefix_.generation + 1
    omega

/-! ## The transition as a whole -/

/-- What a transition comes to: the candidate with one more replay, in the next generation, and with nothing
pending. -/
def Rvfb1State.committed (self : Rvfb1State) (replay : ReplayRecord) : Rvfb1State :=
  { self with
    replays := addReplay self.replays replay
    prefix_ := { self.prefix_ with
      generation := self.prefix_.generation + 1
      flags := clearFlag self.prefix_.flags flagAwaitingComplete
      pendingPhase := 0
      pendingTransitionId := absentKey
      pendingBeforeDigest := absentKey
      pendingOutputDigest := absentKey
      pendingExecutionDigest := absentKey } }

theorem clearedState_eq {candidate : Rvfb1State} (h : 0 ≤ candidate.prefix_.flags) (replay : ReplayRecord)
    (beforeD : Bytes) :
    clearedState (promotedState (preparedState candidate replay beforeD)) = candidate.committed replay := by
  have hflags : clearFlag (setFlag (clearFlag candidate.prefix_.flags 0) 0) 0 =
      clearFlag candidate.prefix_.flags 0 := by
    apply clearFlag_setFlag _ (clearFlag_even h)
    unfold clearFlag
    rw [Nat.testBit_zero]
    split
    · rename_i hodd
      have := of_decide_eq_true hodd
      omega
    · exact h
  unfold clearedState promotedState preparedState Rvfb1State.committed
  simp only [flagAwaitingComplete, hflags]

/-! ## The digests and the header -/

theorem stateDigest_ok {bytes digest : Bytes} :
    stateDigest P 1 bytes = .ok digest ↔ digest = P.sha256 (domainState ++ word 2 1 ++ bytes) := by
  simp only [stateDigest, bind_ok, toBytes_ok, pure_ok]
  constructor
  · rintro ⟨_, ⟨-, rfl⟩, rfl⟩
    rfl
  · rintro rfl
    exact ⟨_, ⟨by decide, rfl⟩, rfl⟩

theorem executionDigest_ok {inputBytes envBytes digest : Bytes} (hinput : Word 4 inputBytes.length)
    (henv : Word 4 envBytes.length) : executionDigest P inputBytes envBytes = .ok digest ↔
      digest = P.sha256 (domainExecution ++ word 4 inputBytes.length ++ inputBytes ++
        word 4 envBytes.length ++ envBytes) := by
  simp only [executionDigest, bind_ok, toBytes_ok, pure_ok]
  constructor
  · rintro ⟨_, ⟨-, rfl⟩, _, ⟨-, rfl⟩, rfl⟩
    rfl
  · rintro rfl
    exact ⟨_, ⟨hinput, rfl⟩, _, ⟨henv, rfl⟩, rfl⟩

theorem transitionIdDigest_length {sessionId execution beforeState digest : Bytes}
    {role direction generation : Int}
    (h : transitionIdDigest P sessionId role direction generation execution beforeState = .ok digest) :
    digest.length = 32 := by
  simp only [transitionIdDigest, bind_ok, pure_ok] at h
  obtain ⟨-, -, _, -, rfl⟩ := h
  exact P.sha256_length _

theorem transitionIdDigest_defined {sessionId execution beforeState : Bytes} {generation : Int}
    (role direction : Int) (hsession : sessionId.length = 32) (hexecution : execution.length = 32) (hbefore : beforeState.length = 32)
    (hgeneration : Word 8 generation) :
    ∃ digest, transitionIdDigest P sessionId role direction generation execution beforeState = .ok digest := by
  simp only [transitionIdDigest, bind_ok, orRaise_ok, toBytes_ok, pure_ok]
  exact ⟨_, (), ⟨hsession, hexecution, hbefore⟩, _, ⟨hgeneration, rfl⟩, rfl⟩

/-- The lengths that the header is written with. -/
structure Rvbj1Header.Measured (header : Rvbj1Header) : Prop where
  sessionId : header.sessionId.length = 32
  transitionId : header.transitionId.length = 32
  execution : header.execution.length = 32
  inputD : header.inputD.length = 32
  beforeD : header.beforeD.length = 32
  preparedD : header.preparedD.length = 32
  promotedD : header.promotedD.length = 32
  clearedD : header.clearedD.length = 32
  outputD : header.outputD.length = 32
  objectD : header.objectD.length = 32

theorem encodeRvbj1Header_length {header : Rvbj1Header} (h : header.Measured) {bytes : Bytes}
    (hencode : encodeRvbj1Header header = .ok bytes) : bytes.length = 366 := by
  simp only [encodeRvbj1Header, bind_ok, toBytes_ok, pure_ok] at hencode
  obtain ⟨_, ⟨-, rfl⟩, _, ⟨-, rfl⟩, _, ⟨-, rfl⟩, _, ⟨-, rfl⟩, _, ⟨-, rfl⟩, _, ⟨-, rfl⟩, rfl⟩ := hencode
  simp [u8, rvbj1Magic, h.sessionId, h.transitionId, h.execution, h.inputD, h.beforeD, h.preparedD,
    h.promotedD, h.clearedD, h.outputD, h.objectD]

theorem encodeRvbj1Header_defined {header : Rvbj1Header} :
    (∃ bytes, encodeRvbj1Header header = .ok bytes) ↔ Word 8 header.generation ∧
      Word 8 header.retentionOriginMs ∧ Word 8 header.retentionExpiryMs ∧ Word 4 header.candidateLen ∧
      Word 4 header.outputsLen := by
  simp only [encodeRvbj1Header, bind_ok, toBytes_ok, pure_ok]
  constructor
  · rintro ⟨_, _, -, _, ⟨hgeneration, -⟩, _, ⟨horigin, -⟩, _, ⟨hexpiry, -⟩, _, ⟨hcandidate, -⟩, _, ⟨houtputs, -⟩,
      -⟩
    exact ⟨hgeneration, horigin, hexpiry, hcandidate, houtputs⟩
  · rintro ⟨hgeneration, horigin, hexpiry, hcandidate, houtputs⟩
    exact ⟨_, _, ⟨by decide, rfl⟩, _, ⟨hgeneration, rfl⟩, _, ⟨horigin, rfl⟩, _, ⟨hexpiry, rfl⟩, _,
      ⟨hcandidate, rfl⟩, _, ⟨houtputs, rfl⟩, rfl⟩

end Rdap.Braid
