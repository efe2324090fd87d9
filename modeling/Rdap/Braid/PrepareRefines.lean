import Rdap.Braid.PreparedStates
import Rdap.Protocol.RatchetAgreement

/-!
# Preparing refines the transition

Where a transition is prepared it is accepted, and the journal holds its candidate in the three states.
Where it is accepted it can be prepared, unless there is no room for it.
-/

set_option autoImplicit false

namespace Rdap.Braid
open Python Lib Protocol

variable {P : Platform} {X : X25519} {O : Oracles}

/-! ## Sizes -/

theorem rvch1_length {ch : Rvch1} {bytes : Bytes} (h : encodeRvch1 ch = .ok bytes) : bytes.length = rvch1Len := by
  obtain ⟨⟨hsized, -⟩, rfl⟩ := encodeRvch1_ok.mp h
  exact hsized.layout_length

theorem rvbc1_length {frame : Rvbc1} {bytes : Bytes} (h : encodeRvbc1 frame = .ok bytes) :
    bytes.length ≤ rvbc1MaxLen := by
  obtain ⟨hsized, rfl⟩ := encodeRvbc1_ok.mp h
  rw [Rvbc1.layout_length hsized.binding]
  exact (Rvbc1.encodedLen_range hsized.payload).2

theorem presentLayout_le {α : Type} {enc : α → Bytes} {o : Option α} {n : Nat}
    (h : ∀ a, o = some a → (enc a).length = n) : (presentLayout enc o).length ≤ n + 2 := by
  cases o with
  | none => simp [presentLayout]
  | some a =>
    have hlength := h a rfl
    simp [presentLayout, hlength]
    omega

theorem sectionOf_le {o : Option Bytes} {n : Nat} (h : ∀ bytes, o = some bytes → bytes.length ≤ n) :
    (sectionOf o).length ≤ n + 4 := by
  cases o with
  | none => simp [sectionOf]
  | some bytes =>
    have hlength := h bytes rfl
    simp [sectionOf]
    omega

theorem rvbm1_length {m : Rvbm1} (h : validateRvbm1Contract m = .ok ()) (hwhole : m.Whole) :
    m.layout.length ≤ 16700 := by
  obtain ⟨-, -, -, haad, -, hbody, -, -, hct⟩ := rvbm1_contract h
  have hsection := sectionOf_le hct
  unfold Rvbm1.layout
  simp only [List.length_append, word_length, u8_length, hwhole.2, rvbm1Magic, List.length_cons, List.length_nil]
  simp only [rvba1Len, braidMaxAeadCiphertextBytes] at haad hbody hsection
  split
  · omega
  · rw [List.length_nil]
    omega

theorem rvbi1_length {inp : Rvbi1} {bytes : Bytes} (h : decodeRvbi1 bytes = .ok inp) :
    bytes.length < 2 ^ 16 := by
  obtain ⟨⟨hsized, hwhole, -⟩, rfl⟩ := decodeRvbi1_ok.mp h
  have hch := presentLayout_le fun ch hsome => (hsized.ch ch hsome).layout_length
  have hexpected := presentLayout_le fun ch hsome => (hsized.expectedCh ch hsome).layout_length
  have hdigest : (presentLayout (fun digest => digest) inp.objectDigest).length ≤ 32 + 2 :=
    presentLayout_le hsized.objectDigest
  have hmutation := rvbm1_length hsized.mutation hwhole.mutation
  have hframe : (if inp.op = opReceive then sectionOf inp.frame else []).length ≤ rvbc1MaxLen + 4 := by
    split
    · rename_i hop
      exact sectionOf_le fun frame hsome => (hsized.frame hop frame hsome).length.2
    · simp
  unfold Rvbi1.layout
  simp only [List.length_append, word_length, u8_length, rvbi1Magic, List.length_cons, List.length_nil]
  simp only [rvch1Len, rvbc1MaxLen] at hch hexpected hframe
  omega

theorem rvbe1_length {env : Rvbe1} {bytes : Bytes} (h : decodeRvbe1 bytes = .ok env) :
    bytes.length < 2 ^ 16 := by
  obtain ⟨⟨hsized, hwhole⟩, rfl⟩ := decodeRvbe1_ok.mp h
  have hcaps := hsized.caps
  unfold validateRvbe1Caps validateRvbe1SeedLens at hcaps
  simp only [bind_ok, orRaise_ok] at hcaps
  obtain ⟨-, -, -, -, -, -, -, -, -, -, -, hkeygen, -, hencaps, hdh⟩ := hcaps
  have htrust : (trustLayout env.admittedTrust).length ≤ 2 + admittedTrustLen := by
    cases htrust : env.admittedTrust with
    | none => simp [trustLayout]
    | some t => simp [trustLayout, sizedLayout, (hwhole t htrust).length]
  unfold Rvbe1.layout
  simp only [List.length_append, word_length, sizedLayout, rvbe1Magic, List.length_cons, List.length_nil]
  simp only [admittedTrustLen] at htrust
  omega

/-- The outputs of a path can be encoded, and are short. -/
theorem outputsOf_defined {applied : Applied} {inp : Rvbi1} (h : applied.Handed inp)
    (hmutation : validateRvbm1Contract inp.mutation = .ok ()) {t : TransitionResult}
    (hframe : t.frameBytes = applied.frameBytes) (hch : t.chOutBytes = applied.chOutBytes)
    (hct : t.sealedCt = applied.sealedCt) : ∃ outputs, outputsOf t = .ok outputs ∧ outputs.length < 2 ^ 16 := by
  unfold outputsOf
  rw [hframe, hch, hct]
  cases hbytes : applied.frameBytes with
  | none =>
    refine ⟨encodeEmptyRvbo1, rfl, ?_⟩
    decide
  | some bytes =>
    obtain ⟨frame, hencode⟩ := h.frame bytes hbytes
    have hlength := rvbc1_length hencode
    have hword : Word 4 bytes.length := word_natCast (by simp only [rvbc1MaxLen] at hlength; omega)
    have hlong : encodeLong bytes = .ok (longLayout bytes) := encodeLong_ok.mpr ⟨hword, rfl⟩
    have hschema : toBytes 2 rvbo1Schema = .ok (word 2 rvbo1Schema) := rfl
    have hone : toBytes 2 (([bytes].length : Nat) : Int) = .ok (word 2 1) := toBytes_pos (w := 2) (n := 1) (by decide)
    simp only [encodeRvbo1Frames, encodeEach, hschema, hone, hlong, ok_bind]
    rcases h.sealing with ⟨hnone, hnone'⟩ | ⟨ch, chOut, sealedCt, hchOut, hsome, hsome', hexpected⟩
    · rw [hnone, hnone']
      refine ⟨_, rfl, ?_⟩
      simp only [rvbc1MaxLen] at hlength
      simp [rvbo1Magic, u8, longLayout]
      omega
    · have hct : sealedCt.length ≤ braidMaxAeadCiphertextBytes :=
        (rvbm1_contract hmutation).2.2.2.2.2.2.2.2 sealedCt hexpected
      have hlong' : encodeLong sealedCt = .ok (longLayout sealedCt) :=
        encodeLong_ok.mpr ⟨word_natCast (by simp only [braidMaxAeadCiphertextBytes] at hct; omega), rfl⟩
      have hchLength := rvch1_length hchOut
      rw [hsome, hsome']
      simp only [encodeSealing, hlong', ok_bind, orRaise_pos hchLength]
      refine ⟨_, rfl, ?_⟩
      simp only [rvbc1MaxLen, braidMaxAeadCiphertextBytes, rvch1Len] at hlength hct hchLength
      simp [rvbo1Magic, u8, longLayout, hchLength]
      omega

/-! ## The journal -/

/-- What is written down of a transition that takes a state to a candidate. -/
structure Journalled (P : Platform) (stateBytes inputBytes envBytes : Bytes) (before : Rvfb1State) (inp : Rvbi1)
    (env : Rvbe1) (candidate : Rvfb1State) (header : Rvbj1Header) (replay : ReplayRecord) (r : PipelineResult) :
    Prop where
  session : header.sessionId = before.prefix_.sessionId ∧ header.role = before.prefix_.role ∧
    header.direction = inp.direction ∧ header.generation = before.prefix_.generation
  beforeD : stateDigest P 1 stateBytes = .ok header.beforeD
  inputD : header.inputD = inputDigest P inputBytes
  execution : executionDigest P inputBytes envBytes = .ok header.execution
  outputD : header.outputD = outputDigest P r.outputsBytes
  objectD : header.objectD = inp.objectDigest.getD absentKey
  transitionId : transitionIdDigest P header.sessionId header.role header.direction header.generation
    header.execution header.beforeD = .ok header.transitionId
  retention : header.retentionOriginMs = env.clock ∧ header.retentionExpiryMs = env.clock + braidRvorTtlMs
  record : replay = {
    transitionId := header.transitionId
    executionDigest := header.execution
    outputDigest := header.outputD
    outputLen := r.outputsBytes.length
    flags := 0 }
  replays : (candidate.committed replay).replays.Perm (replay :: candidate.replays) ∧
    (candidate.committed replay).replays.Pairwise fun a b => a.transitionId < b.transitionId
  prepared : decodeRvfb1 r.candidateBytes = .ok (preparedState candidate replay header.beforeD) ∧
    stateDigest P 1 r.candidateBytes = .ok header.preparedD
  promoted : ∃ bytes, decodeRvfb1 bytes = .ok (promotedState (preparedState candidate replay header.beforeD)) ∧
    stateDigest P 1 bytes = .ok header.promotedD
  cleared : ∃ bytes, decodeRvfb1 bytes = .ok (candidate.committed replay) ∧
    stateDigest P 1 bytes = .ok header.clearedD
  lengths : header.candidateLen = r.candidateBytes.length ∧ header.outputsLen = r.outputsBytes.length
  intent : ∃ bytes, encodeRvbj1Header header = .ok bytes ∧ bytes.length = 366 ∧
    r.intentBytes = bytes ++ r.candidateBytes ++ r.outputsBytes
  info : r.info.transitionId = header.transitionId ∧ r.info.pendingPhase = 1

theorem prepareCandidate_journals {stateBytes inputBytes envBytes : Bytes} {before candidate : Rvfb1State}
    {inp : Rvbi1} {env : Rvbe1} {execution outputs : Bytes} {outputKeyEpoch : Option Int} {r : PipelineResult}
    (hbefore : before.Storable) (hcandidate : candidate.Storable)
    (hdigest : ∀ digest, inp.objectDigest = some digest → digest.length = 32)
    (hexecution : executionDigest P inputBytes envBytes = .ok execution)
    (h : prepareCandidate P before stateBytes candidate inp.direction execution (inputDigest P inputBytes)
      (inp.objectDigest.getD absentKey) outputs env.clock 0 outputKeyEpoch = .ok r) :
    r.outputsBytes = outputs ∧ ∃ header replay,
      Journalled P stateBytes inputBytes envBytes before inp env candidate header replay r := by
  have hexecutionLength : execution.length = 32 := by
    simp only [executionDigest, bind_ok, pure_ok] at hexecution
    obtain ⟨_, -, _, -, rfl⟩ := hexecution
    exact P.sha256_length _
  simp only [prepareCandidate, promotedAndCleared, bind_ok, pure_ok, Prod.exists, Prod.mk.injEq] at h
  obtain ⟨beforeD, hbeforeD, transitionId, hid, candidateBytes, hprepared, _, _,
    ⟨promotedBytes, hpromoted, clearedBytes, hcleared, rfl, rfl⟩, preparedD, hpreparedD, promotedD, hpromotedD,
    clearedD, hclearedD, headerBytes, hheader, rfl⟩ := h
  have hidLength := transitionIdDigest_length hid
  have hflags : 0 ≤ candidate.prefix_.flags := hcandidate.2.head.flags.1
  rw [clearedState_eq hflags] at hcleared
  have hstorable := (encodeRvfb1_ok.mp hcleared).1
  have hprepared' := (state_codecs_canonical.1 _ _).mpr hprepared
  have hpromoted' := (state_codecs_canonical.1 _ _).mpr hpromoted
  have hcleared' := (state_codecs_canonical.1 _ _).mpr hcleared
  refine ⟨rfl, {
    sessionId := before.prefix_.sessionId
    role := before.prefix_.role
    direction := inp.direction
    intentKind := intentNormal
    generation := before.prefix_.generation
    transitionId, execution
    inputD := inputDigest P inputBytes
    beforeD, preparedD, promotedD, clearedD
    outputD := outputDigest P outputs
    objectD := inp.objectDigest.getD absentKey
    retentionOriginMs := env.clock
    retentionExpiryMs := env.clock + braidRvorTtlMs
    candidateLen := candidateBytes.length
    outputsLen := outputs.length },
    ⟨transitionId, execution, outputDigest P outputs, outputs.length, 0⟩, ?_⟩
  refine {
    session := ⟨rfl, rfl, rfl, rfl⟩
    beforeD := hbeforeD
    inputD := rfl
    execution := hexecution
    outputD := rfl
    objectD := rfl
    transitionId := hid
    retention := ⟨rfl, rfl⟩
    record := rfl
    replays := ⟨addReplay_perm _ _, ?_⟩
    prepared := ⟨hprepared', hpreparedD⟩
    promoted := ⟨promotedBytes, hpromoted', hpromotedD⟩
    cleared := ⟨clearedBytes, hcleared', hclearedD⟩
    lengths := ⟨rfl, rfl⟩
    intent := ⟨headerBytes, hheader, ?_, rfl⟩
    info := ⟨rfl, rfl⟩ }
  · have hsorted := (Rvfb1State.Storable.replays_ok hstorable).2.1
    exact hsorted.imp fun hlt => of_decide_eq_true hlt
  · have hsha : ∀ {bytes digest : Bytes}, stateDigest P 1 bytes = .ok digest → digest.length = 32 := by
      intro bytes digest h
      rw [stateDigest_ok.mp h]
      exact P.sha256_length _
    apply encodeRvbj1Header_length _ hheader
    refine ⟨hbefore.2.head.sessionId, hidLength, hexecutionLength, P.sha256_length _, hsha hbeforeD,
      hsha hpreparedD, hsha hpromotedD, hsha hclearedD, P.sha256_length _, ?_⟩
    show (inp.objectDigest.getD absentKey).length = 32
    cases hobject : inp.objectDigest with
    | none => exact List.length_replicate
    | some digest => exact hdigest digest hobject

/-! ## Room -/

/-- What a journal needs. -/
structure Room (candidate : Rvfb1State) (transitionId : Bytes) (clock : Int) : Prop where
  replays : candidate.replays.length < maxReplays
  fresh : ∀ p ∈ candidate.replays, p.transitionId ≠ transitionId
  generation : candidate.prefix_.generation + 1 < 2 ^ 64
  expiry : clock + braidRvorTtlMs < 2 ^ 64
  size : candidate.layout.length + 102 < 2 ^ 32

theorem prepared_length {candidate : Rvfb1State} {replay : ReplayRecord} {beforeD : Bytes}
    (h : candidate.Storable) (hprepared : (preparedState candidate replay beforeD).Storable)
    (hmeasured : replay.Measured) :
    (preparedState candidate replay beforeD).layout.length = candidate.layout.length + 102 := by
  have hone : replay.layout.length = 102 := by
    simp [ReplayRecord.layout, hmeasured.transitionId, hmeasured.executionDigest, hmeasured.outputDigest]
  have hreplays : (listLayout ReplayRecord.layout (addReplay candidate.replays replay)).length =
      (listLayout ReplayRecord.layout candidate.replays).length + 102 := by
    have hperm := ((addReplay_perm candidate.replays replay).flatMap_right ReplayRecord.layout).length_eq
    simp only [listLayout, List.length_append, word_length, hperm, List.flatMap_cons, hone]
    omega
  unfold Rvfb1State.layout
  simp only [List.length_append, hprepared.2.head.layout_length, h.2.head.layout_length]
  simp only [preparedState, hreplays]
  omega

theorem prepareCandidate_defined {stateBytes execution inputD objectD outputs : Bytes}
    {before candidate : Rvfb1State} {direction clock : Int} {outputKeyEpoch : Option Int}
    (hbefore : before.Storable) (hcandidate : candidate.Storable)
    (hexecution : execution.length = 32) (houtputs : outputs.length < 2 ^ 16) (hclock : Word 8 clock)
    {beforeD transitionId : Bytes} (hbeforeD : stateDigest P 1 stateBytes = .ok beforeD)
    (hid : transitionIdDigest P before.prefix_.sessionId before.prefix_.role direction before.prefix_.generation
      execution beforeD = .ok transitionId) :
    (∃ r, prepareCandidate P before stateBytes candidate direction execution inputD objectD outputs clock 0
      outputKeyEpoch = .ok r) ↔ Room candidate transitionId clock := by
  have hbeforeLength : beforeD.length = 32 := by
    rw [stateDigest_ok.mp hbeforeD]
    exact P.sha256_length _
  have houtputsWord : Word 4 outputs.length := word_natCast (by omega)
  have hmeasured : ReplayRecord.Measured ⟨transitionId, execution, outputDigest P outputs, outputs.length, 0⟩ :=
    ⟨transitionIdDigest_length hid, hexecution, P.sha256_length _⟩
  have hroom := storable_prepared hcandidate ⟨houtputsWord, show Word 2 0 by decide⟩ hmeasured hbeforeLength
  simp only [prepareCandidate, promotedAndCleared, hbeforeD, hid, ok_bind]
  constructor
  · simp only [bind_ok, pure_ok, Prod.exists]
    rintro ⟨_, candidateBytes, hprepared, _, _, ⟨promotedBytes, -, clearedBytes, hcleared, -⟩, _, -, _, -, _, -,
      headerBytes, hheader, -⟩
    obtain ⟨hstorable, rfl⟩ := encodeRvfb1_ok.mp hprepared
    obtain ⟨hlength, hfresh⟩ := hroom.mp hstorable
    obtain ⟨-, -, hexpiry, hsize, -⟩ := encodeRvbj1Header_defined.mp ⟨headerBytes, hheader⟩
    refine ⟨hlength, hfresh, ?_, hexpiry.2, ?_⟩
    · exact (storable_cleared (storable_promoted hstorable)).mp (encodeRvfb1_ok.mp hcleared).1
    · rw [← prepared_length hcandidate hstorable hmeasured]
      have := hsize.2
      norm_num at this ⊢
      exact_mod_cast this
  · intro room
    have hstorable := hroom.mpr ⟨room.replays, room.fresh⟩
    have hpromoted := storable_promoted hstorable
    have hcleared := (storable_cleared hpromoted).mpr room.generation
    have hsize := room.size
    rw [← prepared_length hcandidate hstorable hmeasured] at hsize
    have hexpiry : Word 8 (clock + braidRvorTtlMs) := by
      refine ⟨?_, room.expiry⟩
      have := hclock.1
      simp only [braidRvorTtlMs]
      omega
    simp only [encodeRvfb1_ok.mpr ⟨hstorable, rfl⟩, encodeRvfb1_ok.mpr ⟨hpromoted, rfl⟩,
      encodeRvfb1_ok.mpr ⟨hcleared, rfl⟩, stateDigest_ok.mpr rfl, ok_bind, pure_bind]
    generalize hencode : encodeRvbj1Header _ = encoded
    obtain ⟨headerBytes, rfl⟩ : ∃ bytes, encoded = .ok bytes := by
      rw [← hencode]
      exact encodeRvbj1Header_defined.mpr
        ⟨hbefore.2.head.generation, hclock, hexpiry, word_natCast hsize, houtputsWord⟩
    exact ⟨_, rfl⟩

/-! ## Refinement -/

/-- The parts of a preparation, in front of which the transition stands. -/
theorem transitionPrepare_of {stateBytes inputBytes envBytes : Bytes} {keygenMaterial : Option KeygenMaterial}
    {promoteMaterial : Option PromoteMaterial} {t : TransitionResult}
    (h : transition P X O stateBytes inputBytes envBytes keygenMaterial promoteMaterial = .ok t) :
    ∃ before inp env applied outputs execution,
      openInputs stateBytes inputBytes envBytes = .ok (before, inp, env) ∧
      applyOp P X O before inp env keygenMaterial promoteMaterial = .ok applied ∧
      decodeRvfb1 t.candidateBytes = .ok applied.candidate ∧
      (outputsOf t = .ok outputs ∧ outputs.length < 2 ^ 16) ∧
      executionDigest P inputBytes envBytes = .ok execution ∧
      transitionPrepare P X O stateBytes inputBytes envBytes keygenMaterial promoteMaterial =
        prepareCandidate P before stateBytes applied.candidate inp.direction execution
          (inputDigest P inputBytes) (inp.objectDigest.getD absentKey) outputs env.clock 0
          applied.outputKeyEpoch := by
  obtain ⟨before, inp, env, applied, hopen, happly, hcandidate, ht⟩ := transition_ok.mp h
  obtain ⟨hbefore, -, ⟨hinp, -⟩, ⟨henv, -⟩, -⟩ := openInputs_ok.mp hopen
  obtain ⟨-, -, hhanded⟩ := applyOp_ok happly
  have hmutation := (decodeRvbi1_ok.mp hinp).1.1.mutation
  obtain ⟨outputs, houtputs, hlength⟩ := outputsOf_defined (t := t) hhanded hmutation (by rw [ht]) (by rw [ht])
    (by rw [ht])
  have hinput := rvbi1_length hinp
  have henvLength := rvbe1_length henv
  have hinputWord : Word 4 inputBytes.length := word_natCast (by omega)
  have henvWord : Word 4 envBytes.length := word_natCast (by omega)
  have hexecution := (executionDigest_ok (P := P) hinputWord henvWord).mpr rfl
  refine ⟨before, inp, env, applied, outputs, _, hopen, happly, hcandidate, ⟨houtputs, hlength⟩, hexecution, ?_⟩
  have hflags : t.info.flags = 0 := by rw [ht]
  have hepoch : t.info.outputKeyEpoch = applied.outputKeyEpoch := by rw [ht]
  unfold transitionPrepare
  rw [hbefore, ok_bind, hinp, ok_bind, henv, ok_bind, h, ok_bind, hcandidate, ok_bind, houtputs, ok_bind,
    hexecution, ok_bind, hflags, hepoch]

/-- A preparation journals the candidate of the transition, in the next generation and with one more replay,
and nothing but a lack of room keeps a transition from being prepared. -/
theorem prepare_refines_transition {stateBytes inputBytes envBytes : Bytes}
    {keygenMaterial : Option KeygenMaterial} {promoteMaterial : Option PromoteMaterial} :
    (∀ r, transitionPrepare P X O stateBytes inputBytes envBytes keygenMaterial promoteMaterial = .ok r →
      ∃ before inp env t candidate header replay,
        decodeRvfb1 stateBytes = .ok before ∧ decodeRvbi1 inputBytes = .ok inp ∧ decodeRvbe1 envBytes = .ok env ∧
        transition P X O stateBytes inputBytes envBytes keygenMaterial promoteMaterial = .ok t ∧
        decodeRvfb1 t.candidateBytes = .ok candidate ∧ outputsOf t = .ok r.outputsBytes ∧
        Journalled P stateBytes inputBytes envBytes before inp env candidate header replay r) ∧
    ∀ t, transition P X O stateBytes inputBytes envBytes keygenMaterial promoteMaterial = .ok t →
      ∃ before inp env candidate execution beforeD transitionId,
        decodeRvfb1 stateBytes = .ok before ∧ decodeRvbi1 inputBytes = .ok inp ∧ decodeRvbe1 envBytes = .ok env ∧
        decodeRvfb1 t.candidateBytes = .ok candidate ∧
        executionDigest P inputBytes envBytes = .ok execution ∧ stateDigest P 1 stateBytes = .ok beforeD ∧
        transitionIdDigest P before.prefix_.sessionId before.prefix_.role inp.direction
          before.prefix_.generation execution beforeD = .ok transitionId ∧
        ((∃ r, transitionPrepare P X O stateBytes inputBytes envBytes keygenMaterial promoteMaterial = .ok r) ↔
          Room candidate transitionId env.clock) := by
  constructor
  · intro r h
    have hdefined : ∃ t, transition P X O stateBytes inputBytes envBytes keygenMaterial promoteMaterial = .ok t := by
      simp only [transitionPrepare, bind_ok] at h
      obtain ⟨-, -, -, -, -, -, t, ht, -⟩ := h
      exact ⟨t, ht⟩
    obtain ⟨t, ht⟩ := hdefined
    obtain ⟨before, inp, env, applied, outputs, execution, hopen, -, hcandidate, ⟨houtputs, -⟩, hexecution,
      heq⟩ := transitionPrepare_of ht
    obtain ⟨hbefore, -, ⟨hinp, -⟩, ⟨henv, -⟩, -⟩ := openInputs_ok.mp hopen
    rw [heq] at h
    obtain ⟨rfl, header, replay, hjournal⟩ := prepareCandidate_journals (.of_decode hbefore)
      (.of_decode hcandidate) (decodeRvbi1_ok.mp hinp).1.1.objectDigest hexecution h
    exact ⟨before, inp, env, t, applied.candidate, header, replay, hbefore, hinp, henv, ht, hcandidate, houtputs,
      hjournal⟩
  · intro t ht
    obtain ⟨before, inp, env, applied, outputs, execution, hopen, -, hcandidate, ⟨-, hlength⟩, hexecution,
      heq⟩ := transitionPrepare_of ht
    obtain ⟨hbefore, -, ⟨hinp, -⟩, ⟨henv, -⟩, -⟩ := openInputs_ok.mp hopen
    have hstorable := Rvfb1State.Storable.of_decode hbefore
    have hexecutionLength : execution.length = 32 := by
      simp only [executionDigest, bind_ok, pure_ok] at hexecution
      obtain ⟨_, -, _, -, rfl⟩ := hexecution
      exact P.sha256_length _
    have hbeforeD : stateDigest P 1 stateBytes = .ok (P.sha256 (domainState ++ word 2 1 ++ stateBytes)) :=
      stateDigest_ok.mpr rfl
    obtain ⟨transitionId, hid⟩ := transitionIdDigest_defined before.prefix_.role inp.direction
      hstorable.2.head.sessionId hexecutionLength (P.sha256_length (domainState ++ word 2 1 ++ stateBytes))
      hstorable.2.head.generation
    refine ⟨before, inp, env, applied.candidate, execution, _, transitionId, hbefore, hinp, henv, hcandidate,
      hexecution, hbeforeD, hid, ?_⟩
    rw [heq]
    exact prepareCandidate_defined hstorable (.of_decode hcandidate) hexecutionLength hlength
      (decodeRvbe1_ok.mp henv).1.1.clock hbeforeD hid

section Sample

def braidPlatform : Platform := Platform.ofTable []

def braidOracles : Oracles where
  sha3_512 _ := List.replicate 64 0
  encrypt _ _ body _ := body ++ List.replicate 16 0
  decrypt _ _ body _ := some (body.take (body.length - 16))

/-- Alice, who waits for the header of the first epoch. -/
def waitingState : Rvfb1State where
  prefix_ := {
    sessionId := List.replicate 32 3, role := 0, generation := 4, agent := 5, terminalReason := 0
    authRoot := List.replicate 32 1, authMacKey := List.replicate 32 2, braidAgentEpoch := 1
    braidSendEpoch := 0, braidRecvEpoch := 0, flags := 0, pendingPhase := 0, pendingTransitionId := absentKey
    pendingBeforeDigest := absentKey, pendingOutputDigest := absentKey, pendingExecutionDigest := absentKey }
  inboundSets := [⟨1, 1, 1, 96, 63, List.replicate 8 0, []⟩]
  activeSend := none
  objects := []
  replays := []
  tlvs := []
  trBytes := rvft1Magic

def waitingBytes : Bytes := waitingState.layout

def headerFrame : Rvbc1 where
  epoch := 1
  chunkType := wireHdr
  index := 0
  payload := List.replicate 32 9
  binding := (bindingDigest braidPlatform 1 1 wireHdr 0 (List.replicate 32 9) (List.replicate 32 3)).toOption.getD []

def headerInput : Rvbi1 where
  op := opReceive
  direction := 1
  ch := none
  expectedCh := none
  objectDigest := some absentKey
  frame := some headerFrame.layout
  mutation := {}

def headerEnv : Rvbe1 := ⟨1000, 0, 0, 0, 0, 0, [], [], [], none⟩

theorem prepare_refines_transition_sample :
    ∃ r t candidate, transitionPrepare braidPlatform sampleCurve braidOracles waitingBytes headerInput.layout
        headerEnv.layout none none = .ok r ∧
      transition braidPlatform sampleCurve braidOracles waitingBytes headerInput.layout headerEnv.layout none none =
        .ok t ∧
      decodeRvfb1 t.candidateBytes = .ok candidate ∧ outputsOf t = .ok r.outputsBytes ∧
      ∃ transitionId, Room candidate transitionId headerEnv.clock := by
  obtain ⟨r, hr⟩ : ∃ r, transitionPrepare braidPlatform sampleCurve braidOracles waitingBytes headerInput.layout
      headerEnv.layout none none = .ok r := by
    have hsome : (transitionPrepare braidPlatform sampleCurve braidOracles waitingBytes headerInput.layout
      headerEnv.layout none none).toOption.isSome = true := by decide +kernel
    obtain ⟨r, hr⟩ := Option.isSome_iff_exists.mp hsome
    exact ⟨r, toOption_some.mp hr⟩
  obtain ⟨hjournal, hroom⟩ := prepare_refines_transition (P := braidPlatform) (X := sampleCurve)
    (O := braidOracles)
  obtain ⟨before, inp, env, t, candidate, header, replay, -, -, -, ht, hcandidate, houtputs, -⟩ := hjournal r hr
  obtain ⟨before', inp', env', candidate', execution, beforeD, transitionId, -, -, henv, hcandidate', -, -, -,
    hiff⟩ := hroom t ht
  obtain rfl : candidate = candidate' := Except.ok.inj (hcandidate.symm.trans hcandidate')
  have hclock : env' = headerEnv := by
    have hdecode : decodeRvbe1 headerEnv.layout = .ok headerEnv := by decide +kernel
    exact Except.ok.inj (henv.symm.trans hdecode)
  exact ⟨r, t, candidate, hr, ht, hcandidate, houtputs, transitionId, hclock ▸ hiff.mp ⟨r, hr⟩⟩

end Sample

end Rdap.Braid
