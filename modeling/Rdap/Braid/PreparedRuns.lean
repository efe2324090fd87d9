import Rdap.Braid.PrepareRefines
import Rdap.Lib.Machine

/-!
# Runs of prepared transitions

The cleared state of a journal is the state that the next transition starts from. The headers of a run
are chained by their digests, number the generations and never repeat an id, and since no path leads to
more than one other the run is short.
-/

set_option autoImplicit false

namespace Rdap.Braid
open Python Lib Protocol

/-- What a transition is given beside the state. -/
structure BraidEvent where
  inputBytes : Bytes
  envBytes : Bytes
  keygenMaterial : Option KeygenMaterial := none
  promoteMaterial : Option PromoteMaterial := none

/-- The bytes of the state that a prepared one is cleared to. -/
def PipelineResult.clearedBytes (self : PipelineResult) : Option Bytes := do
  let prepared ← (decodeRvfb1 self.candidateBytes).toOption
  (encodeRvfb1 (clearedState (promotedState prepared))).toOption

variable (P : Platform) (X : X25519) (O : Oracles)

def BraidEvent.prepare (self : BraidEvent) (stateBytes : Bytes) : Except PyExc PipelineResult :=
  transitionPrepare P X O stateBytes self.inputBytes self.envBytes self.keygenMaterial self.promoteMaterial

def braidMachine : Machine Bytes BraidEvent := fun stateBytes event =>
  (event.prepare P X O stateBytes).toOption.bind PipelineResult.clearedBytes

/-- The headers that the events write, one after the other. -/
def Writes : Bytes → List BraidEvent → List Rvbj1Header → Bytes → Prop
  | stateBytes, [], [], last => last = stateBytes
  | stateBytes, event :: events, header :: headers, last =>
    ∃ r next, event.prepare P X O stateBytes = .ok r ∧
      encodeRvbj1Header header = .ok (r.intentBytes.take 366) ∧
      stateDigest P 1 stateBytes = .ok header.beforeD ∧ stateDigest P 1 next = .ok header.clearedD ∧
      Writes next events headers last
  | _, _, _, _ => False

variable {P : Platform} {X : X25519} {O : Oracles}

/-! ## One step -/

/-- A step of the machine is a journal, and goes to its cleared state. -/
theorem braidMachine_step {stateBytes next : Bytes} {event : BraidEvent}
    (h : braidMachine P X O stateBytes event = some next) :
    ∃ r before candidate header replay, event.prepare P X O stateBytes = .ok r ∧
      decodeRvfb1 stateBytes = .ok before ∧ decodeRvfb1 next = .ok (candidate.committed replay) ∧
      Kept before candidate ∧ candidate.stepsLeft < before.stepsLeft ∧
      encodeRvbj1Header header = .ok (r.intentBytes.take 366) ∧
      stateDigest P 1 stateBytes = .ok header.beforeD ∧ stateDigest P 1 next = .ok header.clearedD ∧
      header.sessionId = before.prefix_.sessionId ∧ header.role = before.prefix_.role ∧
      header.generation = before.prefix_.generation ∧ header.transitionId = replay.transitionId := by
  obtain ⟨r, hprepare, hcleared⟩ := Option.bind_eq_some_iff.mp h
  rw [toOption_some] at hprepare
  obtain ⟨before, inp, env, t, candidate, header, replay, hbefore, -, -, ht, hcandidate, -, hjournal⟩ :=
    prepare_refines_transition.1 r hprepare
  obtain ⟨before', inp', env', applied, hopen, happly, hdecode, -⟩ := transition_ok.mp ht
  obtain rfl : before = before' := Except.ok.inj (hbefore.symm.trans (openInputs_ok.mp hopen).1)
  obtain rfl : candidate = applied.candidate := Except.ok.inj (hcandidate.symm.trans hdecode)
  obtain ⟨hkept, hless, -⟩ := applyOp_ok happly
  obtain ⟨clearedBytes, hclearedBytes, hclearedD⟩ := hjournal.cleared
  have hnext : next = clearedBytes := by
    have hflags := (Rvfb1State.Storable.of_decode hcandidate).2.head.flags.1
    simp only [PipelineResult.clearedBytes, hjournal.prepared.1, Except.toOption, Option.bind_eq_bind,
      Option.bind_some, clearedState_eq hflags, (state_codecs_canonical.1 _ _).mp hclearedBytes] at hcleared
    exact (Option.some.inj hcleared).symm
  obtain ⟨headerBytes, hheader, hlength, hintent⟩ := hjournal.intent
  refine ⟨r, before, applied.candidate, header, replay, hprepare, hbefore, hnext ▸ hclearedBytes, hkept, hless, ?_,
    hjournal.beforeD, hnext ▸ hclearedD, hjournal.session.1, hjournal.session.2.1, hjournal.session.2.2.2, ?_⟩
  · rw [hintent, List.append_assoc, List.take_left' hlength]
    exact hheader
  · rw [hjournal.record]

theorem committed_stepsLeft (candidate : Rvfb1State) (replay : ReplayRecord) :
    (candidate.committed replay).stepsLeft = candidate.stepsLeft := rfl

/-! ## Runs -/

/-- Where a run has come to, after the headers it has written. -/
structure RunsTo (before after : Rvfb1State) (headers : List Rvbj1Header) : Prop where
  sessionId : after.prefix_.sessionId = before.prefix_.sessionId
  role : after.prefix_.role = before.prefix_.role
  generation : after.prefix_.generation = before.prefix_.generation + headers.length
  objects : after.objects = before.objects
  replays : (after.replays.map ReplayRecord.transitionId).Perm
    (headers.map Rvbj1Header.transitionId ++ before.replays.map ReplayRecord.transitionId)
  steps : headers.length + after.stepsLeft ≤ before.stepsLeft
  written : ∀ i (h : i < headers.length), headers[i].sessionId = before.prefix_.sessionId ∧
    headers[i].role = before.prefix_.role ∧ headers[i].generation = before.prefix_.generation + i

theorem runsTo_nil (state : Rvfb1State) : RunsTo state state [] where
  sessionId := rfl
  role := rfl
  generation := (Int.add_zero _).symm
  objects := rfl
  replays := List.Perm.refl _
  steps := Nat.le_of_eq (Nat.zero_add _)
  written := fun _ h => absurd h (Nat.not_lt_zero _)

theorem RunsTo.cons {before candidate after : Rvfb1State} {replay : ReplayRecord} {header : Rvbj1Header}
    {headers : List Rvbj1Header} (hkept : Kept before candidate) (hless : candidate.stepsLeft < before.stepsLeft)
    (hsession : header.sessionId = before.prefix_.sessionId) (hrole : header.role = before.prefix_.role)
    (hgeneration : header.generation = before.prefix_.generation)
    (hid : header.transitionId = replay.transitionId)
    (h : RunsTo (candidate.committed replay) after headers) : RunsTo before after (header :: headers) where
  sessionId := h.sessionId.trans hkept.sessionId
  role := h.role.trans hkept.role
  generation := by
    have hnext : (candidate.committed replay).prefix_.generation = before.prefix_.generation + 1 :=
      congrArg (· + 1) hkept.generation
    rw [h.generation, hnext, List.length_cons]
    push_cast
    omega
  objects := h.objects.trans hkept.objects
  replays := by
    have hadded : ((candidate.committed replay).replays.map ReplayRecord.transitionId).Perm
        (header.transitionId :: before.replays.map ReplayRecord.transitionId) := by
      rw [hid, ← hkept.replays]
      exact (addReplay_perm candidate.replays replay).map ReplayRecord.transitionId
    refine h.replays.trans ((hadded.append_left _).trans ?_)
    rw [List.map_cons, List.cons_append]
    exact List.perm_middle
  steps := by
    have hsteps := h.steps
    rw [committed_stepsLeft] at hsteps
    rw [List.length_cons]
    omega
  written := by
    intro i hi
    cases i with
    | zero => exact ⟨hsession, hrole, hgeneration.trans (Int.add_zero _).symm⟩
    | succ i =>
      obtain ⟨hs, hr, hg⟩ := h.written i (by simpa using hi)
      refine ⟨hs.trans hkept.sessionId, hr.trans hkept.role, ?_⟩
      have hnext : (candidate.committed replay).prefix_.generation = before.prefix_.generation + 1 :=
        congrArg (· + 1) hkept.generation
      rw [List.getElem_cons_succ, hg, hnext]
      push_cast
      omega

theorem run_writes {stateBytes last : Bytes} {events : List BraidEvent} {before : Rvfb1State}
    (hbefore : decodeRvfb1 stateBytes = .ok before)
    (hrun : (braidMachine P X O).run stateBytes events = some last) :
    ∃ after headers, decodeRvfb1 last = .ok after ∧ Writes P X O stateBytes events headers last ∧
      headers.length = events.length ∧ RunsTo before after headers := by
  induction events generalizing stateBytes before with
  | nil =>
    obtain rfl : stateBytes = last := Option.some.inj hrun
    exact ⟨before, [], hbefore, rfl, rfl, runsTo_nil before⟩
  | cons event events ih =>
    obtain ⟨next, hstep, hrest⟩ := (Machine.run_cons _).mp hrun
    obtain ⟨r, before', candidate, header, replay, hprepare, hdecode, hnext, hkept, hless, hheader, hbeforeD,
      hclearedD, hsession, hrole, hgeneration, hid⟩ := braidMachine_step hstep
    obtain rfl : before = before' := Except.ok.inj (hbefore.symm.trans hdecode)
    obtain ⟨after, headers, hlast, hwrites, hlength, hruns⟩ := ih hnext hrest
    exact ⟨after, header :: headers, hlast, ⟨r, next, hprepare, hheader, hbeforeD, hclearedD, hwrites⟩,
      congrArg (· + 1) hlength, hruns.cons hkept hless hsession hrole hgeneration hid⟩

/-- In what events write, the state before is the cleared one of the header before. -/
theorem writes_chained {stateBytes last : Bytes} {events : List BraidEvent} {headers : List Rvbj1Header}
    (h : Writes P X O stateBytes events headers last) :
    (headers.IsChain fun a b => b.beforeD = a.clearedD) ∧
      ∀ first, headers.head? = some first → stateDigest P 1 stateBytes = .ok first.beforeD := by
  induction events generalizing stateBytes headers with
  | nil =>
    cases headers with
    | nil => exact ⟨List.isChain_nil, fun first hfirst => by cases hfirst⟩
    | cons header headers => exact False.elim h
  | cons event events ih =>
    cases headers with
    | nil => exact False.elim h
    | cons header headers =>
      obtain ⟨r, next, -, -, hbeforeD, hclearedD, hrest⟩ := h
      obtain ⟨hchain, hhead⟩ := ih hrest
      refine ⟨List.isChain_cons.mpr ⟨?_, hchain⟩, ?_⟩
      · intro second hsecond
        exact Except.ok.inj ((hhead second hsecond).symm.trans hclearedD)
      · rintro first ⟨⟩
        exact hbeforeD

/-- A run writes headers that are chained by their digests, of one session and one role, with consecutive
generations, and with ids that are new each time; it adds nothing else to the replays, and is over after at most
two steps. -/
theorem prepared_runs {stateBytes last : Bytes} {events : List BraidEvent} {before : Rvfb1State}
    (hbefore : decodeRvfb1 stateBytes = .ok before)
    (hrun : (braidMachine P X O).run stateBytes events = some last) :
    ∃ after headers, decodeRvfb1 last = .ok after ∧ Writes P X O stateBytes events headers last ∧
      headers.length = events.length ∧ RunsTo before after headers ∧
      (headers.IsChain fun a b => b.beforeD = a.clearedD) ∧
      (headers.map Rvbj1Header.transitionId ++ before.replays.map ReplayRecord.transitionId).Nodup ∧
      events.length ≤ 2 := by
  obtain ⟨after, headers, hlast, hwrites, hlength, hruns⟩ := run_writes hbefore hrun
  have hdistinct : (after.replays.map ReplayRecord.transitionId).Nodup := by
    have hsorted := (Rvfb1State.Storable.of_decode hlast).replays_ok.2.1
    refine List.pairwise_map.mpr (hsorted.imp fun {a b} hlt heq => ?_)
    simp only [replayBefore, decide_eq_true_eq, heq] at hlt
    exact List.lt_irrefl _ hlt
  have hsteps := hruns.steps
  have htwo := stepsLeft_le before
  exact ⟨after, headers, hlast, hwrites, hlength, hruns, (writes_chained hwrites).1,
    hruns.replays.nodup_iff.mp hdistinct, by omega⟩

/-- The ratchets of a party that has a key of its peer. -/
def sampleRatchets : Rvft1 where
  sckaRk := List.replicate 32 4
  sckaSendingEpoch := 0
  sckaReceivingEpoch := 0
  sckaSendChain := []
  sckaRecvChain := []
  sckaSendPn := 0
  sckaSkipped := []
  ecRk := List.replicate 32 5
  ecDhsPriv := List.replicate 32 6
  ecDhsPub := List.replicate 32 6
  ecDhrPresent := 1
  ecDhrPub := List.replicate 32 7
  ecCkSendPresent := 0
  ecCkRecvPresent := 1
  ecCkSend := absentKey
  ecCkRecv := List.replicate 32 8
  ecNs := 0
  ecNr := 0
  ecPn := 0
  ecSkipped := []

def promotion : PromoteMaterial where
  sharedSecret := List.replicate 32 10
  encapsState := []
  ct1 := []
  sharedSecret_length := rfl
  encapsState_length h := absurd rfl h
  ct1_length h := absurd rfl h

/-- Alice has received all but the last chunk of the second ciphertext. -/
def almostState : Rvfb1State where
  prefix_ := { waitingState.prefix_ with agent := agentEkSentCt1Received }
  inboundSets := [⟨1, 1, 6, 160, 63, [15, 0, 0, 0, 0, 0, 0, 0],
    (List.range 4).map fun i => ⟨i, List.replicate 32 11⟩⟩]
  activeSend := none
  objects := []
  replays := []
  tlvs := [⟨1, List.replicate 2400 0⟩, ⟨6, List.replicate 960 1⟩]
  trBytes := sampleRatchets.layout

def almostBytes : Bytes := almostState.layout

/-- The authenticator that ends the second ciphertext. -/
def ct2Mac : Bytes := (do
  let outputKey ← kdfOk braidPlatform promotion.sharedSecret 1
  let auth ← authState almostState.prefix_.authRoot almostState.prefix_.authMacKey
  let auth ← auth.update braidPlatform 1 outputKey
  auth.macCt braidPlatform 1 (List.replicate 960 1 ++ List.replicate 128 11)).toOption.getD []

def frameOf (epoch chunkType index : Int) (payload : Bytes) : Rvbc1 where
  epoch
  chunkType
  index
  payload
  binding :=
    (bindingDigest braidPlatform 1 epoch chunkType index payload almostState.prefix_.sessionId).toOption.getD []

def sampleEvidence : AdmittedTrustEvidence := ⟨absentKey, absentKey, absentKey, absentKey⟩

def ct2Env : Rvbe1 := { headerEnv with admittedTrust := some sampleEvidence }

def ct2Input : Rvbi1 where
  op := opReceive
  direction := 1
  ch := some ⟨List.replicate 32 7, 0, 0, 1, 0, 0, 1⟩
  expectedCh := none
  objectDigest := some absentKey
  frame := some (frameOf 1 wireCt2 4 ct2Mac).layout
  mutation := {
    needsAead := 1
    mode := modeOpen
    aad := expectedRvba1 braidPlatform almostState.prefix_.sessionId 1 sampleEvidence
    body := List.replicate 16 0 }

def ct2Event : BraidEvent where
  inputBytes := ct2Input.layout
  envBytes := ct2Env.layout
  promoteMaterial := some promotion

/-- The header of the epoch that the second ciphertext has begun. -/
def nextInput : Rvbi1 := { headerInput with frame := some (frameOf 2 wireHdr 0 (List.replicate 32 9)).layout }

def headerEvent : BraidEvent where
  inputBytes := nextInput.layout
  envBytes := headerEnv.layout

theorem almost_decoded : decodeRvfb1 almostBytes = .ok almostState := by
  have hsome : (encodeRvfb1 almostState).toOption.isSome = true := by decide +kernel
  obtain ⟨bytes, hbytes⟩ := Option.isSome_iff_exists.mp hsome
  have hencoded := toOption_some.mp hbytes
  obtain rfl := (encodeRvfb1_ok.mp hencoded).2
  exact (state_codecs_canonical.1 _ _).mpr hencoded

/-- That the long state is written as it was read is known of the codec and not computed. -/
theorem ct2_opens : openInputs almostBytes ct2Input.layout ct2Env.layout = .ok (almostState, ct2Input, ct2Env) := by
  have hread : (decodeRvbi1 ct2Input.layout = .ok ct2Input ∧ encodeRvbi1 ct2Input = .ok ct2Input.layout) ∧
      decodeRvbe1 ct2Env.layout = .ok ct2Env ∧ encodeRvbe1 ct2Env = .ok ct2Env.layout := by
    decide +kernel
  exact openInputs_ok.mpr ⟨almost_decoded, rfl, hread.1, hread.2, rfl⟩

theorem two_steps_run : ((braidMachine braidPlatform sampleCurve braidOracles).run almostBytes
    [ct2Event, headerEvent]).isSome = true := by
  have hopens : openInputs almostBytes ct2Event.inputBytes ct2Event.envBytes = _ := ct2_opens
  unfold Machine.run
  generalize hrest : (fun t => (braidMachine braidPlatform sampleCurve braidOracles).run t [headerEvent]) = rest
  unfold braidMachine BraidEvent.prepare transitionPrepare transition
  rw [hopens]
  subst hrest
  decide +kernel

theorem prepared_runs_sample :
    ∃ last, (braidMachine braidPlatform sampleCurve braidOracles).run almostBytes [ct2Event, headerEvent] =
        some last ∧
      ∃ after, ∃ headers : List Rvbj1Header, decodeRvfb1 last = .ok after ∧ after.prefix_.generation = 6 ∧
        headers.map Rvbj1Header.generation = [4, 5] ∧ (headers.IsChain fun a b => b.beforeD = a.clearedD) ∧
        (headers.map Rvbj1Header.transitionId).Nodup ∧ after.replays.length = 2 := by
  obtain ⟨last, hrun⟩ := Option.isSome_iff_exists.mp two_steps_run
  obtain ⟨after, headers, hlast, -, hlength, hruns, hchain, hnew, -⟩ := prepared_runs almost_decoded hrun
  obtain ⟨first, second, rfl⟩ := List.length_eq_two.mp hlength
  refine ⟨last, hrun, after, [first, second], hlast, hruns.generation, ?_, hchain, ?_, ?_⟩
  · have hfirst : first.generation = 4 := (hruns.written 0 Nat.two_pos).2.2
    have hsecond : second.generation = 5 := (hruns.written 1 Nat.one_lt_two).2.2
    rw [List.map_cons, List.map_singleton, hfirst, hsecond]
  · exact List.Nodup.of_append_left hnew
  · have hreplays := hruns.replays.length_eq
    rw [List.length_map, List.length_append, List.length_map, List.length_map] at hreplays
    exact hreplays

end Rdap.Braid
