import Rdap.Braid.InboundSets

/-!
# Sources put together again

The frames that are emitted for a source are its stretches of 32 bytes. Whatever else is received and in
whatever order they come, their set holds just the ones that have come, and is joined to the source when it
holds them all.
-/

set_option autoImplicit false

namespace Rdap.Braid
open Python Lib

/-! ## Pieces -/

/-- The stretch of a source that its frame with this index carries. -/
def piece (source : Bytes) (i : Nat) : Bytes := (source.drop (i * chunkWidth)).take chunkWidth

theorem flatMap_piece (source : Bytes) (n : Nat) :
    (List.range n).flatMap (piece source) = source.take (n * chunkWidth) := by
  induction n with
  | zero => simp
  | succ n ih =>
    rw [List.range_succ, List.flatMap_append, ih, Nat.add_mul, Nat.one_mul, List.take_add]
    simp [piece]

theorem sourceLength_whole {kind length : Int} (h : sourceLength kind = some length) :
    0 ≤ length ∧ length % chunkWidth = 0 := by
  unfold sourceLength at h
  split_ifs at h <;> obtain rfl := Option.some.inj h <;> decide

/-- What a set with just these pieces of a source is joined to. -/
theorem InboundSet.Sound.joined {inbound : InboundSet} (h : inbound.Sound) {source : Bytes}
    (hlength : inbound.expectedSourceLen = source.length) {arrived : Nat → Prop}
    (hchunks : ∀ c, c ∈ inbound.chunks ↔
      ∃ i < source.length / chunkWidth, arrived i ∧ c = ⟨(i : Int), piece source i⟩) :
    ((∀ i < source.length / chunkWidth, arrived i) → inbound.joined = some source) ∧
      ((∃ i < source.length / chunkWidth, ¬ arrived i) → inbound.joined = none) := by
  have hneeded : (inbound.expectedSourceLen / chunkWidth).toNat = source.length / chunkWidth := by
    rw [hlength]
    rfl
  have hwhole : source.length / chunkWidth * chunkWidth = source.length := by
    have hmod := (sourceLength_whole h.length).2
    rw [hlength] at hmod
    have hwidth : chunkWidth = 32 := rfl
    rw [hwidth] at hmod ⊢
    omega
  have hrows : (inbound.chunks.map fun c => (c.index, c.payload)).map Prod.fst =
      inbound.chunks.map InboundChunk.index := by
    rw [List.map_map]
    rfl
  have hget : ∀ i < source.length / chunkWidth, ∀ p,
      (KeyedTable.ofRows (inbound.chunks.map fun c => (c.index, c.payload))).get? (i : Int) = some p ↔
        arrived i ∧ p = piece source i := by
    intro i hi p
    unfold KeyedTable.ofRows
    rw [KeyedTable.get?_eq_some, KeyedTable.foldl_set_rows, KeyedTable.empty_rows, List.nil_append, List.mem_map]
    · constructor
      · rintro ⟨c, hc, heq⟩
        obtain ⟨j, hj, harrived, rfl⟩ := (hchunks c).mp hc
        obtain ⟨hindex, rfl⟩ := Prod.mk.inj heq
        obtain rfl : j = i := Int.ofNat.inj hindex
        exact ⟨harrived, rfl⟩
      · rintro ⟨harrived, rfl⟩
        exact ⟨_, (hchunks _).mpr ⟨i, hi, harrived, rfl⟩, rfl⟩
    · rw [KeyedTable.empty_rows, List.nil_append, hrows]
      exact indices_nodup h.sorted
  unfold InboundSet.joined
  simp only [hneeded]
  constructor
  · intro hall
    rw [if_pos]
    · have hpieces : ∀ i ∈ List.range (source.length / chunkWidth),
          ((KeyedTable.ofRows (inbound.chunks.map fun c => (c.index, c.payload))).get? (i : Int)).getD [] =
            piece source i := by
        intro i hi
        have hlt := List.mem_range.mp hi
        rw [(hget i hlt _).mpr ⟨hall i hlt, rfl⟩]
        rfl
      rw [List.flatMap_congr hpieces, flatMap_piece, hwhole, List.take_length]
    · intro i hi
      rw [KeyedTable.contains, (hget i hi _).mpr ⟨hall i hi, rfl⟩]
      rfl
  · rintro ⟨i, hi, hmissing⟩
    rw [if_neg]
    intro hcontains
    obtain ⟨p, hp⟩ := Option.isSome_iff_exists.mp (hcontains i hi)
    exact hmissing ((hget i hi p).mp hp).1

/-! ## Emitted frames -/

variable {P : Platform}

theorem emitActive_ok {state next : Rvfb1State} {active : ActiveSend} {frame : Rvbc1}
    (hactive : state.activeSend = some active) (h : emitActive P state = .ok (frame, next)) :
    ∃ i < active.sourceBytes.length / chunkWidth, i ≤ 63 ∧ active.sourceBytes.length % chunkWidth = 0 ∧
      frame.epoch = active.epoch ∧ frame.index = (i : Int) ∧ frame.payload = piece active.sourceBytes i ∧
      next.activeSend = some { active with nextSpqrIndex := i + 1 } := by
  unfold emitActive systematicChunk at h
  rw [hactive] at h
  simp only [bind_ok, orRaise_ok, exists_const, pure_ok, Prod.mk.injEq] at h
  obtain ⟨⟨-, hmax⟩, _, ⟨hwhole, ⟨hlow, hhigh⟩, rfl⟩, _, -, rfl, rfl⟩ := h
  have hnat : ((active.nextSpqrIndex.toNat : Nat) : Int) = active.nextSpqrIndex := Int.toNat_of_nonneg hlow
  refine ⟨active.nextSpqrIndex.toNat, by omega, by omega, hwhole, rfl, hnat.symm, rfl, ?_⟩
  rw [hnat]

/-- Every frame carries the piece of the source with its index. -/
theorem emitMany_frames {k : Nat} {state last : Rvfb1State} {active : ActiveSend} {frames : List Rvbc1}
    (hactive : state.activeSend = some active) (h : emitMany P k state = .ok (frames, last)) :
    ∀ frame ∈ frames, ∃ i < active.sourceBytes.length / chunkWidth, i ≤ 63 ∧
      active.sourceBytes.length % chunkWidth = 0 ∧ frame.epoch = active.epoch ∧ frame.index = (i : Int) ∧
      frame.payload = piece active.sourceBytes i := by
  induction k generalizing state active frames with
  | zero =>
    obtain ⟨rfl, -⟩ := Prod.mk.inj (Except.ok.inj h)
    exact fun frame hframe => absurd hframe List.not_mem_nil
  | succ k ih =>
    unfold emitMany at h
    obtain ⟨⟨first, mid⟩, hfirst, h⟩ := bind_ok.mp h
    obtain ⟨⟨rest, last'⟩, hrest, h⟩ := bind_ok.mp h
    obtain ⟨rfl, rfl⟩ := Prod.mk.inj (pure_ok.mp h)
    obtain ⟨i, hi, hmax, hwhole, hepoch, hindex, hpayload, hnext⟩ := emitActive_ok hactive hfirst
    intro frame hframe
    rcases List.mem_cons.mp hframe with rfl | hframe
    · exact ⟨i, hi, hmax, hwhole, hepoch, hindex, hpayload⟩
    · exact ih hnext hrest frame hframe

theorem emitActive_defined {state : Rvfb1State} {active : ActiveSend} {i : Nat}
    (hactive : state.activeSend = some active) (hindex : active.nextSpqrIndex = i)
    (hepoch : active.epoch = state.prefix_.braidAgentEpoch) (hword : Word 8 active.epoch)
    (hsession : state.prefix_.sessionId.length = 32) (hwhole : active.sourceBytes.length % chunkWidth = 0)
    (hi : i < active.sourceBytes.length / chunkWidth) (hmax : i ≤ 63) :
    ∃ frame next, emitActive P state = .ok (frame, next) ∧ frame.index = (i : Int) ∧ next.prefix_ = state.prefix_ ∧
      next.activeSend = some { active with nextSpqrIndex := i + 1 } := by
  have hindexWord : Word 4 active.nextSpqrIndex := ⟨by omega, by omega⟩
  have hpiece : systematicChunk active.sourceBytes active.nextSpqrIndex = .ok (piece active.sourceBytes i) := by
    unfold systematicChunk
    simp only [bind_ok, orRaise_ok, exists_const, pure_ok]
    refine ⟨hwhole, ⟨by omega, by omega⟩, ?_⟩
    rw [hindex]
    rfl
  obtain ⟨binding, hbinding⟩ : ∃ binding, bindingDigest P active.direction active.epoch active.wireType
      active.nextSpqrIndex (piece active.sourceBytes i) state.prefix_.sessionId = .ok binding := by
    unfold bindingDigest
    rw [orRaise_pos hsession, toBytes_pos hword, toBytes_pos hindexWord]
    exact ⟨_, rfl⟩
  refine ⟨⟨active.epoch, active.wireType, active.nextSpqrIndex, piece active.sourceBytes i, binding⟩,
    { state with activeSend := some { active with nextSpqrIndex := active.nextSpqrIndex + 1 } }, ?_, hindex, rfl,
    by rw [hindex]⟩
  unfold emitActive
  rw [hactive]
  simp only [bind_ok, orRaise_ok, exists_const, pure_ok]
  exact ⟨⟨hepoch, by omega⟩, _, hpiece, _, hbinding, rfl⟩

/-- A source is emitted whole. -/
theorem emitMany_defined {k i : Nat} {state : Rvfb1State} {active : ActiveSend}
    (hactive : state.activeSend = some active) (hindex : active.nextSpqrIndex = i)
    (hepoch : active.epoch = state.prefix_.braidAgentEpoch) (hword : Word 8 active.epoch)
    (hsession : state.prefix_.sessionId.length = 32) (hwhole : active.sourceBytes.length % chunkWidth = 0)
    (hend : i + k = active.sourceBytes.length / chunkWidth) (hmax : i + k ≤ 64) :
    ∃ frames last, emitMany P k state = .ok (frames, last) ∧
      frames.map Rvbc1.index = (List.range' i k).map Int.ofNat := by
  induction k generalizing i state active with
  | zero => exact ⟨[], state, rfl, rfl⟩
  | succ k ih =>
    obtain ⟨frame, next, hframe, hframeIndex, hkept, hnext⟩ :=
      emitActive_defined (P := P) hactive hindex hepoch hword hsession hwhole (by omega) (by omega)
    obtain ⟨frames, last, hframes, hindices⟩ := @ih (i + 1) next { active with nextSpqrIndex := i + 1 } hnext rfl
      (hepoch.trans (by rw [hkept])) hword (hkept ▸ hsession) hwhole (by dsimp only; omega) (by omega)
    refine ⟨frame :: frames, last, ?_, ?_⟩
    · unfold emitMany
      rw [hframe]
      simp only [bind_ok, Except.ok.injEq, exists_eq_left', pure_ok]
      exact ⟨_, hframes, rfl⟩
    · rw [List.map_cons, hindices, List.range'_succ, List.map_cons, hframeIndex]
      rfl

/-! ## Runs -/

def receiveAll (state : Rvfb1State) (arrivals : List Arrival) : Rvfb1State :=
  arrivals.foldl (fun state a => (a.insert state).1) state

/-- The set with this key holds the pieces of the source with the indices that have arrived. -/
structure Progress (source : Bytes) (key : Int × Int × Int) (arrived : Nat → Prop) (state : Rvfb1State) :
    Prop where
  sets : SoundSets state.inboundSets
  holds : ∀ c, HasChunk state.inboundSets key c ↔
    ∃ i < source.length / chunkWidth, arrived i ∧ c = ⟨(i : Int), piece source i⟩

/-- A frame of the source with this key. -/
structure Arrival.Piece (a : Arrival) (source : Bytes) (key : Int × Int × Int) (i : Nat) : Prop where
  key : a.key = key
  small : i < source.length / chunkWidth
  index : a.frame.index = (i : Int)
  payload : a.frame.payload = piece source i

/-- A frame of the source is entered, and the answer is the source as soon as all pieces have arrived. -/
theorem Progress.own {source : Bytes} {key : Int × Int × Int} {arrived : Nat → Prop} {state : Rvfb1State}
    (h : Progress source key arrived state) {a : Arrival} (ha : a.Valid) {i : Nat} (hpiece : a.Piece source key i)
    (hlength : sourceLength a.sourceKind = some (source.length : Int)) :
    Progress source key (fun j => arrived j ∨ j = i) (a.insert state).1 ∧
      ((∀ j < source.length / chunkWidth, arrived j ∨ j = i) → (a.insert state).2 = .ok (some source)) ∧
      ((∃ j < source.length / chunkWidth, ¬ (arrived j ∨ j = i)) → (a.insert state).2 = .ok none) := by
  have hagree : ∀ c, HasChunk state.inboundSets a.key c → c.index = a.frame.index → c.payload = a.frame.payload := by
    intro c hc hindex
    rw [hpiece.key] at hc
    obtain ⟨j, -, -, rfl⟩ := (h.holds c).mp hc
    obtain rfl : j = i := Int.ofNat.inj (hindex.trans hpiece.index)
    exact hpiece.payload.symm
  obtain ⟨inbound, hin, hkey, hresult, hsets, hchunks⟩ := insert_entered h.sets ha hagree
  have hchunk : a.chunk = ⟨(i : Int), piece source i⟩ := by
    unfold Arrival.chunk
    rw [hpiece.index, hpiece.payload]
  have hholds : ∀ c, HasChunk (a.insert state).1.inboundSets key c ↔
      ∃ j < source.length / chunkWidth, (arrived j ∨ j = i) ∧ c = ⟨(j : Int), piece source j⟩ := by
    intro c
    rw [hchunks, h.holds, hpiece.key, hchunk]
    constructor
    · rintro (⟨j, hj, harrived, rfl⟩ | ⟨-, rfl⟩)
      · exact ⟨j, hj, Or.inl harrived, rfl⟩
      · exact ⟨i, hpiece.small, Or.inr rfl, rfl⟩
    · rintro ⟨j, hj, harrived | rfl, rfl⟩
      · exact Or.inl ⟨j, hj, harrived, rfl⟩
      · exact Or.inr ⟨rfl, rfl⟩
  have hown : ∀ c, c ∈ inbound.chunks ↔
      ∃ j < source.length / chunkWidth, (arrived j ∨ j = i) ∧ c = ⟨(j : Int), piece source j⟩ := by
    intro c
    rw [← hholds c]
    constructor
    · exact fun hc => ⟨inbound, hin, hkey.trans hpiece.key, hc⟩
    · rintro ⟨item, hitem, hitemKey, hc⟩
      rw [hsets.unique hin hitem (hkey.trans (hpiece.key.trans hitemKey.symm))]
      exact hc
  have hsound := hsets.sound inbound hin
  have hexpected : inbound.expectedSourceLen = source.length := by
    have hkind : inbound.sourceKind = a.sourceKind := congrArg (fun key => key.2.2) hkey
    have hsome := hsound.length
    rw [hkind, hlength] at hsome
    exact (Option.some.inj hsome).symm
  obtain ⟨hwhole, hmissing⟩ := hsound.joined hexpected hown
  refine ⟨⟨hsets, hholds⟩, fun hall => ?_, fun hnone => ?_⟩
  · rw [hresult, hwhole hall]
  · rw [hresult, hmissing hnone]

/-- A frame with another key leaves the pieces as they are, whether it is entered or refused. -/
theorem Progress.other {source : Bytes} {key : Int × Int × Int} {arrived : Nat → Prop} {state : Rvfb1State}
    (h : Progress source key arrived state) {a : Arrival} (ha : a.Valid) (hkey : a.key ≠ key) :
    Progress source key arrived (a.insert state).1 := by
  by_cases hagree : ∀ c, HasChunk state.inboundSets a.key c → c.index = a.frame.index → c.payload = a.frame.payload
  · obtain ⟨_, _, _, _, hsets, hchunks⟩ := insert_entered h.sets ha hagree
    refine ⟨hsets, fun c => ?_⟩
    rw [hchunks, h.holds]
    constructor
    · rintro (hc | ⟨heq, -⟩)
      · exact hc
      · exact absurd heq.symm hkey
    · exact Or.inl
  · simp only [not_forall] at hagree
    obtain ⟨c, ⟨inbound, hinbound, hinboundKey, hc⟩, hindex, hne⟩ := hagree
    have hkeys := Prod.mk.inj hinboundKey
    have hrest := Prod.mk.inj hkeys.2
    have hconflict := @insert_conflict _ h.sets _ hinbound _ hc a.frame hrest.1.symm hindex.symm (Ne.symm hne)
    rw [hkeys.1, hrest.2] at hconflict
    have hsame : (a.insert state).1 = state := congrArg Prod.fst hconflict
    rw [hsame]
    exact h

/-- The sets are taken by the validator and stand in their order. -/
def ValidSets (state : Rvfb1State) : Prop :=
  (∀ inbound ∈ state.inboundSets, validateInboundSet inbound = .ok ()) ∧
    strictlySorted inboundBefore state.inboundSets (lit "rvfb1 inbound sets") = .ok ()

theorem validSets_iff {state : Rvfb1State} : ValidSets state ↔ SoundSets state.inboundSets := by
  unfold ValidSets
  rw [strictlySorted_ok inboundBefore_trans]
  simp only [validateInboundSet_ok]
  exact ⟨fun h => ⟨h.1, h.2⟩, fun h => ⟨h.sound, h.sorted⟩⟩

/-- Frames that a sender emits, taken for its direction and kind, among valid frames with other keys. -/
def Mixed (P : Platform) (sender : Rvfb1State) (direction epoch kind : Int) (arrivals : List Arrival) : Prop :=
  ∀ a ∈ arrivals, (a.direction = direction ∧ a.sourceKind = kind ∧ Emitted P sender a.frame) ∨
    (a.key ≠ (direction, epoch, kind) ∧ a.Valid)

/-- A piece with this index is among the arrivals. -/
def Present (key : Int × Int × Int) (arrivals : List Arrival) (i : Nat) : Prop :=
  ∃ a ∈ arrivals, a.key = key ∧ a.frame.index = (i : Int)

section Run

variable {sender : Rvfb1State} {direction epoch wireType kind : Int} {source : Bytes}
  (hdirection : direction = 0 ∨ direction = 1) (hkind : sourceLength kind = some (source.length : Int))
  (hsender : sender.activeSend = some (newActiveSend P direction epoch wireType kind source))
include hdirection hkind hsender

theorem piece_of_emitted {frame : Rvbc1} (h : Emitted P sender frame) :
    ∃ i, (⟨direction, frame, kind⟩ : Arrival).Piece source (direction, epoch, kind) i ∧
      (⟨direction, frame, kind⟩ : Arrival).Valid := by
  obtain ⟨k, frames, last, hmany, hframe⟩ := h
  obtain ⟨i, hi, hmax, hwhole, hepoch, hindex, hpayload⟩ := emitMany_frames hsender hmany frame hframe
  have hlength : (piece source i).length = 32 := by
    have hwidth : chunkWidth = 32 := rfl
    change i < source.length / chunkWidth at hi
    rw [hwidth] at hi
    rw [piece, List.length_take, List.length_drop, hwidth]
    omega
  refine ⟨i, ⟨?_, hi, hindex, hpayload⟩, ⟨hdirection, ?_, ?_, ?_⟩⟩
  · show (direction, frame.epoch, kind) = _
    rw [hepoch]
    rfl
  · rw [hkind]
    exact Option.some_ne_none _
  · show 0 ≤ frame.index ∧ frame.index ≤ 63
    omega
  · show frame.payload.length = 32
    rw [hpayload]
    exact hlength

theorem progress_receiveAll {arrivals : List Arrival} (harrivals : Mixed P sender direction epoch kind arrivals)
    {state : Rvfb1State} {arrived : Nat → Prop} (h : Progress source (direction, epoch, kind) arrived state) :
    Progress source (direction, epoch, kind) (fun i => arrived i ∨ Present (direction, epoch, kind) arrivals i)
      (receiveAll state arrivals) := by
  induction arrivals generalizing state arrived with
  | nil =>
    have hnone : ∀ i, (arrived i ∨ Present (direction, epoch, kind) [] i) ↔ arrived i := by
      simp [Present]
    simp only [hnone]
    exact h
  | cons a rest ih =>
    have hrest : Mixed P sender direction epoch kind rest := fun b hb => harrivals b (List.mem_cons_of_mem a hb)
    have hpresent : ∀ i, Present (direction, epoch, kind) (a :: rest) i ↔
        (a.key = (direction, epoch, kind) ∧ a.frame.index = (i : Int)) ∨ Present (direction, epoch, kind) rest i := by
      intro i
      simp [Present]
    simp only [hpresent, ← or_assoc]
    rcases harrivals a List.mem_cons_self with ⟨hd, hk, hemitted⟩ | ⟨hother, hvalid⟩
    · obtain ⟨n, hpiece, hvalid⟩ := piece_of_emitted hdirection hkind hsender hemitted
      have ha : (⟨direction, a.frame, kind⟩ : Arrival) = a := by
        rw [← hd, ← hk]
      rw [ha] at hpiece hvalid
      have hindex : ∀ i : Nat, (a.key = (direction, epoch, kind) ∧ a.frame.index = (i : Int)) ↔ i = n := by
        intro i
        rw [hpiece.index]
        simp only [hpiece.key, true_and, Nat.cast_inj]
        exact eq_comm
      simp only [hindex]
      exact ih hrest (h.own hvalid hpiece (hk ▸ hkind)).1
    · have hnone : ∀ i : Nat, ¬ (a.key = (direction, epoch, kind) ∧ a.frame.index = (i : Int)) :=
        fun i hi => hother hi.1
      simp only [hnone, or_false]
      exact ih hrest (h.other hvalid hother)

/-- Frames of a source are put together in any order, each as often as it comes and among other frames; the
sets stay valid, and a conflicting frame changes nothing. -/
theorem systematic_reassembly {receiver : Rvfb1State} (hvalid : ValidSets receiver)
    (hempty : ∀ inbound ∈ receiver.inboundSets, inbound.key = (direction, epoch, kind) → inbound.chunks = [])
    {arrivals : List Arrival} (harrivals : Mixed P sender direction epoch kind arrivals) :
    ValidSets (receiveAll receiver arrivals) ∧
      (∀ frame, Emitted P sender frame →
        ((∀ i < source.length / chunkWidth,
            Present (direction, epoch, kind) (⟨direction, frame, kind⟩ :: arrivals) i) →
          (insertSystematicFrame (receiveAll receiver arrivals) direction frame kind).2 = .ok (some source)) ∧
        ((∃ i < source.length / chunkWidth,
            ¬ Present (direction, epoch, kind) (⟨direction, frame, kind⟩ :: arrivals) i) →
          (insertSystematicFrame (receiveAll receiver arrivals) direction frame kind).2 = .ok none)) ∧
      ∀ inbound ∈ (receiveAll receiver arrivals).inboundSets, ∀ c ∈ inbound.chunks, ∀ frame : Rvbc1,
        frame.epoch = inbound.epoch → frame.index = c.index → frame.payload ≠ c.payload →
          insertSystematicFrame (receiveAll receiver arrivals) inbound.direction frame inbound.sourceKind =
            (receiveAll receiver arrivals, .error ⟨.valueError, lit "conflicting inbound chunk"⟩) := by
  have hstart : Progress source (direction, epoch, kind) (fun _ => False) receiver := by
    refine ⟨validSets_iff.mp hvalid, fun c => ?_⟩
    constructor
    · rintro ⟨inbound, hin, hkey, hc⟩
      rw [hempty inbound hin hkey] at hc
      cases hc
    · rintro ⟨_, _, hfalse, _⟩
      exact hfalse.elim
  have hlast := progress_receiveAll hdirection hkind hsender harrivals hstart
  refine ⟨validSets_iff.mpr hlast.sets, fun frame hframe => ?_, fun inbound hin c hc frame hepoch hindex hne =>
    insert_conflict hlast.sets hin hc hepoch hindex hne⟩
  obtain ⟨n, hpiece, hvalidFrame⟩ := piece_of_emitted hdirection hkind hsender hframe
  have hpresent : ∀ i, Present (direction, epoch, kind) (⟨direction, frame, kind⟩ :: arrivals) i ↔
      (False ∨ Present (direction, epoch, kind) arrivals i) ∨ i = n := by
    intro i
    have hindex : frame.index = (i : Int) ↔ i = n := by
      rw [show frame.index = (n : Int) from hpiece.index, Nat.cast_inj]
      exact eq_comm
    have hkey : (⟨direction, frame, kind⟩ : Arrival).key = (direction, epoch, kind) := hpiece.key
    simp only [Present, List.mem_cons, exists_eq_or_imp, hkey, hindex, true_and, false_or]
    exact or_comm
  simp only [hpresent]
  exact (hlast.own hvalidFrame hpiece hkind).2

end Run

def sampleSource : Bytes := List.replicate 32 1 ++ List.replicate 32 2 ++ List.replicate 32 3

/-- A state with nothing but a session and an epoch. -/
def sampleState : Rvfb1State where
  prefix_ := {
    sessionId := List.replicate 32 7, role := 0, generation := 0, agent := 0, terminalReason := 0, authRoot := [],
    authMacKey := [], braidAgentEpoch := 5, braidSendEpoch := 0, braidRecvEpoch := 0, flags := 0, pendingPhase := 0,
    pendingTransitionId := [], pendingBeforeDigest := [], pendingOutputDigest := [], pendingExecutionDigest := [] }
  inboundSets := []
  activeSend := none
  objects := []
  replays := []
  tlvs := []
  trBytes := []

def sampleSender : Rvfb1State :=
  { sampleState with activeSend := some (newActiveSend (.ofTable []) 0 5 1 1 sampleSource) }

/-- A frame of another kind, for the other direction. -/
def sampleOther : Arrival := ⟨1, ⟨5, 6, 4, List.replicate 32 9, []⟩, 6⟩

theorem three_frames_joined : ∃ first second third : Rvbc1,
    (insertSystematicFrame (receiveAll sampleState [⟨0, third, 1⟩, sampleOther, ⟨0, first, 1⟩, ⟨0, third, 1⟩]) 0 second
      1).2 = .ok (some sampleSource) := by
  obtain ⟨frames, last, hmany, hindices⟩ := @emitMany_defined (.ofTable []) 3 0 sampleSender _ rfl rfl rfl
    ⟨by decide, by decide⟩ (by decide) (by decide) (by decide) (by decide)
  obtain ⟨first, rest, rfl, hfirst, hrest⟩ := List.map_eq_cons_iff.mp hindices
  obtain ⟨second, rest, rfl, hsecond, hrest⟩ := List.map_eq_cons_iff.mp hrest
  obtain ⟨third, rest, rfl, hthird, _⟩ := List.map_eq_cons_iff.mp hrest
  have hemitted : ∀ frame ∈ first :: second :: third :: rest, Emitted (.ofTable []) sampleSender frame :=
    fun frame hframe => ⟨3, _, last, hmany, hframe⟩
  have hkey : ∀ frame, Emitted (.ofTable []) sampleSender frame → (⟨0, frame, 1⟩ : Arrival).key = (0, 5, 1) := by
    intro frame hframe
    obtain ⟨_, hpiece, _⟩ := piece_of_emitted (Or.inl rfl) rfl rfl hframe
    exact hpiece.key
  have hfirstEmitted := hemitted first (by simp)
  have hsecondEmitted := hemitted second (by simp)
  have hthirdEmitted := hemitted third (by simp)
  have harrivals : Mixed (.ofTable []) sampleSender 0 5 1
      [⟨0, third, 1⟩, sampleOther, ⟨0, first, 1⟩, ⟨0, third, 1⟩] := by
    intro a ha
    simp only [List.mem_cons, List.not_mem_nil, or_false] at ha
    rcases ha with rfl | rfl | rfl | rfl
    · exact Or.inl ⟨rfl, rfl, hthirdEmitted⟩
    · exact Or.inr ⟨by decide, ⟨Or.inr rfl, by decide, by decide, by decide⟩⟩
    · exact Or.inl ⟨rfl, rfl, hfirstEmitted⟩
    · exact Or.inl ⟨rfl, rfl, hthirdEmitted⟩
  have hvalid : ValidSets sampleState := ⟨fun inbound hin => absurd hin List.not_mem_nil, rfl⟩
  obtain ⟨_, hanswers, _⟩ := @systematic_reassembly (.ofTable []) sampleSender 0 5 1 1 sampleSource (Or.inl rfl) rfl
    rfl sampleState hvalid (fun inbound hin => absurd hin List.not_mem_nil) _ harrivals
  refine ⟨first, second, third, (hanswers second hsecondEmitted).1 fun i hi => ?_⟩
  have hthree : i < 3 := hi
  obtain rfl | rfl | rfl : i = 0 ∨ i = 1 ∨ i = 2 := by omega
  · exact ⟨⟨0, first, 1⟩, by simp, hkey first hfirstEmitted, hfirst⟩
  · exact ⟨⟨0, second, 1⟩, by simp, hkey second hsecondEmitted, hsecond⟩
  · exact ⟨⟨0, third, 1⟩, by simp, hkey third hthirdEmitted, hthird⟩

end Rdap.Braid
