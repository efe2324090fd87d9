import Rdap.Revocation.Denial

/-!
# Forks of an issuer

A store compares a new claim with the head of its issuer only, which is the last claim it
stored of that issuer. A repeated sequence number is noticed if the two claims come one
after the other among the claims of the issuer, whatever else the store does.
-/

set_option autoImplicit false

namespace Rdap.Revocation
open Python Protocol Lib

variable (P : Platform)

/-- The stored claims, in the order in which they were applied. -/
def appliedRecords (store : ConformanceStore) : List (DeviceRevocation × Bytes) :=
  store.claims.rows.filterMap fun row => (decode P row.2).toOption.map fun rec => (rec, row.1)

/-- The sequence numbers of an issuer's claims, in order. -/
def issuerSeqs (issuer : Bytes) (records : List (DeviceRevocation × Bytes)) : List Int :=
  (records.filter fun r => r.1.issuerDeviceId = issuer).map fun r => r.1.issuerSeq

/-- Two of the claims carry the issuer and the sequence number. -/
def Repeated (records : List (DeviceRevocation × Bytes)) (issuer : Bytes) (seq : Int) : Prop :=
  ∃ a ∈ records, ∃ b ∈ records, a.2 ≠ b.2 ∧ a.1.issuerDeviceId = issuer ∧ b.1.issuerDeviceId = issuer ∧
    a.1.issuerSeq = seq ∧ b.1.issuerSeq = seq

/-- Two claims that come one after the other among those of the issuer carry the number. -/
def RepeatedNext (records : List (DeviceRevocation × Bytes)) (issuer : Bytes) (seq : Int) : Prop :=
  [seq, seq] <:+: issuerSeqs issuer records

def RecordsFork (store : ConformanceStore) (issuer : Bytes) (seq : Int) : Prop :=
  ∃ fork ∈ store.forks, fork.issuerDeviceId = issuer ∧ fork.issuerSeq = seq

variable {P}

theorem pair_infix_concat {α : Type} (x y : α) (l : List α) :
    [x, x] <:+: l ++ [y] ↔ [x, x] <:+: l ∨ x = y ∧ l.getLast? = some x := by
  constructor
  · rintro ⟨before, after, h⟩
    rcases List.eq_nil_or_concat after with rfl | ⟨init, z, rfl⟩
    · right
      rw [List.append_nil] at h
      have hsplit : (before ++ [x]) ++ [x] = l ++ [y] := by simpa using h
      obtain ⟨hinit, hlast⟩ := List.append_inj' hsplit rfl
      refine ⟨(List.cons.inj hlast).1, ?_⟩
      rw [← hinit]
      simp
    · left
      rw [List.concat_eq_append, ← List.append_assoc] at h
      obtain ⟨hinit, _⟩ := List.append_inj' h rfl
      exact ⟨before, init, hinit⟩
  · rintro (⟨before, after, h⟩ | ⟨rfl, hlast⟩)
    · exact ⟨before, after ++ [y], by rw [← h]; simp⟩
    · obtain ⟨init, rfl⟩ := List.getLast?_eq_some_iff.mp hlast
      exact ⟨init, [], by simp⟩

theorem issuerSeqs_concat (issuer : Bytes) (records : List (DeviceRevocation × Bytes))
    (r : DeviceRevocation × Bytes) : issuerSeqs issuer (records ++ [r]) =
      issuerSeqs issuer records ++ if r.1.issuerDeviceId = issuer then [r.1.issuerSeq] else [] := by
  unfold issuerSeqs
  rw [List.filter_append, List.map_append]
  by_cases h : r.1.issuerDeviceId = issuer
  · simp [h]
  · simp [h]

theorem repeated_of_next {records : List (DeviceRevocation × Bytes)}
    (hdistinct : (records.map Prod.snd).Nodup) {issuer : Bytes} {seq : Int}
    (h : RepeatedNext records issuer seq) : Repeated records issuer seq := by
  obtain ⟨before, after, heq⟩ := h
  have hfilter : before ++ [seq] ++ ([seq] ++ after) =
      (records.filter fun r => r.1.issuerDeviceId = issuer).map fun r => r.1.issuerSeq := by
    rw [← issuerSeqs, ← heq]
    simp
  obtain ⟨first, second, hsplit, hfirst, hsecond⟩ := List.map_eq_append_iff.mp hfilter.symm
  obtain ⟨_, last, rfl, _, hlast⟩ := List.map_eq_append_iff.mp hfirst
  obtain ⟨a, rfl, ha⟩ := List.map_eq_singleton_iff.mp hlast
  obtain ⟨b, tail, rfl, hb, _⟩ := List.map_eq_cons_iff.mp hsecond
  have hsub : ∀ r ∈ records.filter fun r => r.1.issuerDeviceId = issuer,
      r ∈ records ∧ r.1.issuerDeviceId = issuer := by
    intro r hr
    simpa using List.mem_filter.mp hr
  obtain ⟨hain, hai⟩ := hsub a (by rw [hsplit]; simp)
  obtain ⟨hbin, hbi⟩ := hsub b (by rw [hsplit]; simp)
  refine ⟨a, hain, b, hbin, ?_, hai, hbi, ha, hb⟩
  have hnodup : ((records.filter fun r => r.1.issuerDeviceId = issuer).map Prod.snd).Nodup :=
    hdistinct.sublist (List.Sublist.map Prod.snd List.filter_sublist)
  rw [hsplit, List.map_append, List.nodup_append] at hnodup
  exact hnodup.2.2 a.2 (by simp) b.2 (by simp)

/-! ## The invariant -/

variable (P) in
/-- The head of an issuer is its last claim, and a fork is a repetition next to each other. -/
structure Ledger (store : ConformanceStore) : Prop where
  decodes : ∀ row ∈ store.claims.rows, ∃ rec, decode P row.2 = .ok rec
  heads : ∀ issuer, (store.issuerHeads.get? issuer).map (fun h => (h.issuerSeq, h.claimDigest)) =
    ((appliedRecords P store).filter fun r => r.1.issuerDeviceId = issuer).getLast?.map
      fun r => (r.1.issuerSeq, r.2)
  forks : ∀ issuer seq, RecordsFork store issuer seq ↔
    RepeatedNext (appliedRecords P store) issuer seq

theorem ledger_empty (address : PyStr) (maxClaims : Int) : Ledger P (emptyStore address maxClaims) where
  decodes := by
    intro row hrow
    cases hrow
  heads := by
    intro issuer
    rfl
  forks := by
    intro issuer seq
    constructor
    · rintro ⟨fork, hfork, _⟩
      cases hfork
    · rintro ⟨before, after, h⟩
      simp [issuerSeqs, appliedRecords, emptyStore] at h

theorem ledger_of_same {store next : ConformanceStore} (h : Ledger P store)
    (hclaims : next.claims = store.claims) (hheads : next.issuerHeads = store.issuerHeads)
    (hforks : next.forks = store.forks) : Ledger P next where
  decodes := by
    rw [hclaims]
    exact h.decodes
  heads := by
    unfold appliedRecords
    rw [hclaims, hheads]
    exact h.heads
  forks := by
    unfold RecordsFork appliedRecords
    rw [hclaims, hforks]
    exact h.forks

theorem insertClaim_issuerHeads (store : ConformanceStore) (wire cd : Bytes) (rec : DeviceRevocation)
    (pending : Bool) : (insertClaim store wire rec cd pending).issuerHeads =
      store.issuerHeads.set rec.issuerDeviceId
        ⟨rec.issuerSeq, cd, (headForks store.issuerHeads rec cd).isSome⟩ := by
  simp [insertClaim, noteIssuer]

theorem insertClaim_forks (store : ConformanceStore) (wire cd : Bytes) (rec : DeviceRevocation)
    (pending : Bool) : (insertClaim store wire rec cd pending).forks =
      store.forks ++ ((headForks store.issuerHeads rec cd).map fun head =>
        (⟨rec.issuerDeviceId, rec.issuerSeq, head.claimDigest, cd⟩ : Fork)).toList := by
  simp [insertClaim, noteIssuer]

theorem appliedRecords_insertClaim {store : ConformanceStore} {wire cd : Bytes} {rec : DeviceRevocation}
    (hdecode : decode P wire = .ok rec) (habsent : store.claims.contains cd = false) (pending : Bool) :
    appliedRecords P (insertClaim store wire rec cd pending) =
      appliedRecords P store ++ [(rec, cd)] := by
  unfold appliedRecords
  rw [insertClaim_claims]
  simp [KeyedTable.set, habsent, hdecode, Except.toOption]

/-- A new claim forks exactly when the last one of its issuer has its number. -/
theorem headForks_iff {store : ConformanceStore} (h : Ledger P store) {rec : DeviceRevocation} {cd : Bytes}
    (habsent : store.claims.contains cd = false) :
    (headForks store.issuerHeads rec cd).isSome = true ↔
      (issuerSeqs rec.issuerDeviceId (appliedRecords P store)).getLast? = some rec.issuerSeq := by
  have hhead := h.heads rec.issuerDeviceId
  unfold headForks issuerSeqs
  rw [List.getLast?_map]
  cases hlast : ((appliedRecords P store).filter fun r =>
      r.1.issuerDeviceId = rec.issuerDeviceId).getLast? with
  | none =>
    rw [hlast] at hhead
    cases hget : store.issuerHeads.get? rec.issuerDeviceId with
    | none => simp
    | some head => simp [hget] at hhead
  | some r =>
    rw [hlast] at hhead
    cases hget : store.issuerHeads.get? rec.issuerDeviceId with
    | none => simp [hget] at hhead
    | some head =>
      simp only [hget, Option.map_some, Option.some.injEq, Prod.mk.injEq] at hhead
      obtain ⟨hseq, hcd⟩ := hhead
      have hmem := (List.mem_filter.mp (List.mem_of_getLast? hlast)).1
      obtain ⟨row, hrow, hmap⟩ := List.mem_filterMap.mp hmem
      obtain ⟨x, _, hx⟩ := Option.map_eq_some_iff.mp hmap
      have hne : head.claimDigest ≠ cd := by
        rw [hcd, ← hx]
        rintro rfl
        have hstored := (store.claims.get?_eq_some).mpr (show (row.1, row.2) ∈ _ from hrow)
        simp [KeyedTable.contains, hstored] at habsent
      simp [Option.filter, hne, hseq]

theorem ledger_insertClaim {store : ConformanceStore} (h : Ledger P store) {wire cd : Bytes}
    {rec : DeviceRevocation} (hdecode : decode P wire = .ok rec)
    (habsent : store.claims.contains cd = false) (pending : Bool) :
    Ledger P (insertClaim store wire rec cd pending) where
  decodes := by
    intro row hrow
    rw [insertClaim_claims] at hrow
    simp only [KeyedTable.set, habsent, Bool.false_eq_true, if_false, List.mem_append,
      List.mem_singleton] at hrow
    rcases hrow with hold | rfl
    · exact h.decodes row hold
    · exact ⟨rec, hdecode⟩
  heads := by
    intro issuer
    rw [appliedRecords_insertClaim hdecode habsent, insertClaim_issuerHeads, KeyedTable.get?_set,
      List.filter_append]
    by_cases hissuer : issuer = rec.issuerDeviceId
    · subst hissuer
      simp
    · have hother : rec.issuerDeviceId ≠ issuer := Ne.symm hissuer
      simpa [hissuer, hother] using h.heads issuer
  forks := by
    intro issuer seq
    unfold RepeatedNext
    rw [appliedRecords_insertClaim hdecode habsent, issuerSeqs_concat]
    have hold := h.forks issuer seq
    have hforked : (headForks store.issuerHeads rec cd).isSome = true ↔
        (issuerSeqs rec.issuerDeviceId (appliedRecords P store)).getLast? = some rec.issuerSeq :=
      headForks_iff h habsent
    unfold RecordsFork at hold ⊢
    rw [insertClaim_forks]
    by_cases hissuer : rec.issuerDeviceId = issuer
    · subst hissuer
      simp only [if_true]
      rw [pair_infix_concat, ← RepeatedNext, ← hold]
      constructor
      · rintro ⟨fork, hfork, hid, hseq⟩
        rcases List.mem_append.mp hfork with hin | hnew
        · exact Or.inl ⟨fork, hin, hid, hseq⟩
        · obtain ⟨head, hhead, rfl⟩ := Option.map_eq_some_iff.mp (Option.mem_toList.mp hnew)
          refine Or.inr ⟨hseq.symm, ?_⟩
          rw [hforked.mp (by rw [hhead]; rfl), ← hseq]
      · rintro (⟨fork, hin, hid, hseq⟩ | ⟨rfl, hlast⟩)
        · exact ⟨fork, List.mem_append_left _ hin, hid, hseq⟩
        · obtain ⟨head, hhead⟩ := Option.isSome_iff_exists.mp (hforked.mpr hlast)
          refine ⟨⟨rec.issuerDeviceId, rec.issuerSeq, head.claimDigest, cd⟩,
            List.mem_append_right _ (Option.mem_toList.mpr ?_), rfl, rfl⟩
          rw [hhead]
          rfl
    · simp only [hissuer, if_false, List.append_nil]
      rw [← RepeatedNext, ← hold]
      constructor
      · rintro ⟨fork, hfork, hid, hseq⟩
        rcases List.mem_append.mp hfork with hin | hnew
        · exact ⟨fork, hin, hid, hseq⟩
        · obtain ⟨head, _, rfl⟩ := Option.map_eq_some_iff.mp (Option.mem_toList.mp hnew)
          exact absurd hid hissuer
      · rintro ⟨fork, hin, hid, hseq⟩
        exact ⟨fork, List.mem_append_left _ hin, hid, hseq⟩

theorem ledger_step {store next : ConformanceStore} {op : StoreOp} (h : Ledger P store)
    (hstep : storeMachine P store op = some next) : Ledger P next := by
  obtain rfl := Option.some.inj hstep
  cases op with
  | apply wire pub pending =>
    rcases apply_cases P store wire pub pending with
      hsame | ⟨rec, hadmitted, _, habsent, _, ⟨_, heq⟩ | ⟨_, heq⟩⟩
    · simpa only [hsame] using h
    · simp only [heq]
      exact ledger_of_same h rfl rfl rfl
    · simp only [heq]
      exact ledger_insertClaim h (admitClaim_ok P hadmitted).1 habsent pending
  | expand newMax =>
    rcases expand_cases store newMax with hsame | hnew
    · simpa only [hsame] using h
    · simp only [hnew]
      exact ledger_of_same h rfl rfl rfl
  | convert =>
    rcases convert_cases store with hsame | ⟨j, _, _, hnew⟩
    · simpa only [hsame] using h
    · simp only [hnew]
      exact ledger_of_same h rfl rfl rfl
  | reverify pub exactBytes claimedDigest =>
    rcases reverify_cases P store pub exactBytes claimedDigest with hsame | ⟨reason, hnew⟩
    · simpa only [hsame] using h
    · simp only [hnew]
      exact ledger_of_same h rfl rfl rfl

theorem ledger_run {address : PyStr} {maxClaims : Int} {ops : List StoreOp} {store : ConformanceStore}
    (hrun : (storeMachine P).run (emptyStore address maxClaims) ops = some store) : Ledger P store :=
  Machine.invariant ledger_step (ledger_empty address maxClaims) hrun

theorem appliedRecords_digests {store : ConformanceStore} (h : Ledger P store) :
    ((appliedRecords P store).map Prod.snd).Nodup := by
  have hkeys : (appliedRecords P store).map Prod.snd = store.claims.rows.map Prod.fst := by
    have hdecodes := h.decodes
    unfold appliedRecords
    generalize store.claims.rows = rows at hdecodes ⊢
    induction rows with
    | nil => rfl
    | cons row rows ih =>
      obtain ⟨rec, hrec⟩ := hdecodes row List.mem_cons_self
      have hhead : (decode P row.2).toOption = some rec := toOption_some.mpr hrec
      simp only [List.filterMap_cons, hhead, Option.map_some, List.map_cons]
      rw [ih fun r hr => hdecodes r (List.mem_cons_of_mem row hr)]
  rw [hkeys]
  exact store.claims.nodup

/-- Every repeated sequence number of an issuer is recorded as a fork, and only such, exactly in
the runs in which each repetition also occurs next to each other. -/
theorem forks_complete_iff {address : PyStr} {maxClaims : Int} {ops : List StoreOp}
    {store : ConformanceStore}
    (hrun : (storeMachine P).run (emptyStore address maxClaims) ops = some store) :
    ((∀ issuer seq, Repeated (appliedRecords P store) issuer seq → RecordsFork store issuer seq) ∧
      (∀ issuer, (∀ seq, ¬Repeated (appliedRecords P store) issuer seq) →
        ∀ seq, ¬RecordsFork store issuer seq)) ↔
    ∀ issuer seq, Repeated (appliedRecords P store) issuer seq →
      RepeatedNext (appliedRecords P store) issuer seq := by
  have hledger := ledger_run hrun
  constructor
  · rintro ⟨hcomplete, _⟩ issuer seq hrepeated
    exact (hledger.forks issuer seq).mp (hcomplete issuer seq hrepeated)
  · intro hnext
    refine ⟨fun issuer seq hrepeated => (hledger.forks issuer seq).mpr (hnext issuer seq hrepeated), ?_⟩
    intro issuer hunique seq hfork
    exact hunique seq (repeated_of_next (appliedRecords_digests hledger)
      ((hledger.forks issuer seq).mp hfork))

/-- Two claims with number 1, one after the other, and a third with number 2. -/
def forkingOps : List StoreOp :=
  [.apply (sampleWire 3 1) sampleKey false, .apply (sampleWire 4 1) sampleKey false,
    .apply (sampleWire 5 2) sampleKey false]

def forkingRecords : List (DeviceRevocation × Bytes) :=
  [(sampleRecord 3 1, claimDigest samplePlatform (sampleWire 3 1)),
    (sampleRecord 4 1, claimDigest samplePlatform (sampleWire 4 1)),
    (sampleRecord 5 2, claimDigest samplePlatform (sampleWire 5 2))]

/-- The number 1 is the only one that is repeated, and is so next to itself. -/
theorem forkingRecords_next (issuer : Bytes) (seq : Int) (h : Repeated forkingRecords issuer seq) :
    RepeatedNext forkingRecords issuer seq := by
  have hnext : RepeatedNext forkingRecords [1] 1 := ⟨[], [2], by decide⟩
  obtain ⟨a, ha, b, hb, hne, hai, -, has, hbs⟩ := h
  simp only [forkingRecords, List.mem_cons, List.not_mem_nil, or_false] at ha hb
  rcases ha with rfl | rfl | rfl <;> rcases hb with rfl | rfl | rfl
  case inl.inl | inr.inl.inr.inl | inr.inr.inr.inr => exact absurd rfl hne
  case inl.inr.inl | inr.inl.inl =>
    obtain rfl := hai
    obtain rfl := has
    exact hnext
  all_goals exact absurd (has.trans hbs.symm) (by decide)

theorem forks_complete_iff_sample : ∃ store,
    (storeMachine samplePlatform).run (emptyStore sampleAddress 5) forkingOps = some store ∧
    Repeated (appliedRecords samplePlatform store) [1] 1 ∧ RecordsFork store [1] 1 ∧
    ((∀ issuer seq, Repeated (appliedRecords samplePlatform store) issuer seq →
        RecordsFork store issuer seq) ∧
      (∀ issuer, (∀ seq, ¬Repeated (appliedRecords samplePlatform store) issuer seq) →
        ∀ seq, ¬RecordsFork store issuer seq)) := by
  obtain ⟨store, hrun, hrecords⟩ := exists_of_any
    (p := fun store => appliedRecords samplePlatform store = forkingRecords)
    (x := (storeMachine samplePlatform).run (emptyStore sampleAddress 5) forkingOps)
    (by decide +kernel)
  have hcomplete := (forks_complete_iff hrun).mpr (by rw [hrecords]; exact forkingRecords_next)
  have hrepeated : Repeated (appliedRecords samplePlatform store) [1] 1 := by
    rw [hrecords]
    exact ⟨_, List.mem_cons_self, _, List.mem_cons_of_mem _ List.mem_cons_self, by decide +kernel,
      rfl, rfl, rfl, rfl⟩
  exact ⟨store, hrun, hrepeated, hcomplete.1 [1] 1 hrepeated, hcomplete⟩

/-- Two claims with number 1 and a third between them with number 2: no fork. -/
theorem fork_missed : ∃ store, (storeMachine samplePlatform).run (emptyStore sampleAddress 5)
      [.apply (sampleWire 3 1) sampleKey false, .apply (sampleWire 4 2) sampleKey false,
        .apply (sampleWire 5 1) sampleKey false] = some store ∧
    store.forks = [] ∧ Repeated (appliedRecords samplePlatform store) [1] 1 := by
  refine ⟨_, rfl, ?_, ?_⟩
  · decide +kernel
  · refine ⟨(sampleRecord 3 1, claimDigest samplePlatform (sampleWire 3 1)), ?_,
      (sampleRecord 5 1, claimDigest samplePlatform (sampleWire 5 1)), ?_, ?_, rfl, rfl, rfl, rfl⟩
    · decide +kernel
    · decide +kernel
    · decide +kernel

end Rdap.Revocation
