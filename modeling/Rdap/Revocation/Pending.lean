import Rdap.Revocation.Denial

/-!
# Pending revocations

The journal has one slot. An insertion empties it whenever it holds a pending revocation, and
does not look at the claim that the revocation is for.
-/

set_option autoImplicit false

namespace Rdap.Revocation
open Python Protocol Lib

variable (P : Platform)

/-- The journal holds the entry, and its claim is not stored. -/
def Waits (store : ConformanceStore) (j : Journal) : Prop :=
  store.journal = some j ∧ j.kind = .pendingRevoke ∧ store.claims.contains j.claimDigest = false

/-- The claim verifies, is new, and comes to a store that takes claims. -/
def Accepts (store : ConformanceStore) (wire pub : Bytes) (pending : Bool) : Prop :=
  (∃ rec, admitClaim P store wire pub = .ok rec) ∧
    checkJournal store wire (claimDigest P wire) pending = .ok () ∧
    store.claims.contains (claimDigest P wire) = false ∧ store.corrupt = []

/-- While a revocation waits, no other claim is one that the store accepts. -/
def LeavesPending (store : ConformanceStore) : StoreOp → Prop
  | .apply wire pub pending => ∀ j, Waits store j → claimDigest P wire ≠ j.claimDigest →
      ¬Accepts P store wire pub pending
  | _ => True

variable {P}

theorem apply_of_not_accepts {store : ConformanceStore} {wire pub : Bytes} {pending : Bool}
    (h : ¬Accepts P store wire pub pending) :
    (applyVerifiedClaim P store wire pub pending).2 = store := by
  rcases apply_cases P store wire pub pending with
    hsame | ⟨rec, hadmitted, hjournal, habsent, hcorrupt, _⟩
  · exact hsame
  · exact absurd ⟨⟨rec, hadmitted⟩, hjournal, habsent, hcorrupt⟩ h

/-- An accepted claim writes the journal. -/
theorem journal_of_accepts {store : ConformanceStore} {wire pub : Bytes} {pending : Bool}
    (h : Accepts P store wire pub pending) {j : Journal} (hwaits : Waits store j) :
    (applyVerifiedClaim P store wire pub pending).2.journal = none ∨
      (applyVerifiedClaim P store wire pub pending).2.journal =
        some ⟨.pendingRevokeExhausted, claimDigest P wire, wire, none⟩ := by
  obtain ⟨⟨rec, hadmitted⟩, hjournal, habsent, hcorrupt⟩ := h
  obtain ⟨hj, hkind, _⟩ := hwaits
  have hpresent : store.journal.any (fun j => j.kind = .pendingRevoke) = true := by simp [hj, hkind]
  unfold applyVerifiedClaim
  simp only [hadmitted, hjournal, habsent, Bool.false_eq_true, if_false, hcorrupt, ne_eq,
    not_true_eq_false]
  split
  · exact Or.inr rfl
  · refine Or.inl ?_
    simp only [resultOf, insertClaim_journal, hpresent, or_true, if_true]

/-- The exact case in which another claim leaves a waiting revocation alone. -/
theorem other_claim_keeps_iff {store : ConformanceStore} {j : Journal} (hwaits : Waits store j)
    {wire pub : Bytes} {pending : Bool} (hother : claimDigest P wire ≠ j.claimDigest) :
    (applyVerifiedClaim P store wire pub pending).2.journal = some j ↔
      ¬Accepts P store wire pub pending := by
  constructor
  · intro hkept haccepts
    rcases journal_of_accepts haccepts hwaits with hnone | hexhausted
    · rw [hnone] at hkept
      cases hkept
    · rw [hexhausted] at hkept
      obtain rfl := Option.some.inj hkept
      exact hother rfl
  · intro hrefused
    rw [apply_of_not_accepts hrefused]
    exact hwaits.1

/-- The claim of a digest has its entry in the journal, is stored, or the store is corrupt. -/
def Held (store : ConformanceStore) (cd : Bytes) : Prop :=
  (∃ j, store.journal = some j ∧ j.claimDigest = cd) ∨ store.claims.contains cd = true ∨
    store.corrupt ≠ []

/-- An entry of an exhausted claim keeps every claim away. -/
theorem not_accepts_of_exhausted {store : ConformanceStore} {wire pub : Bytes} {pending : Bool}
    {j : Journal} (hj : store.journal = some j) (hkind : j.kind = .pendingRevokeExhausted) :
    ¬Accepts P store wire pub pending := by
  rintro ⟨_, hjournal, _⟩
  unfold checkJournal at hjournal
  cases pending with
  | true => simp [hj, hkind, valueError] at hjournal
  | false => simp [hj, hkind, valueError] at hjournal

theorem contains_set {store : ConformanceStore} {cd other wire : Bytes}
    (h : store.claims.contains cd = true) : (store.claims.set other wire).contains cd = true := by
  unfold KeyedTable.contains at h ⊢
  rw [KeyedTable.get?_set]
  split
  · rfl
  · exact h

theorem held_apply {store : ConformanceStore} {cd wire pub : Bytes} {pending : Bool}
    (h : Held store cd) (hcondition : LeavesPending P store (.apply wire pub pending)) :
    Held (applyVerifiedClaim P store wire pub pending).2 cd := by
  by_cases haccepts : Accepts P store wire pub pending
  · have hcorrupt := haccepts.2.2.2
    rcases h with ⟨j, hj, rfl⟩ | hstored | hbad
    · cases hkind : j.kind with
      | pendingRevokeExhausted => exact absurd haccepts (not_accepts_of_exhausted hj hkind)
      | pendingRevoke =>
        by_cases hstored : store.claims.contains j.claimDigest = true
        · rcases apply_cases P store wire pub pending with
            hsame | ⟨rec, _, _, _, _, ⟨_, heq⟩ | ⟨_, heq⟩⟩
          · rw [hsame]
            exact Or.inr (Or.inl hstored)
          · rw [heq]
            exact Or.inr (Or.inl hstored)
          · rw [heq]
            exact Or.inr (Or.inl (by simpa [resultOf] using contains_set hstored))
        · -- only the claim that waits may be accepted
          have hwaits : Waits store j := ⟨hj, hkind, by simpa using hstored⟩
          have hsame : claimDigest P wire = j.claimDigest := by
            by_contra hother
            exact hcondition j hwaits hother haccepts
          rcases apply_cases P store wire pub pending with
            hsame' | ⟨rec, _, _, _, _, ⟨_, heq⟩ | ⟨_, heq⟩⟩
          · rw [hsame']
            exact Or.inl ⟨j, hj, rfl⟩
          · rw [heq]
            exact Or.inl ⟨_, rfl, hsame⟩
          · rw [heq]
            refine Or.inr (Or.inl ?_)
            simp only [resultOf, insertClaim_claims, KeyedTable.contains, KeyedTable.get?_set, hsame,
              if_true, Option.isSome_some]
    · rcases apply_cases P store wire pub pending with
        hsame | ⟨rec, _, _, _, _, ⟨_, heq⟩ | ⟨_, heq⟩⟩
      · rw [hsame]
        exact Or.inr (Or.inl hstored)
      · rw [heq]
        exact Or.inr (Or.inl hstored)
      · rw [heq]
        exact Or.inr (Or.inl (by simpa [resultOf] using contains_set hstored))
    · exact absurd hcorrupt hbad
  · rw [apply_of_not_accepts haccepts]
    exact h

theorem held_step {store next : ConformanceStore} {op : StoreOp} {cd : Bytes}
    (hcondition : LeavesPending P store op) (h : Held store cd)
    (hstep : storeMachine P store op = some next) : Held next cd := by
  obtain rfl := Option.some.inj hstep
  cases op with
  | apply wire pub pending => exact held_apply h hcondition
  | expand newMax =>
    rcases expand_cases store newMax with hsame | hnew
    · simpa only [hsame] using h
    · simp only [hnew]
      exact h
  | convert =>
    rcases convert_cases store with hsame | ⟨j, hj, _, hnew⟩
    · simpa only [hsame] using h
    · simp only [hnew]
      rcases h with ⟨i, hi, rfl⟩ | hrest
      · rw [hj] at hi
        obtain rfl := Option.some.inj hi
        exact Or.inl ⟨_, rfl, rfl⟩
      · exact Or.inr hrest
  | reverify pub exactBytes claimedDigest =>
    rcases reverify_cases P store pub exactBytes claimedDigest with hsame | ⟨reason, hnew⟩
    · simpa only [hsame] using h
    · simp only [hnew]
      exact Or.inr (Or.inr (by simp [recordCorrupt]))

/-- In one step another claim leaves a waiting revocation alone exactly if the store does not
accept it; and where all steps are so, the revocation is held in every state of the run. -/
theorem pending_kept_iff (store : ConformanceStore) (j : Journal) (hwaits : Waits store j) :
    (∀ (wire pub : Bytes) (pending : Bool), claimDigest P wire ≠ j.claimDigest →
      ((applyVerifiedClaim P store wire pub pending).2.journal = some j ↔
        ¬Accepts P store wire pub pending)) ∧
    (∀ (ops : List StoreOp) (last : ConformanceStore),
      (storeMachine P).Along (LeavesPending P) store ops →
      (storeMachine P).run store ops = some last → Held last j.claimDigest) := by
  refine ⟨fun wire pub pending hother => other_claim_keeps_iff hwaits hother, ?_⟩
  intro ops last halong hrun
  exact Machine.invariant_along (I := fun s => Held s j.claimDigest) held_step halong
    (Or.inl ⟨j, hwaits.1, rfl⟩) hrun

/-- A claim left out by a full store and converted, with room for others by now. -/
def waitingStore : ConformanceStore :=
  { fullStore 1 with maxClaims := 5 }

/-- Nothing verifies under this key. -/
def strangerKey : Bytes := List.replicate 32 8

theorem stranger_refused : ¬Accepts samplePlatform waitingStore (sampleWire 4 2) strangerKey false := by
  have hnone : (admitClaim samplePlatform waitingStore (sampleWire 4 2) strangerKey).toOption = none := by
    decide +kernel
  rintro ⟨⟨rec, hadmitted⟩, -⟩
  rw [hadmitted] at hnone
  cases hnone

/-- A claim under another key leaves the entry alone, and then the waiting claim is stored. -/
theorem pending_kept_iff_sample :
    (applyVerifiedClaim samplePlatform waitingStore (sampleWire 4 2) strangerKey false).2.journal =
      waitingStore.journal ∧
    ∃ last, (storeMachine samplePlatform).run waitingStore
        [.apply (sampleWire 4 2) strangerKey false, .apply (sampleWire 3 1) sampleKey true] = some last ∧
      Held last (claimDigest samplePlatform (sampleWire 3 1)) := by
  have hwaits : Waits waitingStore ⟨.pendingRevoke, claimDigest samplePlatform (sampleWire 3 1),
      sampleWire 3 1, some .pendingRevokeExhausted⟩ := ⟨rfl, rfl, rfl⟩
  have hother : claimDigest samplePlatform (sampleWire 4 2) ≠
      claimDigest samplePlatform (sampleWire 3 1) := by
    decide +kernel
  obtain ⟨hstep, hruns⟩ := pending_kept_iff waitingStore _ hwaits
  refine ⟨(hstep _ _ _ hother).mpr stranger_refused, _, rfl, ?_⟩
  refine hruns [.apply (sampleWire 4 2) strangerKey false, .apply (sampleWire 3 1) sampleKey true] _ ?_ rfl
  refine ⟨fun j _ _ => stranger_refused, ?_⟩
  intro t ht
  obtain rfl : (applyVerifiedClaim samplePlatform waitingStore (sampleWire 4 2) strangerKey false).2 = t :=
    Option.some.inj ht
  rw [apply_of_not_accepts stranger_refused]
  refine ⟨?_, fun _ _ => trivial⟩
  rintro j ⟨hj, _, _⟩ hdigest
  obtain rfl := Option.some.inj hj
  exact absurd rfl hdigest

/-- Another claim that is stored while a revocation waits takes the journal entry with it. -/
theorem pending_dropped : ∃ last, (storeMachine samplePlatform).run (emptyStore sampleAddress 0)
      [.apply (sampleWire 3 1) sampleKey false, .convert, .expand 5,
        .apply (sampleWire 4 2) sampleKey false] = some last ∧
    last.journal = none ∧
    last.claims.contains (claimDigest samplePlatform (sampleWire 3 1)) = false ∧
    last.corrupt = [] := by
  refine ⟨_, rfl, ?_, ?_, ?_⟩
  · decide +kernel
  · decide +kernel
  · decide +kernel

end Rdap.Revocation
