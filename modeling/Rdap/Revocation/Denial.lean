import Rdap.Revocation.Store
import Rdap.Lib.Machine

/-!
# What a revocation store remembers

A claim that was once accepted is remembered in one of three ways: it is stored with its
targets, a marker keeps it for a larger quota, or the store is corrupt and denies everything.
Every operation hands a claim on to one of the three.
-/

set_option autoImplicit false

namespace Rdap.Revocation
open Python Protocol Lib

inductive StoreOp where
  | apply (wire identityEdPub : Bytes) (pendingAlreadyWritten : Bool)
  | expand (newMax : Int)
  | convert
  | reverify (identityEdPub : Bytes) (exactBytes claimedDigest : Option Bytes)

variable (P : Platform)

/-- An operation that raises leaves behind what it has changed until then. -/
def storeMachine : Machine ConformanceStore StoreOp := fun store op => some <|
  match op with
  | .apply wire identityEdPub pending => (applyVerifiedClaim P store wire identityEdPub pending).2
  | .expand newMax => (expandQuota store newMax).2
  | .convert => (convertExhaustedJournalToPending store).2
  | .reverify identityEdPub exactBytes claimedDigest =>
    (reverifyJournal P store identityEdPub exactBytes claimedDigest).2

/-! ## What one operation can do -/

/-- An application that changes the store has accepted the claim, and either left it out of a
full store or inserted it. -/
theorem apply_cases (store : ConformanceStore) (wire identityEdPub : Bytes) (pending : Bool) :
    (applyVerifiedClaim P store wire identityEdPub pending).2 = store ∨
    ∃ rec, admitClaim P store wire identityEdPub = .ok rec ∧
      checkJournal store wire (claimDigest P wire) pending = .ok () ∧
      store.claims.contains (claimDigest P wire) = false ∧ store.corrupt = [] ∧
      ((store.claims.count ≥ store.maxClaims ∧
          applyVerifiedClaim P store wire identityEdPub pending =
            resultOf P .exhausted (claimDigest P wire)
              (recordExhausted store wire (claimDigest P wire))) ∨
        (store.claims.count < store.maxClaims ∧
          applyVerifiedClaim P store wire identityEdPub pending =
            resultOf P .applied (claimDigest P wire)
              (insertClaim store wire rec (claimDigest P wire) pending))) := by
  unfold applyVerifiedClaim
  simp only
  cases hadmitted : admitClaim P store wire identityEdPub with
  | error e => exact Or.inl rfl
  | ok rec =>
    cases hjournal : checkJournal store wire (claimDigest P wire) pending with
    | error e => exact Or.inl rfl
    | ok u =>
      simp only
      by_cases hstored : store.claims.contains (claimDigest P wire) = true
      · rw [if_pos hstored]
        exact Or.inl rfl
      · rw [if_neg hstored]
        by_cases hcorrupt : store.corrupt = []
        · rw [if_neg (not_not.mpr hcorrupt)]
          refine Or.inr ⟨rec, by simp, by simp, by simpa using hstored, hcorrupt, ?_⟩
          by_cases hfull : store.claims.count ≥ store.maxClaims
          · exact Or.inl ⟨hfull, if_pos hfull⟩
          · exact Or.inr ⟨not_le.mp hfull, if_neg hfull⟩
        · rw [if_pos hcorrupt]
          exact Or.inl rfl

theorem admitClaim_ok {store : ConformanceStore} {wire identityEdPub : Bytes} {rec : DeviceRevocation}
    (h : admitClaim P store wire identityEdPub = .ok rec) :
    decode P wire = .ok rec ∧ rec.identityAddress = store.identityAddress ∧
      verify P rec identityEdPub = true := by
  unfold admitClaim at h
  simp only [bind_ok, pure_ok, orRaise_ok] at h
  obtain ⟨_, hdecode, _, haddress, _, hverify, rfl⟩ := h
  exact ⟨hdecode, haddress, hverify⟩

section Notes
variable (store : ConformanceStore)

@[simp] theorem noteRevocationId_generation (rid cd : Bytes) :
    (noteRevocationId store rid cd).generation = store.generation := by
  unfold noteRevocationId
  repeat' split
  all_goals rfl

@[simp] theorem noteRevocationId_rest (rid cd : Bytes) :
    (noteRevocationId store rid cd).claims = store.claims ∧
    (noteRevocationId store rid cd).revoked = store.revoked ∧
    (noteRevocationId store rid cd).exhausted = store.exhausted ∧
    (noteRevocationId store rid cd).corrupt = store.corrupt ∧
    (noteRevocationId store rid cd).identityAddress = store.identityAddress ∧
    (noteRevocationId store rid cd).maxClaims = store.maxClaims ∧
    (noteRevocationId store rid cd).journal = store.journal ∧
    (noteRevocationId store rid cd).forks = store.forks ∧
    (noteRevocationId store rid cd).issuerHeads = store.issuerHeads := by
  unfold noteRevocationId
  repeat' split
  all_goals exact ⟨rfl, rfl, rfl, rfl, rfl, rfl, rfl, rfl, rfl⟩

variable (wire cd : Bytes) (rec : DeviceRevocation) (pending : Bool)

@[simp] theorem insertClaim_claims :
    (insertClaim store wire rec cd pending).claims = store.claims.set cd wire := by
  simp [insertClaim, noteIssuer]

@[simp] theorem insertClaim_revoked :
    (insertClaim store wire rec cd pending).revoked = appendTargets store.revoked rec cd := by
  simp [insertClaim, noteIssuer]

@[simp] theorem insertClaim_exhausted :
    (insertClaim store wire rec cd pending).exhausted =
      store.exhausted.filter fun e => e.claimDigest ≠ cd := by
  simp [insertClaim, noteIssuer]

@[simp] theorem insertClaim_corrupt :
    (insertClaim store wire rec cd pending).corrupt = store.corrupt := by
  simp [insertClaim, noteIssuer]

@[simp] theorem insertClaim_identityAddress :
    (insertClaim store wire rec cd pending).identityAddress = store.identityAddress := by
  simp [insertClaim, noteIssuer]

@[simp] theorem insertClaim_generation :
    (insertClaim store wire rec cd pending).generation = store.generation + 1 := by
  simp [insertClaim, noteIssuer]

@[simp] theorem insertClaim_maxClaims :
    (insertClaim store wire rec cd pending).maxClaims = store.maxClaims := by
  simp [insertClaim, noteIssuer]

@[simp] theorem insertClaim_journal :
    (insertClaim store wire rec cd pending).journal =
      if pending ∨ store.journal.any fun j => j.kind = .pendingRevoke then none else store.journal := by
  simp [insertClaim, noteIssuer]

end Notes

/-! ## Targets -/

/-- Some target of the list has the kind and the value. -/
def Covers (revoked : List RevokedTarget) (t : RevokedTarget) : Prop :=
  ∃ u ∈ revoked, u.kind = t.kind ∧ u.value = t.value

theorem appendTarget_covers (revoked : List RevokedTarget) (t : RevokedTarget) :
    Covers (appendTarget revoked t) t := by
  unfold appendTarget
  split
  · rename_i hany
    obtain ⟨u, hu, heq⟩ := List.any_eq_true.mp hany
    exact ⟨u, hu, by simpa using heq⟩
  · exact ⟨t, by simp, rfl, rfl⟩

theorem subset_appendTarget (revoked : List RevokedTarget) (t : RevokedTarget) :
    revoked ⊆ appendTarget revoked t := by
  unfold appendTarget
  split
  · exact List.Subset.refl revoked
  · exact List.subset_append_left revoked [t]

theorem subset_foldl_appendTarget (ts revoked : List RevokedTarget) :
    revoked ⊆ ts.foldl appendTarget revoked := by
  induction ts generalizing revoked with
  | nil => exact List.Subset.refl revoked
  | cons t ts ih => exact List.Subset.trans (subset_appendTarget revoked t) (ih (appendTarget revoked t))

theorem Covers.mono {revoked more : List RevokedTarget} {t : RevokedTarget} (h : Covers revoked t)
    (hsub : revoked ⊆ more) : Covers more t := by
  obtain ⟨u, hu, heq⟩ := h
  exact ⟨u, hsub hu, heq⟩

theorem foldl_appendTarget_covers {ts : List RevokedTarget} (revoked : List RevokedTarget)
    {t : RevokedTarget} (ht : t ∈ ts) : Covers (ts.foldl appendTarget revoked) t := by
  induction ts generalizing revoked with
  | nil => cases ht
  | cons u ts ih =>
    rw [List.foldl_cons]
    rcases List.mem_cons.mp ht with rfl | ht
    · exact (appendTarget_covers revoked t).mono (subset_foldl_appendTarget ts _)
    · exact ih (appendTarget revoked u) ht

/-! ## The invariant -/

/-- What is kept for a claim is the claim, under its digest, and a stored claim has its targets. -/
structure Coherent (store : ConformanceStore) : Prop where
  stored : ∀ cd wire, store.claims.get? cd = some wire → cd = claimDigest P wire ∧
    ∃ rec, decode P wire = .ok rec ∧ ∀ t ∈ lineageTargets rec cd, Covers store.revoked t
  marked : ∀ e ∈ store.exhausted, e.identityAddress = store.identityAddress ∧
    e.claimDigest = claimDigest P e.exactRecordBytes ∧
    ∃ rec, decode P e.exactRecordBytes = .ok rec ∧ rec.identityAddress = store.identityAddress

variable {P}

theorem coherent_empty (address : PyStr) (maxClaims : Int) :
    Coherent P (emptyStore address maxClaims) where
  stored := by
    intro cd wire h
    cases h
  marked := by
    intro e he
    cases he

theorem coherent_recordExhausted {store : ConformanceStore} (h : Coherent P store) {wire : Bytes}
    {rec : DeviceRevocation} (hdecode : decode P wire = .ok rec)
    (haddress : rec.identityAddress = store.identityAddress) :
    Coherent P (recordExhausted store wire (claimDigest P wire)) where
  stored := h.stored
  marked := by
    intro e he
    rcases List.mem_append.mp he with hold | hnew
    · exact h.marked e (List.mem_filter.mp hold).1
    · obtain rfl := List.mem_singleton.mp hnew
      exact ⟨rfl, rfl, rec, hdecode, haddress⟩

theorem coherent_insertClaim {store : ConformanceStore} (h : Coherent P store) {wire : Bytes}
    {rec : DeviceRevocation} (hdecode : decode P wire = .ok rec) (pending : Bool) :
    Coherent P (insertClaim store wire rec (claimDigest P wire) pending) where
  stored := by
    intro cd w hget
    rw [insertClaim_claims, KeyedTable.get?_set] at hget
    rw [insertClaim_revoked]
    split at hget
    · rename_i hcd
      obtain rfl := Option.some.inj hget
      refine ⟨hcd, rec, hdecode, ?_⟩
      intro t ht
      rw [hcd] at ht
      exact foldl_appendTarget_covers store.revoked ht
    · obtain ⟨hcd, r, hr, hcovers⟩ := h.stored cd w hget
      exact ⟨hcd, r, hr, fun t ht => (hcovers t ht).mono (subset_foldl_appendTarget _ _)⟩
  marked := by
    intro e he
    rw [insertClaim_exhausted] at he
    rw [insertClaim_identityAddress]
    exact h.marked e (List.mem_filter.mp he).1

theorem coherent_apply {store : ConformanceStore} (h : Coherent P store) (wire pub : Bytes)
    (pending : Bool) : Coherent P (applyVerifiedClaim P store wire pub pending).2 := by
  rcases apply_cases P store wire pub pending with hsame | ⟨rec, hadmitted, _, _, _, ⟨_, heq⟩ | ⟨_, heq⟩⟩
  · rwa [hsame]
  · obtain ⟨hdecode, haddress, _⟩ := admitClaim_ok P hadmitted
    rw [heq]
    exact coherent_recordExhausted h hdecode haddress
  · obtain ⟨hdecode, _, _⟩ := admitClaim_ok P hadmitted
    rw [heq]
    exact coherent_insertClaim h hdecode pending

variable (P) in
/-- A record that is refused leaves a corrupt store without a journal. -/
theorem reverify_cases (store : ConformanceStore) (pub : Bytes) (exactBytes claimedDigest : Option Bytes) :
    (reverifyJournal P store pub exactBytes claimedDigest).2 = store ∨
    ∃ reason, (reverifyJournal P store pub exactBytes claimedDigest).2 = recordCorrupt store reason := by
  unfold reverifyJournal
  split
  · exact Or.inl rfl
  · split
    · exact Or.inl rfl
    · rename_i reason _
      exact Or.inr ⟨reason, rfl⟩

theorem convert_cases (store : ConformanceStore) :
    (convertExhaustedJournalToPending store).2 = store ∨
    ∃ j, store.journal = some j ∧ j.kind = .pendingRevokeExhausted ∧
      (convertExhaustedJournalToPending store).2 = { store with
        journal := some ⟨.pendingRevoke, j.claimDigest, j.exactRecordBytes,
          some .pendingRevokeExhausted⟩ } := by
  unfold convertExhaustedJournalToPending
  split
  · rename_i j hj
    split
    · rename_i hkind
      exact Or.inr ⟨j, hj, hkind, rfl⟩
    · exact Or.inl rfl
  · exact Or.inl rfl

theorem expand_cases (store : ConformanceStore) (newMax : Int) :
    (expandQuota store newMax).2 = store ∨ (expandQuota store newMax).2 = { store with maxClaims := newMax } := by
  unfold expandQuota
  split
  · exact Or.inl rfl
  · exact Or.inr rfl

theorem coherent_step {store next : ConformanceStore} {op : StoreOp} (h : Coherent P store)
    (hstep : storeMachine P store op = some next) : Coherent P next := by
  obtain rfl := Option.some.inj hstep
  cases op with
  | apply wire pub pending => exact coherent_apply h wire pub pending
  | expand newMax =>
    rcases expand_cases store newMax with hsame | hnew
    · simpa only [hsame] using h
    · simpa only [hnew] using (⟨h.stored, h.marked⟩ : Coherent P { store with maxClaims := newMax })
  | convert =>
    rcases convert_cases store with hsame | ⟨j, _, _, hnew⟩
    · simpa only [hsame] using h
    · simp only [hnew]
      exact ⟨h.stored, h.marked⟩
  | reverify pub exactBytes claimedDigest =>
    rcases reverify_cases P store pub exactBytes claimedDigest with hsame | ⟨reason, hnew⟩
    · simpa only [hsame] using h
    · simp only [hnew]
      exact ⟨h.stored, h.marked⟩

theorem coherent_run {address : PyStr} {maxClaims : Int} {ops : List StoreOp} {store : ConformanceStore}
    (hrun : (storeMachine P).run (emptyStore address maxClaims) ops = some store) : Coherent P store :=
  Machine.invariant coherent_step (coherent_empty address maxClaims) hrun

/-! ## Snapshots that can be taken -/

theorem countedRecords_defined {α : Type} {field : α → Except PyExc Bytes} {entries : List α}
    (hcount : entries.length < 2 ^ 32) (h : ∀ x ∈ entries, ∃ b, field x = .ok b) :
    ∃ out, countedRecords field entries = .ok out := by
  obtain ⟨fields, hfields⟩ := mapM_defined h
  have hsize : toBytes4 entries.length = .ok (bigEndian 4 entries.length) := if_pos hcount
  unfold countedRecords
  rw [hsize, hfields]
  exact ⟨_, rfl⟩

theorem claimField_defined {wire : Bytes} (hsize : wire.length < 2 ^ 32) :
    ∃ b, claimField P wire = .ok b := by
  have hlen : (claimDigest P wire).length = 32 := P.sha256_length wire
  have hfour : toBytes4 wire.length = .ok (bigEndian 4 wire.length) := if_pos hsize
  unfold claimField
  rw [orRaise_pos hlen, hfour]
  exact ⟨_, rfl⟩

theorem exhaustedField_defined {entry : Bytes × ExhaustedMarker} (haddr : entry.1.length ≤ 0xFFFF)
    (hdigest : entry.2.claimDigest = claimDigest P entry.2.exactRecordBytes)
    (hsize : entry.2.exactRecordBytes.length < 2 ^ 32) : ∃ b, exhaustedField P entry = .ok b := by
  have hlen : entry.2.claimDigest.length = 32 := by
    rw [hdigest]
    exact P.sha256_length _
  have hlp : lp entry.1 = .ok (frame 2 entry.1) := if_neg (not_lt.mpr haddr)
  have hfour : toBytes4 entry.2.exactRecordBytes.length =
      .ok (bigEndian 4 entry.2.exactRecordBytes.length) := if_pos hsize
  unfold exhaustedField
  rw [orRaise_pos hlen, orRaise_pos hdigest.symm, hlp, hfour]
  exact ⟨_, rfl⟩

theorem exhaustedKeys_ok {exhausted : List ExhaustedMarker} {keyed : List (Bytes × ExhaustedMarker)}
    (h : exhaustedKeys exhausted = .ok keyed) {entry : Bytes × ExhaustedMarker} (hentry : entry ∈ keyed) :
    entry.2 ∈ exhausted ∧ encodeAscii entry.2.identityAddress = .ok entry.1 := by
  obtain ⟨e, he, hkey⟩ := exists_of_mem_mapM h hentry
  cases haddr : encodeAscii e.identityAddress with
  | error x => simp [haddr, Except.map] at hkey
  | ok b =>
    simp only [haddr, Except.map, Except.ok.injEq] at hkey
    subst hkey
    exact ⟨he, haddr⟩

/-- The store fits the widths of its snapshot with room for one more change. -/
structure Roomy (store : ConformanceStore) : Prop where
  generation : store.generation + 1 < 2 ^ 64
  claims : store.claims.count + 1 < 2 ^ 32
  exhausted : store.exhausted.length + 1 < 2 ^ 32

theorem snapshot_defined {store : ConformanceStore} (h : Coherent P store)
    (hgeneration : store.generation < 2 ^ 64) (hclaims : store.claims.count < 2 ^ 32)
    (hexhausted : store.exhausted.length < 2 ^ 32) (hcorrupt : store.corrupt = []) :
    ∃ snapshot, store.snapshotDict P = .ok snapshot := by
  have hsmall : ∀ {wire : Bytes} {rec : DeviceRevocation}, decode P wire = .ok rec →
      wire.length < 2 ^ 32 := by
    intro wire rec hdecode
    have hlen := (decode_ok P hdecode).2
    omega
  obtain ⟨keyed, hkeyed⟩ : ∃ keyed, exhaustedKeys store.exhausted = .ok keyed := by
    apply mapM_defined
    intro e he
    obtain ⟨haddress, _, rec, hdecode, hrec⟩ := h.marked e he
    obtain ⟨⟨b, hb⟩, _⟩ := decode_ok P hdecode
    have hascii := (requireAddress_ok P hb).1
    rw [haddress, ← hrec, hascii]
    exact ⟨_, rfl⟩
  have hcount : keyed.length = store.exhausted.length := (mapM_ok.mp hkeyed).length_eq.symm
  obtain ⟨claimPart, hclaimPart⟩ : ∃ out, countedRecords (claimField P)
      ((store.claims.rows.map Prod.snd).insertionSort (claimOrder P)) = .ok out := by
    apply countedRecords_defined
    · simpa [KeyedTable.count] using hclaims
    · intro wire hwire
      obtain ⟨row, hrow, rfl⟩ := List.mem_map.mp ((List.mem_insertionSort _).mp hwire)
      obtain ⟨_, rec, hdecode, _⟩ := h.stored row.1 row.2 ((store.claims.get?_eq_some).mpr hrow)
      exact claimField_defined (hsmall hdecode)
  obtain ⟨exhaustedPart, hexhaustedPart⟩ : ∃ out, countedRecords (exhaustedField P)
      (keyed.insertionSort exhaustedOrder) = .ok out := by
    apply countedRecords_defined
    · simpa [hcount] using hexhausted
    · intro entry hentry
      obtain ⟨hmem, haddr⟩ := exhaustedKeys_ok hkeyed ((List.mem_insertionSort _).mp hentry)
      obtain ⟨haddress, hdigest, rec, hdecode, hrec⟩ := h.marked entry.2 hmem
      obtain ⟨⟨b, hb⟩, _⟩ := decode_ok P hdecode
      obtain ⟨hascii, hlen⟩ := requireAddress_ok P hb
      rw [haddress, ← hrec, hascii] at haddr
      obtain rfl := Except.ok.inj haddr
      apply exhaustedField_defined _ hdigest (hsmall hdecode)
      rw [hlen]
      decide
  have hcorruptPart : countedRecords corruptField ([].insertionSort corruptOrder) =
      .ok (bigEndian 4 0) := rfl
  have hrange : (0 : Int) ≤ store.generation ∧ (store.generation : Int) < 2 ^ 64 := by
    omega
  unfold ConformanceStore.snapshotDict ConformanceStore.storeHash revocationStoreHash
    canonicalStoreSnapshot
  rw [orRaise_pos hrange, hkeyed, hcorrupt]
  simp only [bind, Except.bind, corruptKeys, List.mapM_nil, pure, Except.pure, hclaimPart,
    hexhaustedPart, hcorruptPart]
  exact ⟨_, rfl⟩

/-- An application that raises has changed nothing, in a store with room. -/
theorem apply_error {store : ConformanceStore} (h : Coherent P store) (hroom : Roomy store)
    {wire pub : Bytes} {pending : Bool} {e : PyExc}
    (herror : (applyVerifiedClaim P store wire pub pending).1 = .error e) :
    (applyVerifiedClaim P store wire pub pending).2 = store := by
  have hcoherent := coherent_apply h wire pub pending
  rcases apply_cases P store wire pub pending with
    hsame | ⟨rec, _, _, habsent, hcorrupt, ⟨_, heq⟩ | ⟨_, heq⟩⟩
  · exact hsame
  · rw [heq] at herror hcoherent
    obtain ⟨snapshot, hsnapshot⟩ := snapshot_defined hcoherent hroom.generation
      (Nat.lt_of_succ_lt hroom.claims) (by
        have hle := List.length_filter_le (fun e => decide (e.claimDigest ≠ claimDigest P wire))
          store.exhausted
        have hroomy := hroom.exhausted
        simp only [resultOf, recordExhausted, List.length_append, List.length_singleton]
        omega) hcorrupt
    simp only [resultOf] at herror hsnapshot
    rw [hsnapshot] at herror
    cases herror
  · rw [heq] at herror hcoherent
    obtain ⟨snapshot, hsnapshot⟩ := snapshot_defined hcoherent
      (by simpa [resultOf] using hroom.generation)
      (by
        have hone : (store.claims.set (claimDigest P wire) wire).count = store.claims.count + 1 := by
          simp [KeyedTable.count, KeyedTable.set, habsent]
        simpa [resultOf, hone] using hroom.claims)
      (by
        have hle := List.length_filter_le (fun e => decide (e.claimDigest ≠ claimDigest P wire))
          store.exhausted
        have hroomy := hroom.exhausted
        simp only [resultOf, insertClaim_exhausted]
        omega)
      (by simpa [resultOf] using hcorrupt)
    simp only [resultOf] at herror hsnapshot
    rw [hsnapshot] at herror
    cases herror

/-! ## Claims stay remembered -/

def StoreOp.wire? : StoreOp → Option Bytes
  | .apply wire _ _ => some wire
  | _ => none

def appliedWires (ops : List StoreOp) : List Bytes := ops.filterMap StoreOp.wire?

variable (P) in
/-- No two of the records have one digest. -/
def CollisionFree (wires : List Bytes) : Prop :=
  ∀ a ∈ wires, ∀ b ∈ wires, P.sha256 a = P.sha256 b → a = b

variable (P) in
def Remembered (store : ConformanceStore) (wire : Bytes) : Prop :=
  store.corrupt ≠ [] ∨ store.claims.get? (claimDigest P wire) = some wire ∨
    ∃ e ∈ store.exhausted, e.exactRecordBytes = wire ∧ e.claimDigest = claimDigest P wire

theorem remembered_recordExhausted {store : ConformanceStore} {wire other : Bytes}
    (h : Remembered P store wire) (hfree : claimDigest P other = claimDigest P wire → other = wire) :
    Remembered P (recordExhausted store other (claimDigest P other)) wire := by
  rcases h with hcorrupt | hstored | ⟨e, he, hbytes, hdigest⟩
  · exact Or.inl hcorrupt
  · exact Or.inr (Or.inl hstored)
  · apply Or.inr ∘ Or.inr
    by_cases hsame : claimDigest P other = claimDigest P wire
    · obtain rfl := hfree hsame
      exact ⟨_, List.mem_append_right _ (List.mem_singleton_self _), rfl, rfl⟩
    · refine ⟨e, List.mem_append_left _ (List.mem_filter.mpr ⟨he, ?_⟩), hbytes, hdigest⟩
      rw [hdigest]
      exact decide_eq_true (Ne.symm hsame)

theorem remembered_insertClaim {store : ConformanceStore} {wire other : Bytes} (rec : DeviceRevocation)
    (pending : Bool) (h : Remembered P store wire)
    (hfree : claimDigest P other = claimDigest P wire → other = wire) :
    Remembered P (insertClaim store other rec (claimDigest P other) pending) wire := by
  by_cases hsame : claimDigest P other = claimDigest P wire
  · obtain rfl := hfree hsame
    exact Or.inr (Or.inl (by simp))
  · rcases h with hcorrupt | hstored | ⟨e, he, hbytes, hdigest⟩
    · exact Or.inl (by simpa using hcorrupt)
    · apply Or.inr ∘ Or.inl
      rw [insertClaim_claims, KeyedTable.get?_set_ne _ _ (Ne.symm hsame)]
      exact hstored
    · refine Or.inr (Or.inr ⟨e, ?_, hbytes, hdigest⟩)
      rw [insertClaim_exhausted, List.mem_filter]
      refine ⟨he, ?_⟩
      rw [hdigest]
      exact decide_eq_true (Ne.symm hsame)

theorem remembered_step {store next : ConformanceStore} {op : StoreOp} {wire : Bytes}
    (h : Remembered P store wire)
    (hfree : ∀ other, op.wire? = some other → claimDigest P other = claimDigest P wire → other = wire)
    (hstep : storeMachine P store op = some next) : Remembered P next wire := by
  obtain rfl := Option.some.inj hstep
  cases op with
  | apply other pub pending =>
    have hother := hfree other rfl
    rcases apply_cases P store other pub pending with
      hsame | ⟨rec, _, _, _, _, ⟨_, heq⟩ | ⟨_, heq⟩⟩
    · simpa only [hsame] using h
    · simp only [heq]
      exact remembered_recordExhausted h hother
    · simp only [heq]
      exact remembered_insertClaim rec pending h hother
  | expand newMax =>
    rcases expand_cases store newMax with hsame | hnew
    · simpa only [hsame] using h
    · simp only [hnew]
      exact h
  | convert =>
    rcases convert_cases store with hsame | ⟨j, _, _, hnew⟩
    · simpa only [hsame] using h
    · simp only [hnew]
      exact h
  | reverify pub exactBytes claimedDigest =>
    rcases reverify_cases P store pub exactBytes claimedDigest with hsame | ⟨reason, hnew⟩
    · simpa only [hsame] using h
    · simp only [hnew]
      exact Or.inl (by simp [recordCorrupt])

theorem remembered_run {ops : List StoreOp} {store last : ConformanceStore} {wire : Bytes}
    (h : Remembered P store wire)
    (hfree : ∀ other ∈ appliedWires ops, claimDigest P other = claimDigest P wire → other = wire)
    (hrun : (storeMachine P).run store ops = some last) : Remembered P last wire := by
  induction ops generalizing store with
  | nil =>
    obtain rfl : store = last := by simpa using hrun
    exact h
  | cons op ops ih =>
    obtain ⟨next, hstep, hrest⟩ := (Machine.run_cons _).mp hrun
    apply ih _ _ hrest
    · apply remembered_step h _ hstep
      intro other hother
      exact hfree other (List.mem_filterMap.mpr ⟨op, List.mem_cons_self, hother⟩)
    · intro other hother
      obtain ⟨o, ho, hwire⟩ := List.mem_filterMap.mp hother
      exact hfree other (List.mem_filterMap.mpr ⟨o, List.mem_cons_of_mem op ho, hwire⟩)

/-- Only what was applied is stored. -/
theorem stored_applied {ops : List StoreOp} {store last : ConformanceStore} {cd wire : Bytes}
    (hrun : (storeMachine P).run store ops = some last) (hstored : last.claims.get? cd = some wire) :
    store.claims.get? cd = some wire ∨ wire ∈ appliedWires ops := by
  induction ops generalizing store with
  | nil =>
    obtain rfl : store = last := by simpa using hrun
    exact Or.inl hstored
  | cons op ops ih =>
    obtain ⟨next, hstep, hrest⟩ := (Machine.run_cons _).mp hrun
    rcases ih hrest with hnext | hlater
    · obtain rfl := Option.some.inj hstep
      cases op with
      | apply other pub pending =>
        rcases apply_cases P store other pub pending with
          hsame | ⟨rec, _, _, _, _, ⟨_, heq⟩ | ⟨_, heq⟩⟩
        · exact Or.inl (by simpa only [hsame] using hnext)
        · simp only [heq] at hnext
          exact Or.inl hnext
        · simp only [heq, resultOf, insertClaim_claims, KeyedTable.get?_set] at hnext
          split at hnext
          · obtain rfl := Option.some.inj hnext
            exact Or.inr (List.mem_filterMap.mpr ⟨_, List.mem_cons_self, rfl⟩)
          · exact Or.inl hnext
      | expand newMax =>
        rcases expand_cases store newMax with hsame | hnew
        · exact Or.inl (by simpa only [hsame] using hnext)
        · exact Or.inl (by simpa only [hnew] using hnext)
      | convert =>
        rcases convert_cases store with hsame | ⟨j, _, _, hnew⟩
        · exact Or.inl (by simpa only [hsame] using hnext)
        · exact Or.inl (by simpa only [hnew] using hnext)
      | reverify p exactBytes claimedDigest =>
        rcases reverify_cases P store p exactBytes claimedDigest with hsame | ⟨reason, hnew⟩
        · exact Or.inl (by simpa only [hsame] using hnext)
        · simp only [hnew] at hnext
          exact Or.inl hnext
    · obtain ⟨o, ho, hwire⟩ := List.mem_filterMap.mp hlater
      exact Or.inr (List.mem_filterMap.mpr ⟨o, List.mem_cons_of_mem op ho, hwire⟩)

/-- Whatever result an application gives, the claim is remembered. -/
theorem remembered_apply {store : ConformanceStore} {wire pub : Bytes} {pending : Bool}
    {result : ApplyResult} (h : (applyVerifiedClaim P store wire pub pending).1 = .ok result)
    (hfree : ∀ other, store.claims.get? (claimDigest P wire) = some other → other = wire) :
    Remembered P (applyVerifiedClaim P store wire pub pending).2 wire := by
  unfold applyVerifiedClaim at h ⊢
  simp only at h ⊢
  cases hadmitted : admitClaim P store wire pub with
  | error e =>
    rw [hadmitted] at h
    cases h
  | ok rec =>
    rw [hadmitted] at h
    cases hjournal : checkJournal store wire (claimDigest P wire) pending with
    | error e =>
      rw [hjournal] at h
      cases h
    | ok u =>
      rw [hjournal] at h
      simp only at h ⊢
      by_cases hstored : store.claims.contains (claimDigest P wire) = true
      · rw [if_pos hstored]
        obtain ⟨other, hother⟩ := Option.isSome_iff_exists.mp hstored
        obtain rfl := hfree other hother
        exact Or.inr (Or.inl hother)
      · rw [if_neg hstored] at h ⊢
        by_cases hcorrupt : store.corrupt = []
        · rw [if_neg (not_not.mpr hcorrupt)]
          by_cases hfull : store.claims.count ≥ store.maxClaims
          · rw [if_pos hfull]
            exact Or.inr (Or.inr
              ⟨_, List.mem_append_right _ (List.mem_singleton_self _), rfl, rfl⟩)
          · rw [if_neg hfull]
            exact Or.inr (Or.inl (by simp [resultOf]))
        · rw [if_pos hcorrupt]
          exact Or.inl hcorrupt

/-- The device is recognised by one of the four properties of a claim. -/
def Device.Matches (device : Device) (rec : DeviceRevocation) : Prop :=
  device.deviceId = some rec.deviceId ∨ device.deviceEdPub = some rec.deviceEdPub ∨
    device.deviceXPub = some rec.deviceXPub ∨ device.deviceCertHash = some rec.deviceCertHash

theorem Device.Matches.check {device : Device} {rec : DeviceRevocation} (h : device.Matches rec)
    (cd : Bytes) : ∃ t ∈ lineageTargets rec cd, (t.kind, some t.value) ∈ device.checks := by
  unfold lineageTargets Device.checks
  rcases h with h | h | h | h
  · exact ⟨_, List.mem_cons_self, by simp [h]⟩
  · exact ⟨_, List.mem_cons_of_mem _ List.mem_cons_self, by simp [h]⟩
  · exact ⟨_, List.mem_cons_of_mem _ (List.mem_cons_of_mem _ List.mem_cons_self), by simp [h]⟩
  · exact ⟨⟨.deviceCertHash, rec.deviceCertHash, cd, rec.revocationId⟩, by simp, by simp [h]⟩

theorem isRevoked_of_covers {revoked : List RevokedTarget} {t : RevokedTarget} (h : Covers revoked t) :
    isRevoked revoked (t.kind, some t.value) = true := by
  obtain ⟨u, hu, hkind, hvalue⟩ := h
  simp only [isRevoked, Option.any_some, List.any_eq_true]
  exact ⟨u, hu, by simp [hkind, hvalue]⟩

theorem denied_of_remembered {store : ConformanceStore} (h : Coherent P store) {wire : Bytes}
    (hremembered : Remembered P store wire) {rec : DeviceRevocation} (hdecode : decode P wire = .ok rec)
    {device : Device} (hmatches : device.Matches rec) (surface : PyStr) :
    (authorizeDevice store device surface).authorized = false := by
  unfold authorizeDevice
  split
  · rfl
  · rename_i hcorrupt
    split
    · rfl
    · rename_i hunmarked
      rcases hremembered with hbad | hstored | ⟨e, he, _, _⟩
      · exact absurd hbad hcorrupt
      · obtain ⟨_, r, hr, hcovers⟩ := h.stored _ _ hstored
        rw [hdecode] at hr
        obtain rfl := Except.ok.inj hr
        obtain ⟨t, ht, hcheck⟩ := hmatches.check (claimDigest P wire)
        have hrevoked := isRevoked_of_covers (hcovers t ht)
        split
        · rfl
        · rename_i hnone
          exact absurd hrevoked (List.find?_eq_none.mp hnone _ hcheck)
      · apply absurd _ hunmarked
        exact List.any_eq_true.mpr ⟨e, he, by simp [(h.marked e he).1]⟩

/-- Accepted claims deny their devices in every later state, and a refused one changes nothing
while the widths of the snapshot last. -/
theorem revocation_never_lost {address : PyStr} {maxClaims : Int} {ops : List StoreOp}
    {store : ConformanceStore}
    (hrun : (storeMachine P).run (emptyStore address maxClaims) ops = some store) :
    (∀ (wire pub : Bytes) (pending : Bool) (later : List StoreOp) (result : ApplyResult)
        (last : ConformanceStore),
      CollisionFree P (appliedWires (ops ++ .apply wire pub pending :: later)) →
      (applyVerifiedClaim P store wire pub pending).1 = .ok result →
      (storeMachine P).run (applyVerifiedClaim P store wire pub pending).2 later = some last →
      ∀ (rec : DeviceRevocation) (device : Device) (surface : PyStr), decode P wire = .ok rec →
        device.Matches rec → (authorizeDevice last device surface).authorized = false) ∧
    (∀ (wire pub : Bytes) (pending : Bool) (e : PyExc), Roomy store →
      (applyVerifiedClaim P store wire pub pending).1 = .error e →
      (applyVerifiedClaim P store wire pub pending).2 = store) := by
  have hcoherent := coherent_run hrun
  refine ⟨?_, fun wire pub pending e hroom herror => apply_error hcoherent hroom herror⟩
  intro wire pub pending later result last hfree hresult hlater rec device surface hdecode hmatches
  have happlied : wire ∈ appliedWires (ops ++ .apply wire pub pending :: later) :=
    List.mem_filterMap.mpr ⟨.apply wire pub pending, by simp, rfl⟩
  have hstored : ∀ other, store.claims.get? (claimDigest P wire) = some other → other = wire := by
    intro other hother
    have hdigest := (hcoherent.stored _ _ hother).1
    rcases stored_applied hrun hother with hempty | hmem
    · cases hempty
    · apply hfree other _ wire happlied hdigest.symm
      simp only [appliedWires, List.filterMap_append, List.mem_append]
      exact Or.inl hmem
  have hnow := remembered_apply hresult hstored
  have hthen : Remembered P last wire := by
    apply remembered_run hnow _ hlater
    intro other hother hsame
    apply hfree other _ wire happlied hsame
    simp only [appliedWires, List.filterMap_append, List.mem_append, List.filterMap_cons,
      StoreOp.wire?]
    exact Or.inr (List.mem_cons_of_mem wire hother)
  have hlast : Coherent P last :=
    Machine.invariant coherent_step (coherent_apply hcoherent wire pub pending) hlater
  exact denied_of_remembered hlast hthen hdecode hmatches surface

section Sample

def sampleAddress : PyStr := Address.encode samplePlatform sampleKey

theorem decode_sampleWire : decode samplePlatform (sampleWire 3 1) = .ok (sampleRecord 3 1) := by
  decide +kernel

theorem admitClaim_sampleWire {store : ConformanceStore} (h : store.identityAddress = sampleAddress) :
    admitClaim samplePlatform store (sampleWire 3 1) sampleKey = .ok (sampleRecord 3 1) := by
  have hverify : verify samplePlatform (sampleRecord 3 1) sampleKey = true := by decide +kernel
  have haddress : (sampleRecord 3 1).identityAddress = store.identityAddress := h.symm
  unfold admitClaim
  rw [decode_sampleWire]
  simp only [bind, Except.bind, orRaise_pos haddress, orRaise_pos hverify]
  rfl

/-- Left out by a full store, kept for a larger quota and stored. -/
theorem revocation_never_lost_sample :
    ∃ last, (storeMachine samplePlatform).run (emptyStore sampleAddress 0)
        [.apply (sampleWire 3 1) sampleKey false, .expand 5, .convert,
          .apply (sampleWire 3 1) sampleKey true] = some last ∧
      ∀ surface, (authorizeDevice last ⟨none, none, some (List.replicate 32 3), none⟩
        surface).authorized = false := by
  have hok : ((applyVerifiedClaim samplePlatform (emptyStore sampleAddress 0) (sampleWire 3 1)
      sampleKey false).1.toOption).isSome = true := by decide +kernel
  obtain ⟨result, hresult⟩ := Option.isSome_iff_exists.mp hok
  refine ⟨_, rfl, fun surface => ?_⟩
  refine (revocation_never_lost (show (storeMachine samplePlatform).run
    (emptyStore sampleAddress 0) [] = some _ from rfl)).1 (sampleWire 3 1) sampleKey false
    [.expand 5, .convert, .apply (sampleWire 3 1) sampleKey true] result _ ?_
    (toOption_some.mp hresult) rfl (sampleRecord 3 1) _ surface decode_sampleWire
    (Or.inr (Or.inr (Or.inl rfl)))
  intro a ha b hb _
  have hall : ∀ w ∈ appliedWires ([] ++ .apply (sampleWire 3 1) sampleKey false ::
      [.expand 5, .convert, .apply (sampleWire 3 1) sampleKey true]), w = sampleWire 3 1 := by
    intro w hw
    have hboth : w = sampleWire 3 1 ∨ sampleWire 3 1 = w := by
      simpa [appliedWires, StoreOp.wire?] using hw
    exact hboth.elim id Eq.symm
  rw [hall a ha, hall b hb]

/-- A store without a quota to which one claim was offered again and again. -/
def fullStore (generation : Nat) : ConformanceStore :=
  { emptyStore sampleAddress 0 with
    generation
    exhausted := [⟨sampleAddress, claimDigest samplePlatform (sampleWire 3 1), sampleWire 3 1⟩]
    journal := some ⟨.pendingRevoke, claimDigest samplePlatform (sampleWire 3 1), sampleWire 3 1,
      some .pendingRevokeExhausted⟩ }

theorem apply_fullStore (generation : Nat) :
    applyVerifiedClaim samplePlatform (fullStore generation) (sampleWire 3 1) sampleKey true =
      resultOf samplePlatform .exhausted (claimDigest samplePlatform (sampleWire 3 1))
        (recordExhausted (fullStore generation) (sampleWire 3 1)
          (claimDigest samplePlatform (sampleWire 3 1))) := by
  have hjournal : checkJournal (fullStore generation) (sampleWire 3 1)
      (claimDigest samplePlatform (sampleWire 3 1)) true = .ok () := by
    simp [checkJournal, fullStore]
  unfold applyVerifiedClaim
  simp only [admitClaim_sampleWire (show (fullStore generation).identityAddress = sampleAddress from rfl),
    hjournal]
  rfl

theorem recordExhausted_fullStore (generation : Nat) :
    (convertExhaustedJournalToPending (recordExhausted (fullStore generation) (sampleWire 3 1)
      (claimDigest samplePlatform (sampleWire 3 1)))).2 = fullStore (generation + 1) := by
  simp [convertExhaustedJournalToPending, recordExhausted, fullStore, emptyStore]

/-- Every further offer of the claim to the full store raises the generation. -/
theorem reaches_fullStore (generation : Nat) : ∃ ops, (storeMachine samplePlatform).run
    (emptyStore sampleAddress 0) ops = some (fullStore (generation + 1)) := by
  induction generation with
  | zero =>
    refine ⟨[.apply (sampleWire 3 1) sampleKey false, .convert], ?_⟩
    have happly : (applyVerifiedClaim samplePlatform (emptyStore sampleAddress 0) (sampleWire 3 1)
        sampleKey false).2 = recordExhausted (emptyStore sampleAddress 0) (sampleWire 3 1)
          (claimDigest samplePlatform (sampleWire 3 1)) := by
      unfold applyVerifiedClaim
      simp only [admitClaim_sampleWire
        (show (emptyStore sampleAddress 0).identityAddress = sampleAddress from rfl)]
      rfl
    simp only [Machine.run, storeMachine, Option.bind_some, happly]
    rfl
  | succ generation ih =>
    obtain ⟨ops, hops⟩ := ih
    refine ⟨ops ++ [.apply (sampleWire 3 1) sampleKey true, .convert], ?_⟩
    refine (Machine.run_append _).mpr ⟨_, hops, ?_⟩
    simp only [Machine.run, storeMachine, Option.bind_some, apply_fullStore, resultOf,
      recordExhausted_fullStore]

/-- At the end of the 64 bits of the generation the snapshot raises after the marker and the
generation were written. -/
theorem refused_after_change : ∃ ops store, (storeMachine samplePlatform).run
      (emptyStore sampleAddress 0) ops = some store ∧
    (∃ e, (applyVerifiedClaim samplePlatform store (sampleWire 3 1) sampleKey true).1 = .error e) ∧
    (applyVerifiedClaim samplePlatform store (sampleWire 3 1) sampleKey true).2.generation ≠
      store.generation := by
  obtain ⟨ops, hops⟩ := reaches_fullStore (2 ^ 64 - 2)
  refine ⟨ops, _, hops, ?_, ?_⟩
  · rw [apply_fullStore]
    refine ⟨⟨.valueError, lit "generation out of range"⟩, ?_⟩
    have hrange : ¬((0 : Int) ≤ ((recordExhausted (fullStore (2 ^ 64 - 2 + 1)) (sampleWire 3 1)
        (claimDigest samplePlatform (sampleWire 3 1))).generation : Nat) ∧
        (((recordExhausted (fullStore (2 ^ 64 - 2 + 1)) (sampleWire 3 1)
          (claimDigest samplePlatform (sampleWire 3 1))).generation : Nat) : Int) < 2 ^ 64) := by
      simp [recordExhausted, fullStore]
    unfold resultOf ConformanceStore.snapshotDict ConformanceStore.storeHash revocationStoreHash
      canonicalStoreSnapshot
    rw [orRaise_error.mpr ⟨hrange, rfl⟩]
    rfl
  · rw [apply_fullStore]
    simp [resultOf, recordExhausted, fullStore]

end Sample

end Rdap.Revocation
