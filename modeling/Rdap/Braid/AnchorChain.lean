import Rdap.Braid.Anchor
import Rdap.Lib.Machine

/-!
# Appending anchors

The blobs of a record that were appended one after another are a chain in the order in which
they were stored, and the scan of the blobs finds that chain whatever their order.
-/

set_option autoImplicit false

namespace Rdap.Braid
open Python Protocol Lib

variable {P : Platform} {kAnchor kIndex : Bytes}

/-! ## Chains -/

instance seqOrder_total : Std.Total seqOrder := ⟨fun a b => by unfold seqOrder; omega⟩

instance seqOrder_trans : IsTrans Rvfa1 seqOrder := ⟨fun a b c => by unfold seqOrder; omega⟩

def lastStatus (before : Option AnchorStatus) (chain : List Rvfa1) : Option AnchorStatus :=
  (chain.getLast?.map Rvfa1.status).or before

theorem lastStatus_cons (before : Option AnchorStatus) (item : Rvfa1) (rest : List Rvfa1) :
    lastStatus before (item :: rest) = lastStatus (some item.status) rest := by
  cases hrest : rest.getLast? <;> simp [lastStatus, List.getLast?_cons, hrest]

theorem chainFrom_append (seq : Int) (before : Option AnchorStatus) (xs ys : List Rvfa1) :
    chainFrom seq before (xs ++ ys) =
      (chainFrom seq before xs && chainFrom (seq + xs.length) (lastStatus before xs) ys) := by
  induction xs generalizing seq before with
  | nil => simp [chainFrom, lastStatus]
  | cons x xs ih =>
    have hlen : seq + 1 + (xs.length : Int) = seq + ((x :: xs).length : Nat) := by
      rw [List.length_cons]
      omega
    rw [List.cons_append, chainFrom, chainFrom, ih, lastStatus_cons, hlen]
    simp only [Bool.and_assoc]

theorem chainFrom_seqs {seq : Int} {before : Option AnchorStatus} {chain : List Rvfa1}
    (h : chainFrom seq before chain) :
    chain.map Rvfa1.anchorSeq = (List.range chain.length).map fun i : Nat => seq + i := by
  induction chain generalizing seq before with
  | nil => rfl
  | cons item rest ih =>
    simp only [chainFrom, Bool.and_eq_true, decide_eq_true_eq] at h
    obtain ⟨⟨hseq, -⟩, hrest⟩ := h
    rw [List.map_cons, ih hrest, hseq, List.length_cons, List.range_succ_eq_map, List.map_cons,
      List.map_map]
    congr 1
    · omega
    · apply List.map_congr_left
      intro i _
      simp only [Function.comp_apply]
      omega

theorem chainFrom_bounds {seq : Int} {before : Option AnchorStatus} {chain : List Rvfa1}
    (h : chainFrom seq before chain) {item : Rvfa1} (hitem : item ∈ chain) :
    seq ≤ item.anchorSeq ∧ item.anchorSeq < seq + chain.length := by
  have hmem := List.mem_map_of_mem (f := Rvfa1.anchorSeq) hitem
  rw [chainFrom_seqs h] at hmem
  obtain ⟨i, hi, heq⟩ := List.mem_map.mp hmem
  have hlt := List.mem_range.mp hi
  omega

theorem chainFrom_nodup {seq : Int} {before : Option AnchorStatus} {chain : List Rvfa1}
    (h : chainFrom seq before chain) : (chain.map Rvfa1.anchorSeq).Nodup := by
  rw [chainFrom_seqs h]
  apply List.Nodup.map _ List.nodup_range
  intro i j hij
  simp only at hij
  omega

theorem chainFrom_sorted {seq : Int} {before : Option AnchorStatus} {chain : List Rvfa1}
    (h : chainFrom seq before chain) : chain.Pairwise seqOrder := by
  induction chain generalizing seq before with
  | nil => exact .nil
  | cons item rest ih =>
    simp only [chainFrom, Bool.and_eq_true, decide_eq_true_eq] at h
    obtain ⟨⟨hseq, -⟩, hrest⟩ := h
    refine List.pairwise_cons.mpr ⟨?_, ih hrest⟩
    intro later hlater
    have hbound := chainFrom_bounds hrest hlater
    unfold seqOrder
    omega

theorem establishedChainOk_of_chain {chain : List Rvfa1} (h : chainFrom initialAnchorSeq none chain) :
    establishedChainOk chain = true := by
  unfold establishedChainOk
  rw [List.Pairwise.insertionSort_eq (chainFrom_sorted h)]
  exact h

/-- The item with the largest number is the last one of a chain. -/
theorem firstMax_chain {seq : Int} {before : Option AnchorStatus} {item : Rvfa1} {rest : List Rvfa1}
    (h : chainFrom seq before (item :: rest)) :
    (item :: rest).getLast? = some (firstMax Rvfa1.anchorSeq item rest) ∧
      (firstMax Rvfa1.anchorSeq item rest).anchorSeq = seq + rest.length := by
  obtain ⟨hmem, hmax⟩ := firstMax_spec Rvfa1.anchorSeq item rest
  obtain ⟨init, last, hsplit⟩ : ∃ init last, item :: rest = init ++ [last] :=
    ⟨_, _, (List.dropLast_append_getLast (List.cons_ne_nil item rest)).symm⟩
  have hlen : init.length = rest.length := by
    have hcount := congrArg List.length hsplit
    simp only [List.length_cons, List.length_append, List.length_nil] at hcount
    omega
  rw [hsplit] at h hmem hmax ⊢
  rw [chainFrom_append] at h
  simp only [Bool.and_eq_true, chainFrom, decide_eq_true_eq] at h
  obtain ⟨hinit, ⟨hlast, -⟩, -⟩ := h
  have hge := hmax last (List.mem_append_right init List.mem_cons_self)
  have heq : firstMax Rvfa1.anchorSeq item rest = last := by
    rcases List.mem_append.mp hmem with hfirst | hfirst
    · have hbound := chainFrom_bounds hinit hfirst
      omega
    · exact List.mem_singleton.mp hfirst
  rw [heq]
  refine ⟨List.getLast?_concat, ?_⟩
  omega

/-- What follows a status in a chain. -/
def chainTails : Option AnchorStatus → List (List AnchorStatus)
  | none | some .head => [[], [.deleting], [.deleting, .tombstone]]
  | some .deleting => [[], [.tombstone]]
  | some .tombstone => [[]]

theorem nil_mem_chainTails (before : Option AnchorStatus) : [] ∈ chainTails before := by
  rcases before with _ | _ | _ | _ <;> simp [chainTails]

theorem chainFrom_statuses {seq : Int} {before : Option AnchorStatus} {chain : List Rvfa1}
    (h : chainFrom seq before chain) :
    ∃ heads tail, chain.map Rvfa1.status = List.replicate heads .head ++ tail ∧
      tail ∈ chainTails before ∧ (before = none → heads = 0 → tail = []) ∧
      (before = some .deleting ∨ before = some .tombstone → heads = 0) := by
  induction chain generalizing seq before with
  | nil => exact ⟨0, [], rfl, nil_mem_chainTails before, fun _ _ => rfl, fun _ => rfl⟩
  | cons item rest ih =>
    simp only [chainFrom, Bool.and_eq_true, decide_eq_true_eq] at h
    obtain ⟨⟨-, hstep⟩, hrest⟩ := h
    obtain ⟨heads, tail, hmap, htail, -, hzero⟩ := ih hrest
    rw [List.map_cons, hmap]
    cases hstatus : item.status with
    | head =>
      rw [hstatus] at hstep htail
      refine ⟨heads + 1, tail, by rw [List.replicate_succ, List.cons_append], ?_,
        fun _ hheads => by omega, ?_⟩
      · cases before with
        | none => exact htail
        | some b => cases b <;> simp_all [statusTransitionOk, chainTails]
      · rintro (rfl | rfl) <;> simp [statusTransitionOk] at hstep
    | deleting =>
      rw [hstatus] at hstep htail hzero
      have hnone : heads = 0 := hzero (.inl rfl)
      cases before with
      | none => simp [statusTransitionOk] at hstep
      | some b =>
        refine ⟨0, .deleting :: tail, by rw [hnone]; rfl, ?_, by simp, fun _ => rfl⟩
        cases b <;> simp_all [statusTransitionOk, chainTails]
    | tombstone =>
      rw [hstatus] at hstep htail hzero
      have hnone : heads = 0 := hzero (.inr rfl)
      cases before with
      | none => simp [statusTransitionOk] at hstep
      | some b =>
        refine ⟨0, .tombstone :: tail, by rw [hnone]; rfl, ?_, by simp, fun _ => rfl⟩
        cases b <;> simp_all [statusTransitionOk, chainTails]

/-! ## What the scan finds -/

/-- The readable blobs of a record, each with its content. -/
def blobsOf (P : Platform) (kAnchor kIndex key : Bytes) (store : List Bytes) : List (Bytes × Rvfa1) :=
  store.filterMap fun raw => (readBlob P kAnchor kIndex raw).bind fun item =>
    if item.recordKey = key then some (raw, item) else none

def chainOf (P : Platform) (kAnchor kIndex key : Bytes) (store : List Bytes) : List Rvfa1 :=
  (blobsOf P kAnchor kIndex key store).map Prod.snd

theorem mem_blobsOf {key : Bytes} {store : List Bytes} {entry : Bytes × Rvfa1} :
    entry ∈ blobsOf P kAnchor kIndex key store ↔
      entry.1 ∈ store ∧ readBlob P kAnchor kIndex entry.1 = some entry.2 ∧ entry.2.recordKey = key := by
  unfold blobsOf
  rw [List.mem_filterMap]
  constructor
  · rintro ⟨raw, hraw, hentry⟩
    obtain ⟨item, hitem, hkey⟩ := Option.bind_eq_some_iff.mp hentry
    split at hkey
    · rename_i hrecord
      obtain rfl := Option.some.inj hkey
      exact ⟨hraw, hitem, hrecord⟩
    · cases hkey
  · rintro ⟨hraw, hitem, hkey⟩
    refine ⟨entry.1, hraw, ?_⟩
    rw [hitem, Option.bind_some, if_pos hkey]

/-- The scan goes through: every blob is readable, and the blobs of the candidate's record
belong to its session and role and differ in their numbers. -/
structure Scannable (P : Platform) (kAnchor kIndex : Bytes) (candidate : Rvfa1) (store : List Bytes) :
    Prop where
  readable : ∀ raw ∈ store, (readBlob P kAnchor kIndex raw).isSome = true
  agree : ∀ item ∈ chainOf P kAnchor kIndex candidate.recordKey store,
    item.sessionId = candidate.sessionId ∧ item.role = candidate.role
  apart : ((chainOf P kAnchor kIndex candidate.recordKey store).map Rvfa1.anchorSeq).Nodup

/-- The table of the scan holds the entries of the record, under their numbers. -/
structure SeenOf (candidate : Rvfa1) (entries : List (Bytes × Rvfa1)) (seen : SeenBlobs) : Prop where
  same : ∀ entry ∈ entries, entry.2.recordKey = candidate.recordKey
  holds : ∀ key raw, seen.get? key = some raw ↔
    ∃ entry ∈ entries, entry.1 = raw ∧ (entry.2.recordKey, entry.2.anchorSeq) = key
  apart : (entries.map fun entry => entry.2.anchorSeq).Nodup

theorem seenOf_empty (candidate : Rvfa1) : SeenOf candidate [] .empty where
  same := by simp
  holds := by simp
  apart := by simp

theorem SeenOf.contains {candidate : Rvfa1} {entries : List (Bytes × Rvfa1)} {seen : SeenBlobs}
    (h : SeenOf candidate entries seen) {item : Rvfa1} :
    seen.contains (item.recordKey, item.anchorSeq) = true ↔
      item.recordKey = candidate.recordKey ∧
        item.anchorSeq ∈ entries.map fun entry => entry.2.anchorSeq := by
  unfold KeyedTable.contains
  rw [Option.isSome_iff_exists]
  constructor
  · rintro ⟨raw, hraw⟩
    obtain ⟨entry, hentry, -, hkey⟩ := (h.holds _ _).mp hraw
    obtain ⟨hrecord, hseq⟩ := Prod.mk.inj hkey
    exact ⟨hrecord ▸ h.same entry hentry, List.mem_map.mpr ⟨entry, hentry, hseq⟩⟩
  · rintro ⟨hrecord, hseq⟩
    obtain ⟨entry, hentry, heq⟩ := List.mem_map.mp hseq
    refine ⟨entry.1, (h.holds _ _).mpr ⟨entry, hentry, rfl, ?_⟩⟩
    rw [h.same entry hentry, hrecord, heq]

theorem SeenOf.insert {candidate : Rvfa1} {entries : List (Bytes × Rvfa1)} {seen : SeenBlobs}
    (h : SeenOf candidate entries seen) {raw : Bytes} {item : Rvfa1}
    (hrecord : item.recordKey = candidate.recordKey)
    (hnew : item.anchorSeq ∉ entries.map fun entry => entry.2.anchorSeq) :
    SeenOf candidate (entries ++ [(raw, item)])
      (seen.set (item.recordKey, item.anchorSeq) raw) where
  same := by
    intro entry hentry
    rcases List.mem_append.mp hentry with hold | hlast
    · exact h.same entry hold
    · obtain rfl := List.mem_singleton.mp hlast
      exact hrecord
  holds := by
    intro key other
    rw [KeyedTable.get?_set]
    by_cases hkey : key = (item.recordKey, item.anchorSeq)
    · rw [if_pos hkey]
      constructor
      · intro heq
        exact ⟨(raw, item), by simp, Option.some.inj heq, hkey.symm⟩
      · rintro ⟨entry, hentry, rfl, hsame⟩
        rcases List.mem_append.mp hentry with hold | hlast
        · rw [hkey] at hsame
          have hmem := List.mem_map_of_mem (f := fun entry : Bytes × Rvfa1 => entry.2.anchorSeq) hold
          exact absurd ((Prod.mk.inj hsame).2 ▸ hmem) hnew
        · rw [List.mem_singleton.mp hlast]
    · rw [if_neg hkey, h.holds]
      constructor
      · rintro ⟨entry, hentry, hrest⟩
        exact ⟨entry, List.mem_append_left _ hentry, hrest⟩
      · rintro ⟨entry, hentry, hraw, hsame⟩
        rcases List.mem_append.mp hentry with hold | hlast
        · exact ⟨entry, hold, hraw, hsame⟩
        · rw [List.mem_singleton.mp hlast] at hsame
          exact absurd hsame.symm hkey
  apart := by
    rw [List.map_append, List.map_singleton]
    refine List.nodup_append.mpr ⟨h.apart, List.nodup_singleton _, ?_⟩
    rintro seq hseq other hother rfl
    exact hnew (List.mem_singleton.mp hother ▸ hseq)

theorem blobsOf_cons_same {key raw : Bytes} {item : Rvfa1} {rest : List Bytes}
    (hread : readBlob P kAnchor kIndex raw = some item) (hkey : item.recordKey = key) :
    blobsOf P kAnchor kIndex key (raw :: rest) =
      (raw, item) :: blobsOf P kAnchor kIndex key rest := by
  unfold blobsOf
  rw [List.filterMap_cons_some]
  rw [hread, Option.bind_some, if_pos hkey]

theorem blobsOf_cons_other {key raw : Bytes} {item : Rvfa1} {rest : List Bytes}
    (hread : readBlob P kAnchor kIndex raw = some item) (hkey : item.recordKey ≠ key) :
    blobsOf P kAnchor kIndex key (raw :: rest) = blobsOf P kAnchor kIndex key rest := by
  unfold blobsOf
  rw [List.filterMap_cons_none]
  rw [hread, Option.bind_some, if_neg hkey]

theorem scan_finds {candidate : Rvfa1} {store : List Bytes} {entries : List (Bytes × Rvfa1)}
    {seen seen' : SeenBlobs} {parsed : List Rvfa1} (h : SeenOf candidate entries seen)
    (hscan : scanExisting P kAnchor kIndex candidate store seen (entries.map Prod.snd) =
      some (seen', parsed)) :
    (∀ raw ∈ store, (readBlob P kAnchor kIndex raw).isSome = true) ∧
      (∀ item ∈ chainOf P kAnchor kIndex candidate.recordKey store,
        item.sessionId = candidate.sessionId ∧ item.role = candidate.role) ∧
      SeenOf candidate (entries ++ blobsOf P kAnchor kIndex candidate.recordKey store) seen' ∧
      parsed = (entries ++ blobsOf P kAnchor kIndex candidate.recordKey store).map Prod.snd := by
  induction store generalizing entries seen with
  | nil =>
    obtain ⟨rfl, rfl⟩ := Prod.mk.inj (Option.some.inj hscan)
    have hnone : blobsOf P kAnchor kIndex candidate.recordKey [] = [] := rfl
    rw [hnone, List.append_nil]
    exact ⟨by simp, by simp [chainOf, hnone], h, rfl⟩
  | cons raw rest ih =>
    unfold scanExisting at hscan
    cases hread : readBlob P kAnchor kIndex raw with
    | none => simp [hread] at hscan
    | some item =>
      simp only [hread] at hscan
      split at hscan
      · cases hscan
      rename_i hunseen
      split at hscan
      · rename_i hother
        obtain ⟨hreadable, hagree, hseen, hparsed⟩ := ih h hscan
        unfold chainOf
        rw [blobsOf_cons_other hread hother]
        refine ⟨?_, hagree, hseen, hparsed⟩
        intro blob hblob
        rcases List.mem_cons.mp hblob with rfl | hblob
        · rw [hread]
          rfl
        · exact hreadable blob hblob
      rename_i hsame
      have hrecord : item.recordKey = candidate.recordKey := not_not.mp hsame
      split at hscan
      · cases hscan
      rename_i hbelongs
      have hnew : item.anchorSeq ∉ entries.map fun entry => entry.2.anchorSeq :=
        fun hmem => hunseen (h.contains.mpr ⟨hrecord, hmem⟩)
      have hgrown : entries.map Prod.snd ++ [item] = (entries ++ [(raw, item)]).map Prod.snd := by
        rw [List.map_append, List.map_singleton]
      rw [hgrown] at hscan
      obtain ⟨hreadable, hagree, hseen, hparsed⟩ := ih (h.insert hrecord hnew) hscan
      rw [List.append_assoc, List.singleton_append] at hseen hparsed
      unfold chainOf
      rw [blobsOf_cons_same hread hrecord]
      refine ⟨?_, ?_, hseen, hparsed⟩
      · intro blob hblob
        rcases List.mem_cons.mp hblob with rfl | hblob
        · rw [hread]
          rfl
        · exact hreadable blob hblob
      · intro other hmem
        rcases List.mem_cons.mp hmem with rfl | hmem
        · exact not_or.mp hbelongs |>.imp not_not.mp not_not.mp
        · exact hagree other hmem

theorem scan_defined {candidate : Rvfa1} {store : List Bytes} {entries : List (Bytes × Rvfa1)}
    {seen : SeenBlobs} (h : SeenOf candidate entries seen)
    (hreadable : ∀ raw ∈ store, (readBlob P kAnchor kIndex raw).isSome = true)
    (hagree : ∀ item ∈ chainOf P kAnchor kIndex candidate.recordKey store,
      item.sessionId = candidate.sessionId ∧ item.role = candidate.role)
    (hapart : ((entries ++ blobsOf P kAnchor kIndex candidate.recordKey store).map
      fun entry => entry.2.anchorSeq).Nodup) :
    (scanExisting P kAnchor kIndex candidate store seen (entries.map Prod.snd)).isSome = true := by
  induction store generalizing entries seen with
  | nil => rfl
  | cons raw rest ih =>
    obtain ⟨item, hread⟩ := Option.isSome_iff_exists.mp (hreadable raw List.mem_cons_self)
    have hrest : ∀ blob ∈ rest, (readBlob P kAnchor kIndex blob).isSome = true :=
      fun blob hblob => hreadable blob (List.mem_cons_of_mem raw hblob)
    unfold scanExisting
    simp only [hread]
    by_cases hrecord : item.recordKey = candidate.recordKey
    · unfold chainOf at hagree
      rw [blobsOf_cons_same hread hrecord] at hagree hapart
      have hsplit : entries ++ (raw, item) :: blobsOf P kAnchor kIndex candidate.recordKey rest =
          (entries ++ [(raw, item)]) ++ blobsOf P kAnchor kIndex candidate.recordKey rest := by
        rw [List.append_assoc, List.singleton_append]
      have hnew : item.anchorSeq ∉ entries.map fun entry => entry.2.anchorSeq := by
        intro hmem
        rw [List.map_append, List.map_cons] at hapart
        exact (List.nodup_append.mp hapart).2.2 _ hmem _ List.mem_cons_self rfl
      obtain ⟨hsession, hrole⟩ := hagree item List.mem_cons_self
      rw [if_neg fun hseen => hnew (h.contains.mp hseen).2, if_neg (not_not.mpr hrecord),
        if_neg (by simp [hsession, hrole])]
      have hgrown : entries.map Prod.snd ++ [item] = (entries ++ [(raw, item)]).map Prod.snd := by
        rw [List.map_append, List.map_singleton]
      rw [hgrown]
      apply ih (h.insert hrecord hnew) hrest
      · intro other hmem
        exact hagree other (List.mem_cons_of_mem item hmem)
      · rw [← hsplit]
        exact hapart
    · unfold chainOf at hagree
      rw [blobsOf_cons_other hread hrecord] at hagree hapart
      rw [if_neg fun hseen => hrecord (h.contains.mp hseen).1, if_pos hrecord]
      exact ih h hrest hagree hapart

/-- The scan either fails or hands the whole record to the decision. -/
theorem classifyAppend_eq (store : List Bytes) {candidate : Rvfa1} {raw : Bytes}
    (hread : readBlob P kAnchor kIndex raw = some candidate) :
    (¬Scannable P kAnchor kIndex candidate store ∧
      classifyAppend P store raw kAnchor kIndex = .corrupt) ∨
    (Scannable P kAnchor kIndex candidate store ∧ ∃ seen,
      SeenOf candidate (blobsOf P kAnchor kIndex candidate.recordKey store) seen ∧
      classifyAppend P store raw kAnchor kIndex =
        decideAppend raw candidate seen (chainOf P kAnchor kIndex candidate.recordKey store)) := by
  have hempty : ([] : List (Bytes × Rvfa1)).map Prod.snd = ([] : List Rvfa1) := rfl
  unfold classifyAppend
  simp only [hread]
  cases hscan : scanExisting P kAnchor kIndex candidate store .empty [] with
  | none =>
    refine Or.inl ⟨?_, rfl⟩
    rintro ⟨hreadable, hagree, hapart⟩
    rw [chainOf, List.map_map] at hapart
    have hsome := scan_defined (seenOf_empty candidate) hreadable hagree hapart
    rw [hempty, hscan] at hsome
    cases hsome
  | some found =>
    obtain ⟨seen, parsed⟩ := found
    obtain ⟨hreadable, hagree, hseen, rfl⟩ := scan_finds (seenOf_empty candidate) hscan
    refine Or.inr ⟨⟨hreadable, hagree, ?_⟩, seen, hseen, rfl⟩
    rw [chainOf, List.map_map]
    exact hseen.apart

/-! ## The order of the blobs -/

theorem blobsOf_perm {key : Bytes} {xs ys : List Bytes} (h : xs.Perm ys) :
    (blobsOf P kAnchor kIndex key xs).Perm (blobsOf P kAnchor kIndex key ys) :=
  h.filterMap _

theorem scannable_perm {candidate : Rvfa1} {xs ys : List Bytes} (h : xs.Perm ys)
    (hscan : Scannable P kAnchor kIndex candidate xs) : Scannable P kAnchor kIndex candidate ys := by
  have hchain : (chainOf P kAnchor kIndex candidate.recordKey xs).Perm
      (chainOf P kAnchor kIndex candidate.recordKey ys) := (blobsOf_perm h).map _
  refine ⟨?_, ?_, ?_⟩
  · intro raw hraw
    exact hscan.readable raw (h.mem_iff.mpr hraw)
  · intro item hitem
    exact hscan.agree item (hchain.mem_iff.mpr hitem)
  · exact (hchain.map _).nodup_iff.mp hscan.apart

theorem firstMax_perm {a b : Rvfa1} {xs ys : List Rvfa1} (h : (a :: xs).Perm (b :: ys))
    (hapart : ((a :: xs).map Rvfa1.anchorSeq).Nodup) :
    firstMax Rvfa1.anchorSeq a xs = firstMax Rvfa1.anchorSeq b ys := by
  obtain ⟨hmem, hmax⟩ := firstMax_spec Rvfa1.anchorSeq a xs
  obtain ⟨hmem', hmax'⟩ := firstMax_spec Rvfa1.anchorSeq b ys
  have hle := hmax _ (h.mem_iff.mpr hmem')
  have hge := hmax' _ (h.mem_iff.mp hmem)
  apply List.inj_on_of_nodup_map hapart hmem (h.mem_iff.mpr hmem')
  omega

theorem decideAppend_perm {raw : Bytes} {candidate : Rvfa1} {entries entries' : List (Bytes × Rvfa1)}
    {seen seen' : SeenBlobs} (h : SeenOf candidate entries seen) (h' : SeenOf candidate entries' seen')
    (hperm : entries.Perm entries') :
    decideAppend raw candidate seen (entries.map Prod.snd) =
      decideAppend raw candidate seen' (entries'.map Prod.snd) := by
  have hget : seen.get? (candidate.recordKey, candidate.anchorSeq) =
      seen'.get? (candidate.recordKey, candidate.anchorSeq) := by
    apply Option.ext
    intro blob
    rw [h.holds, h'.holds]
    simp only [hperm.mem_iff]
  have hchain := hperm.map Prod.snd
  have hapart : ((entries.map Prod.snd).map Rvfa1.anchorSeq).Nodup := by
    rw [List.map_map]
    exact h.apart
  have hok : establishedChainOk (entries.map Prod.snd) = establishedChainOk (entries'.map Prod.snd) := by
    unfold establishedChainOk
    rw [insertionSort_eq_of_perm hchain]
    intro a ha b hb hab hba
    apply List.inj_on_of_nodup_map hapart ha hb
    exact Int.le_antisymm hab hba
  unfold decideAppend
  rw [hget, hok]
  cases hleft : entries.map Prod.snd with
  | nil =>
    rw [hleft, List.nil_perm] at hchain
    rw [hchain]
  | cons a xs =>
    cases hright : entries'.map Prod.snd with
    | nil =>
      rw [hleft, hright, List.perm_nil] at hchain
      cases hchain
    | cons b ys =>
      rw [hleft, hright] at hchain
      rw [hleft] at hapart
      simp only [firstMax_perm hchain hapart]

theorem classifyAppend_perm {xs ys : List Bytes} (h : xs.Perm ys) (raw : Bytes) :
    classifyAppend P xs raw kAnchor kIndex = classifyAppend P ys raw kAnchor kIndex := by
  cases hread : readBlob P kAnchor kIndex raw with
  | none => simp only [classifyAppend, hread]
  | some candidate =>
    rcases classifyAppend_eq xs hread with ⟨hno, heq⟩ | ⟨hyes, seen, hseen, heq⟩
    · rcases classifyAppend_eq ys hread with ⟨-, heq'⟩ | ⟨hyes', -⟩
      · rw [heq, heq']
      · exact absurd (scannable_perm h.symm hyes') hno
    · rcases classifyAppend_eq ys hread with ⟨hno', -⟩ | ⟨-, seen', hseen', heq'⟩
      · exact absurd (scannable_perm h hyes) hno'
      · rw [heq, heq']
        exact decideAppend_perm hseen hseen' (blobsOf_perm h)

/-! ## The invariant of the store -/

/-- The record and the number a blob is for. -/
def blobIdentity (raw : Bytes) : Bytes × Int := (slice raw 12 32, sliceInt raw 76 8)

theorem readBlob_identity {raw : Bytes} {item : Rvfa1}
    (h : readBlob P kAnchor kIndex raw = some item) :
    blobIdentity raw = (item.recordKey, item.anchorSeq) := by
  unfold readBlob at h
  split at h
  · cases h
  rename_i decoded hdecode
  split at h
  · obtain rfl := Option.some.inj h
    unfold decodeRvfa1 requireLen at hdecode
    simp only [bind_ok, orRaise_ok, pure_ok] at hdecode
    obtain ⟨blob, hblob, -, -, -, -, status, -, -, -, key, -, -, -, rfl⟩ := hdecode
    split at hblob
    · obtain rfl := Except.ok.inj hblob
      rfl
    · cases hblob
  · cases h

structure AnchorsOk (P : Platform) (kAnchor kIndex : Bytes) (store : List Bytes) : Prop where
  readable : ∀ raw ∈ store, (readBlob P kAnchor kIndex raw).isSome = true
  chains : ∀ key, chainFrom initialAnchorSeq none (chainOf P kAnchor kIndex key store) = true
  together : ∀ key, ∀ a ∈ chainOf P kAnchor kIndex key store,
    ∀ b ∈ chainOf P kAnchor kIndex key store, a.sessionId = b.sessionId ∧ a.role = b.role
  apart : (store.map blobIdentity).Nodup

theorem anchorsOk_nil : AnchorsOk P kAnchor kIndex [] where
  readable := by simp
  chains := fun _ => rfl
  together := by simp [chainOf, blobsOf]
  apart := by simp

/-- An appended candidate continues the chain of its record. -/
theorem decideAppend_appended {raw : Bytes} {candidate : Rvfa1} {seen : SeenBlobs}
    {chain : List Rvfa1} (hchain : chainFrom initialAnchorSeq none chain = true)
    (h : decideAppend raw candidate seen chain = .appended) :
    seen.get? (candidate.recordKey, candidate.anchorSeq) = none ∧
      chainFrom initialAnchorSeq none (chain ++ [candidate]) = true := by
  unfold decideAppend at h
  split at h
  · cases h
  split at h
  · split at h <;> cases h
  rename_i hunseen
  refine ⟨hunseen, ?_⟩
  rw [chainFrom_append, hchain]
  simp only [chainFrom, Bool.true_and, Bool.and_true, Bool.and_eq_true, decide_eq_true_eq]
  split at h
  · split at h
    · cases h
    rename_i hseq
    split at h
    · cases h
    rename_i hstatus
    refine ⟨?_, by simpa [lastStatus] using hstatus⟩
    have hfirst := not_not.mp hseq
    simpa using hfirst
  · rename_i item rest
    obtain ⟨hlast, hhighest⟩ := firstMax_chain hchain
    simp only at h
    split at h
    · cases h
    split at h
    · cases h
    rename_i hseq
    split at h
    · cases h
    rename_i hstatus
    have hnext := not_not.mp hseq
    refine ⟨?_, ?_⟩
    · rw [hnext, hhighest, List.length_cons]
      omega
    · simpa [lastStatus, hlast] using hstatus

theorem chainOf_concat_same {key raw : Bytes} {item : Rvfa1} {store : List Bytes}
    (hread : readBlob P kAnchor kIndex raw = some item) (hkey : item.recordKey = key) :
    chainOf P kAnchor kIndex key (store ++ [raw]) = chainOf P kAnchor kIndex key store ++ [item] := by
  have hlast : blobsOf P kAnchor kIndex key [raw] = [(raw, item)] := blobsOf_cons_same hread hkey
  unfold chainOf blobsOf at *
  rw [List.filterMap_append, hlast, List.map_append]
  rfl

theorem chainOf_concat_other {key raw : Bytes} {item : Rvfa1} {store : List Bytes}
    (hread : readBlob P kAnchor kIndex raw = some item) (hkey : item.recordKey ≠ key) :
    chainOf P kAnchor kIndex key (store ++ [raw]) = chainOf P kAnchor kIndex key store := by
  have hlast : blobsOf P kAnchor kIndex key [raw] = [] := blobsOf_cons_other hread hkey
  unfold chainOf blobsOf at *
  rw [List.filterMap_append, hlast, List.map_append]
  simp

theorem classifyAppend_readable {store : List Bytes} {raw : Bytes} {decision : AppendDecision}
    (h : classifyAppend P store raw kAnchor kIndex = decision) (hnot : decision ≠ .corrupt) :
    ∃ candidate, readBlob P kAnchor kIndex raw = some candidate := by
  cases hread : readBlob P kAnchor kIndex raw with
  | none =>
    simp only [classifyAppend, hread] at h
    exact absurd h.symm hnot
  | some candidate => exact ⟨candidate, rfl⟩

theorem anchorsOk_append {store : List Bytes} {raw : Bytes} (h : AnchorsOk P kAnchor kIndex store)
    (happend : classifyAppend P store raw kAnchor kIndex = .appended) :
    AnchorsOk P kAnchor kIndex (store ++ [raw]) := by
  obtain ⟨candidate, hread⟩ := classifyAppend_readable happend (by simp)
  rcases classifyAppend_eq store hread with ⟨-, hcorrupt⟩ | ⟨hscan, seen, hseen, hdecide⟩
  · rw [hcorrupt] at happend
    cases happend
  rw [hdecide] at happend
  obtain ⟨hunseen, hchain⟩ := decideAppend_appended (h.chains candidate.recordKey) happend
  refine ⟨?_, ?_, ?_, ?_⟩
  · intro blob hblob
    rcases List.mem_append.mp hblob with hold | hlast
    · exact h.readable blob hold
    · rw [List.mem_singleton.mp hlast, hread]
      rfl
  · intro key
    by_cases hkey : candidate.recordKey = key
    · rw [chainOf_concat_same hread hkey, ← hkey]
      exact hchain
    · rw [chainOf_concat_other hread hkey]
      exact h.chains key
  · intro key a ha b hb
    by_cases hkey : candidate.recordKey = key
    · have hjoins : ∀ item ∈ chainOf P kAnchor kIndex key (store ++ [raw]),
          item.sessionId = candidate.sessionId ∧ item.role = candidate.role := by
        intro item hitem
        rw [chainOf_concat_same hread hkey] at hitem
        rcases List.mem_append.mp hitem with hold | hlast
        · exact hscan.agree item (hkey ▸ hold)
        · rw [List.mem_singleton.mp hlast]
          exact ⟨rfl, rfl⟩
      obtain ⟨hsession, hrole⟩ := hjoins a ha
      obtain ⟨hsession', hrole'⟩ := hjoins b hb
      exact ⟨hsession.trans hsession'.symm, hrole.trans hrole'.symm⟩
    · rw [chainOf_concat_other hread hkey] at ha hb
      exact h.together key a ha b hb
  · rw [List.map_append, List.map_singleton]
    refine List.nodup_append.mpr ⟨h.apart, List.nodup_singleton _, ?_⟩
    rintro identity hidentity other hother rfl
    obtain ⟨blob, hblob, heq⟩ := List.mem_map.mp hidentity
    obtain ⟨item, hitem⟩ := Option.isSome_iff_exists.mp (h.readable blob hblob)
    -- a stored blob for the candidate's record and number would have been seen
    have hsame : (item.recordKey, item.anchorSeq) = (candidate.recordKey, candidate.anchorSeq) := by
      rw [← readBlob_identity hitem, ← readBlob_identity hread, heq]
      exact List.mem_singleton.mp hother
    have hmem : (blob, item) ∈ blobsOf P kAnchor kIndex candidate.recordKey store :=
      mem_blobsOf.mpr ⟨hblob, hitem, (Prod.mk.inj hsame).1⟩
    have hget := (hseen.holds _ blob).mpr ⟨(blob, item), hmem, rfl, hsame⟩
    rw [hunseen] at hget
    cases hget

/-- What is said of a candidate for a record and number that a stored blob has. -/
theorem classifyAppend_stored {store : List Bytes} {blob raw : Bytes}
    (h : AnchorsOk P kAnchor kIndex store) (hblob : blob ∈ store)
    (hidentity : blobIdentity raw = blobIdentity blob) :
    classifyAppend P store raw kAnchor kIndex = .corrupt ∨
      (blob = raw ∧ classifyAppend P store raw kAnchor kIndex = .exactReplay) := by
  cases hread : readBlob P kAnchor kIndex raw with
  | none =>
    left
    simp only [classifyAppend, hread]
  | some candidate =>
    rcases classifyAppend_eq store hread with ⟨-, hcorrupt⟩ | ⟨-, seen, hseen, hdecide⟩
    · exact Or.inl hcorrupt
    obtain ⟨item, hitem⟩ := Option.isSome_iff_exists.mp (h.readable blob hblob)
    have hsame : (item.recordKey, item.anchorSeq) = (candidate.recordKey, candidate.anchorSeq) := by
      rw [← readBlob_identity hitem, ← readBlob_identity hread, hidentity]
    have hmem : (blob, item) ∈ blobsOf P kAnchor kIndex candidate.recordKey store :=
      mem_blobsOf.mpr ⟨hblob, hitem, (Prod.mk.inj hsame).1⟩
    have hget := (hseen.holds _ blob).mpr ⟨(blob, item), hmem, rfl, hsame⟩
    rw [hdecide]
    unfold decideAppend
    rw [establishedChainOk_of_chain (h.chains candidate.recordKey), hget]
    simp only [Bool.true_eq_false, if_false]
    by_cases heq : blob = raw
    · exact Or.inr ⟨heq, if_pos heq⟩
    · exact Or.inl (if_neg heq)

theorem classifyAppend_replay {store : List Bytes} {raw : Bytes}
    (h : AnchorsOk P kAnchor kIndex store) (hraw : raw ∈ store) :
    classifyAppend P store raw kAnchor kIndex = .exactReplay := by
  obtain ⟨item, hread⟩ := Option.isSome_iff_exists.mp (h.readable raw hraw)
  have hscan : Scannable P kAnchor kIndex item store := by
    have hown : item ∈ chainOf P kAnchor kIndex item.recordKey store :=
      List.mem_map.mpr ⟨(raw, item), mem_blobsOf.mpr ⟨hraw, hread, rfl⟩, rfl⟩
    refine ⟨h.readable, ?_, chainFrom_nodup (h.chains item.recordKey)⟩
    intro other hother
    exact h.together item.recordKey other hother item hown
  rcases classifyAppend_eq store hread with ⟨hno, -⟩ | ⟨-, seen, hseen, hdecide⟩
  · exact absurd hscan hno
  have hmem : (raw, item) ∈ blobsOf P kAnchor kIndex item.recordKey store :=
    mem_blobsOf.mpr ⟨hraw, hread, rfl⟩
  have hget := (hseen.holds _ raw).mpr ⟨(raw, item), hmem, rfl, rfl⟩
  rw [hdecide]
  unfold decideAppend
  rw [establishedChainOk_of_chain (h.chains item.recordKey), hget]
  simp only [Bool.true_eq_false, if_false, if_true]

/-! ## Runs -/

/-- A blob is offered and added exactly if it is to be appended. -/
def anchorMachine (P : Platform) (kAnchor kIndex : Bytes) : Machine (List Bytes) Bytes :=
  fun store raw => some (if classifyAppend P store raw kAnchor kIndex = .appended then store ++ [raw]
    else store)

theorem anchorsOk_step {store store' : List Bytes} {raw : Bytes} (h : AnchorsOk P kAnchor kIndex store)
    (hstep : anchorMachine P kAnchor kIndex store raw = some store') :
    AnchorsOk P kAnchor kIndex store' := by
  obtain rfl := Option.some.inj hstep
  split
  · rename_i happend
    exact anchorsOk_append h happend
  · exact h

theorem anchorsOk_run {offers store : List Bytes}
    (hrun : (anchorMachine P kAnchor kIndex).run [] offers = some store) :
    AnchorsOk P kAnchor kIndex store :=
  Machine.invariant anchorsOk_step anchorsOk_nil hrun

theorem append_safety {offers store : List Bytes}
    (hrun : (anchorMachine P kAnchor kIndex).run [] offers = some store) :
    (∀ key,
      (chainOf P kAnchor kIndex key store).map Rvfa1.anchorSeq =
        (List.range (chainOf P kAnchor kIndex key store).length).map (fun i : Nat => 1 + (i : Int)) ∧
      (∀ a ∈ chainOf P kAnchor kIndex key store, ∀ b ∈ chainOf P kAnchor kIndex key store,
        a.sessionId = b.sessionId ∧ a.role = b.role) ∧
      ∃ heads tail, (chainOf P kAnchor kIndex key store).map Rvfa1.status =
          List.replicate heads .head ++ tail ∧
        tail ∈ [[], [.deleting], [.deleting, .tombstone]] ∧ (heads = 0 → tail = [])) ∧
    (∀ raw ∈ store, (readBlob P kAnchor kIndex raw).isSome = true) ∧
    (store.map blobIdentity).Nodup ∧
    (∀ raw ∈ store, classifyAppend P store raw kAnchor kIndex = .exactReplay) ∧
    (∀ blob ∈ store, ∀ raw, blobIdentity raw = blobIdentity blob → raw ≠ blob →
      classifyAppend P store raw kAnchor kIndex = .corrupt) ∧
    (∀ existing existing' : List Bytes, existing.Perm existing' → ∀ raw,
      classifyAppend P existing raw kAnchor kIndex = classifyAppend P existing' raw kAnchor kIndex) := by
  have h := anchorsOk_run hrun
  refine ⟨?_, h.readable, h.apart, ?_, ?_, ?_⟩
  · intro key
    refine ⟨chainFrom_seqs (h.chains key), h.together key, ?_⟩
    obtain ⟨heads, tail, hmap, htail, hfirst, -⟩ := chainFrom_statuses (h.chains key)
    exact ⟨heads, tail, hmap, htail, hfirst rfl⟩
  · intro raw hraw
    exact classifyAppend_replay h hraw
  · intro blob hblob raw hidentity hne
    rcases classifyAppend_stored h hblob hidentity with hcorrupt | ⟨heq, -⟩
    · exact hcorrupt
    · exact absurd heq.symm hne
  · intro existing existing' hperm raw
    exact classifyAppend_perm hperm raw

section Sample

def anchorPlatform : Platform := Platform.ofTable []

def anchorSample (anchorSeq : Int) (transitionId : Bytes) : Rvfa1 where
  status := .head
  role := 0
  recordKey := hmacSha256 anchorPlatform (List.replicate 32 2) (recordDomain ++ List.replicate 32 3)
  sessionId := List.replicate 32 3
  anchorSeq
  generation := 0
  clearedStateDigest := zero32
  clearedStoreRevision := 0
  transitionId
  horizonMs := 0
  hmac := []

def anchorBlob (anchorSeq : Int) (transitionId : Bytes) : Bytes :=
  (encodeRvfa1 anchorPlatform (anchorSample anchorSeq transitionId) (List.replicate 32 1)).toOption.getD []

def anchorBlobs : List Bytes := [anchorBlob 1 zero32, anchorBlob 2 (List.replicate 32 5)]

theorem append_safety_sample :
    (anchorMachine anchorPlatform (List.replicate 32 1) (List.replicate 32 2)).run []
      (anchorBlobs ++ anchorBlobs) = some anchorBlobs ∧
    (∀ raw ∈ anchorBlobs, classifyAppend anchorPlatform anchorBlobs raw (List.replicate 32 1)
      (List.replicate 32 2) = .exactReplay) ∧
    classifyAppend anchorPlatform anchorBlobs (anchorBlob 2 (List.replicate 32 6))
      (List.replicate 32 1) (List.replicate 32 2) = .corrupt := by
  have hrun : (anchorMachine anchorPlatform (List.replicate 32 1) (List.replicate 32 2)).run []
      (anchorBlobs ++ anchorBlobs) = some anchorBlobs := by
    decide +kernel
  obtain ⟨-, -, -, hreplay, hdiffers, -⟩ := append_safety hrun
  refine ⟨hrun, hreplay, ?_⟩
  apply hdiffers (anchorBlob 2 (List.replicate 32 5)) (by simp [anchorBlobs])
  · decide +kernel
  · decide +kernel

end Sample

end Rdap.Braid
