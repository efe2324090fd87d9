import Rdap.Revocation.Denial
import Rdap.Lib.Sorting
import Mathlib.Data.List.Find

/-!
# Convergence of revocation stores

Whatever the order of valid claims, a store ends up with the same claims in some order and
the same targets in some order. The snapshot sorts both away, and it can be read back up to
the one byte that is kept of a reason code.
-/

set_option autoImplicit false

namespace Rdap.Revocation
open Python Protocol Lib

variable {P : Platform}

instance claimOrder_total : Std.Total (claimOrder P) := ⟨fun _ _ => List.le_total _ _⟩

instance claimOrder_trans : IsTrans Bytes (claimOrder P) := ⟨fun _ _ _ hab hbc => List.le_trans hab hbc⟩

/-! ## Applying claims -/

variable (P) in
/-- `apply_verified_claim` for each of the records in turn. -/
def applyAll (store : ConformanceStore) (pub : Bytes) (wires : List Bytes) : ConformanceStore :=
  wires.foldl (fun store wire => (applyVerifiedClaim P store wire pub false).2) store

variable (P) in
/-- The records are valid claims of the identity. -/
def ValidClaims (address : PyStr) (pub : Bytes) (wires : List Bytes) : Prop :=
  ∀ wire ∈ wires, ∃ rec, decode P wire = .ok rec ∧ rec.identityAddress = address ∧
    verify P rec pub = true

variable (P) in
/-- Some target of one of the claims has the kind and the value. -/
def ClaimTarget (wires : List Bytes) (kind : TargetKind) (value : Bytes) : Prop :=
  ∃ wire ∈ wires, ∃ rec, decode P wire = .ok rec ∧
    ∃ t ∈ lineageTargets rec (claimDigest P wire), t.kind = kind ∧ t.value = value

variable (P) in
/-- A store that holds exactly the claims of the list. -/
structure HoldsExactly (store : ConformanceStore) (address : PyStr) (wires : List Bytes) : Prop where
  address_eq : store.identityAddress = address
  claims : ∀ cd wire, store.claims.get? cd = some wire ↔ wire ∈ wires ∧ cd = claimDigest P wire
  generation : store.generation = store.claims.count
  exhausted : store.exhausted = []
  corrupt : store.corrupt = []
  journal : store.journal = none
  revoked : ∀ kind value, (∃ u ∈ store.revoked, u.kind = kind ∧ u.value = value) ↔
    ClaimTarget P wires kind value

theorem holdsExactly_empty (address : PyStr) (maxClaims : Int) :
    HoldsExactly P (emptyStore address maxClaims) address [] where
  address_eq := rfl
  claims := by
    intro cd wire
    simp [emptyStore]
  generation := rfl
  exhausted := rfl
  corrupt := rfl
  journal := rfl
  revoked := by
    intro kind value
    simp [emptyStore, ClaimTarget]

theorem mem_foldl_appendTarget {ts revoked : List RevokedTarget} {u : RevokedTarget}
    (h : u ∈ ts.foldl appendTarget revoked) : u ∈ revoked ∨ u ∈ ts := by
  induction ts generalizing revoked with
  | nil => exact Or.inl h
  | cons t ts ih =>
    rcases ih h with hin | hin
    · unfold appendTarget at hin
      split at hin
      · exact Or.inl hin
      · rcases List.mem_append.mp hin with hold | hnew
        · exact Or.inl hold
        · obtain rfl := List.mem_singleton.mp hnew
          exact Or.inr List.mem_cons_self
    · exact Or.inr (List.mem_cons_of_mem t hin)

/-- The values of the table are the claims, each once. -/
theorem HoldsExactly.values {store : ConformanceStore} {address : PyStr} {wires : List Bytes}
    (h : HoldsExactly P store address wires) :
    (store.claims.rows.map Prod.snd).Nodup ∧
      ∀ wire, wire ∈ store.claims.rows.map Prod.snd ↔ wire ∈ wires := by
  have hkey : ∀ row ∈ store.claims.rows, row.1 = claimDigest P row.2 := by
    intro row hrow
    exact ((h.claims row.1 row.2).mp ((store.claims.get?_eq_some).mpr hrow)).2
  refine ⟨?_, ?_⟩
  · have hkeys := store.claims.nodup
    have hmap : store.claims.rows.map Prod.fst =
        (store.claims.rows.map Prod.snd).map (claimDigest P) := by
      rw [List.map_map]
      exact List.map_congr_left hkey
    rw [hmap] at hkeys
    exact hkeys.of_map _
  · intro wire
    constructor
    · intro hmem
      obtain ⟨row, hrow, rfl⟩ := List.mem_map.mp hmem
      exact ((h.claims row.1 row.2).mp ((store.claims.get?_eq_some).mpr hrow)).1
    · intro hmem
      have hstored := (h.claims (claimDigest P wire) wire).mpr ⟨hmem, rfl⟩
      exact List.mem_map.mpr ⟨_, (store.claims.get?_eq_some).mp hstored, rfl⟩

theorem holdsExactly_insert {store : ConformanceStore} {address : PyStr} {wires : List Bytes}
    (h : HoldsExactly P store address wires) {wire : Bytes} {rec : DeviceRevocation}
    (hdecode : decode P wire = .ok rec) (habsent : store.claims.contains (claimDigest P wire) = false) :
    HoldsExactly P (insertClaim store wire rec (claimDigest P wire) false) address
      (wires ++ [wire]) where
  address_eq := by simpa using h.address_eq
  claims := by
    intro cd other
    rw [insertClaim_claims, KeyedTable.get?_set]
    split
    · rename_i hcd
      subst hcd
      constructor
      · intro hsome
        obtain rfl := Option.some.inj hsome
        exact ⟨by simp, rfl⟩
      · rintro ⟨hmem, hdigest⟩
        rcases List.mem_append.mp hmem with hold | hnew
        · have hstored := (h.claims _ other).mpr ⟨hold, hdigest⟩
          simp [KeyedTable.contains, hstored] at habsent
        · rw [List.mem_singleton.mp hnew]
    · rename_i hcd
      rw [h.claims cd other, List.mem_append, List.mem_singleton]
      constructor
      · rintro ⟨hmem, hdigest⟩
        exact ⟨Or.inl hmem, hdigest⟩
      · rintro ⟨hmem | rfl, hdigest⟩
        · exact ⟨hmem, hdigest⟩
        · exact absurd hdigest hcd
  generation := by
    rw [insertClaim_generation, insertClaim_claims, h.generation]
    simp [KeyedTable.count, KeyedTable.set, habsent]
  exhausted := by
    rw [insertClaim_exhausted, h.exhausted]
    rfl
  corrupt := by simpa using h.corrupt
  journal := by simp [h.journal]
  revoked := by
    intro kind value
    rw [insertClaim_revoked]
    constructor
    · rintro ⟨u, hu, hkind, hvalue⟩
      rcases mem_foldl_appendTarget hu with hold | hnew
      · obtain ⟨w, hw, r, hr, t, ht, htarget⟩ := (h.revoked kind value).mp ⟨u, hold, hkind, hvalue⟩
        exact ⟨w, List.mem_append_left _ hw, r, hr, t, ht, htarget⟩
      · exact ⟨wire, by simp, rec, hdecode, u, hnew, hkind, hvalue⟩
    · rintro ⟨w, hw, r, hr, t, ht, rfl, rfl⟩
      rcases List.mem_append.mp hw with hold | hnew
      · obtain ⟨u, hu, htarget⟩ := (h.revoked t.kind t.value).mpr ⟨w, hold, r, hr, t, ht, rfl, rfl⟩
        exact ⟨u, subset_foldl_appendTarget _ _ hu, htarget⟩
      · obtain rfl := List.mem_singleton.mp hnew
        rw [hdecode] at hr
        obtain rfl := Except.ok.inj hr
        exact foldl_appendTarget_covers store.revoked ht

theorem HoldsExactly.congr {store : ConformanceStore} {address : PyStr} {wires others : List Bytes}
    (h : HoldsExactly P store address wires) (hsame : ∀ wire, wire ∈ wires ↔ wire ∈ others) :
    HoldsExactly P store address others where
  address_eq := h.address_eq
  claims := by
    intro cd wire
    rw [h.claims, hsame]
  generation := h.generation
  exhausted := h.exhausted
  corrupt := h.corrupt
  journal := h.journal
  revoked := by
    intro kind value
    rw [h.revoked]
    unfold ClaimTarget
    simp only [hsame]

/-- One valid claim is stored or already there. -/
theorem holdsExactly_apply {store : ConformanceStore} {address : PyStr} {wires : List Bytes}
    (h : HoldsExactly P store address wires) {wire pub : Bytes} {rec : DeviceRevocation}
    (hdecode : decode P wire = .ok rec) (haddress : rec.identityAddress = address)
    (hverify : verify P rec pub = true)
    (hfree : ∀ other ∈ wires, P.sha256 other = P.sha256 wire → other = wire)
    (hroom : wire ∉ wires → (store.claims.count : Int) < store.maxClaims) :
    HoldsExactly P (applyVerifiedClaim P store wire pub false).2 address (wires ++ [wire]) ∧
      (applyVerifiedClaim P store wire pub false).2.maxClaims = store.maxClaims := by
  have hadmitted : admitClaim P store wire pub = .ok rec := by
    have haddr : rec.identityAddress = store.identityAddress := haddress.trans h.address_eq.symm
    unfold admitClaim
    rw [hdecode]
    simp only [bind, Except.bind, orRaise_pos haddr, orRaise_pos hverify]
    rfl
  have hjournal : checkJournal store wire (claimDigest P wire) false = .ok () := by
    simp [checkJournal, h.journal]
  unfold applyVerifiedClaim
  simp only [hadmitted, hjournal]
  by_cases hstored : store.claims.contains (claimDigest P wire) = true
  · rw [if_pos hstored]
    obtain ⟨other, hother⟩ := Option.isSome_iff_exists.mp hstored
    obtain ⟨hmem, hdigest⟩ := (h.claims _ other).mp hother
    obtain rfl := hfree other hmem hdigest.symm
    refine ⟨h.congr ?_, rfl⟩
    intro w
    simp only [List.mem_append, List.mem_singleton]
    constructor
    · exact Or.inl
    · rintro (hw | rfl)
      · exact hw
      · exact hmem
  · have habsent : store.claims.contains (claimDigest P wire) = false := by simpa using hstored
    have hnew : wire ∉ wires := by
      intro hmem
      have hthere := (h.claims _ wire).mpr ⟨hmem, rfl⟩
      simp [KeyedTable.contains, hthere] at habsent
    rw [if_neg hstored, if_neg (not_not.mpr h.corrupt), if_neg (not_le.mpr (hroom hnew))]
    exact ⟨holdsExactly_insert h hdecode habsent, insertClaim_maxClaims _ _ _ _ _⟩

/-- The induction is on the claims still to come. -/
theorem holdsExactly_applyAll {address : PyStr} {pub : Bytes} {todo : List Bytes} :
    ∀ {store : ConformanceStore} {seen : List Bytes}, HoldsExactly P store address seen →
      ValidClaims P address pub todo → CollisionFree P (seen ++ todo) →
      (((seen ++ todo).dedup.length : Nat) : Int) ≤ store.maxClaims →
      HoldsExactly P (applyAll P store pub todo) address (seen ++ todo) := by
  induction todo with
  | nil =>
    intro store seen h _ _ _
    simpa [applyAll] using h
  | cons wire todo ih =>
    intro store seen h hvalid hfree hquota
    obtain ⟨rec, hdecode, haddress, hverify⟩ := hvalid wire List.mem_cons_self
    have hroom : wire ∉ seen → (store.claims.count : Int) < store.maxClaims := by
      intro hnew
      obtain ⟨hnodup, hvalues⟩ := h.values
      have hfresh : (wire :: store.claims.rows.map Prod.snd).Nodup :=
        List.nodup_cons.mpr ⟨fun hmem => hnew ((hvalues wire).mp hmem), hnodup⟩
      have hsubset : wire :: store.claims.rows.map Prod.snd ⊆ (seen ++ wire :: todo).dedup := by
        intro w hw
        rw [List.mem_dedup]
        rcases List.mem_cons.mp hw with rfl | hw
        · simp
        · exact List.mem_append_left _ ((hvalues w).mp hw)
      have hlength := (List.subperm_of_subset hfresh hsubset).length_le
      simp only [List.length_cons, List.length_map] at hlength
      simp only [KeyedTable.count]
      omega
    have hstep := holdsExactly_apply h hdecode haddress hverify
      (fun other hother => hfree other (by simp [hother]) wire (by simp)) hroom
    have hassoc : seen ++ wire :: todo = (seen ++ [wire]) ++ todo := by simp
    rw [hassoc] at hfree hquota ⊢
    apply ih hstep.1 (fun w hw => hvalid w (List.mem_cons_of_mem wire hw)) hfree
    rw [hstep.2]
    exact hquota

/-- Two stores that hold the same claims cannot be told apart. -/
theorem same_of_holdsExactly {a b : ConformanceStore} {address : PyStr} {wires : List Bytes}
    (ha : HoldsExactly P a address wires) (hb : HoldsExactly P b address wires)
    (hfree : CollisionFree P wires) : a.storeHash P = b.storeHash P ∧
      ∀ device surface, authorizeDevice a device surface = authorizeDevice b device surface := by
  obtain ⟨hanodup, hamem⟩ := ha.values
  obtain ⟨hbnodup, hbmem⟩ := hb.values
  have hperm : (a.claims.rows.map Prod.snd).Perm (b.claims.rows.map Prod.snd) := by
    apply (List.perm_ext_iff_of_nodup hanodup hbnodup).mpr
    intro wire
    rw [hamem, hbmem]
  have hcount : a.claims.count = b.claims.count := by
    simpa [KeyedTable.count] using hperm.length_eq
  have hsorted : (a.claims.rows.map Prod.snd).insertionSort (claimOrder P) =
      (b.claims.rows.map Prod.snd).insertionSort (claimOrder P) := by
    apply insertionSort_eq_of_perm hperm
    intro x hx y hy hxy hyx
    exact hfree x ((hamem x).mp hx) y ((hamem y).mp hy) (List.le_antisymm hxy hyx)
  refine ⟨?_, ?_⟩
  · unfold ConformanceStore.storeHash revocationStoreHash canonicalStoreSnapshot
    rw [ha.generation, hb.generation, hcount, hsorted, ha.exhausted, hb.exhausted, ha.corrupt,
      hb.corrupt]
  · intro device surface
    have hrevoked : ∀ check, isRevoked a.revoked check = isRevoked b.revoked check := by
      rintro ⟨kind, value⟩
      cases value with
      | none => rfl
      | some value =>
        have htargets := (ha.revoked kind value).trans (hb.revoked kind value).symm
        have hany : ∀ revoked : List RevokedTarget, isRevoked revoked (kind, some value) = true ↔
            ∃ u ∈ revoked, u.kind = kind ∧ u.value = value := by
          intro revoked
          simp [isRevoked, List.any_eq_true]
        exact Bool.eq_iff_iff.mpr ((hany _).trans (htargets.trans (hany _).symm))
    unfold authorizeDevice
    simp only [ha.exhausted, hb.exhausted, ha.corrupt, hb.corrupt, List.any_nil, ne_eq,
      not_true_eq_false, if_false, Bool.false_eq_true]
    rw [List.find?_congr fun check _ => hrevoked check]

/-! ## Reading a snapshot back -/

/-- A field determines what it was made from, up to a key, and what follows it. -/
def Readable {α κ : Type} (D : α → Prop) (key : α → κ) (field : α → Except PyExc Bytes) : Prop :=
  ∀ {x y : α} {b c r s : Bytes}, D x → D y → field x = .ok b → field y = .ok c → b ++ r = c ++ s →
    key x = key y ∧ r = s

theorem toBytes4_ok {n : Nat} {b : Bytes} (h : toBytes4 n = .ok b) :
    n < 256 ^ 4 ∧ b = bigEndian 4 n := by
  unfold toBytes4 at h
  split at h
  · rename_i hn
    exact ⟨hn, (Except.ok.inj h).symm⟩
  · cases h

/-- A counted number is read first. -/
theorem toBytes4_readable {n m : Nat} {b c r s : Bytes} (hb : toBytes4 n = .ok b)
    (hc : toBytes4 m = .ok c) (h : b ++ r = c ++ s) : n = m ∧ r = s := by
  obtain ⟨hn, rfl⟩ := toBytes4_ok hb
  obtain ⟨hm, rfl⟩ := toBytes4_ok hc
  obtain ⟨hhead, hrest⟩ := List.append_inj h (by simp)
  exact ⟨bigEndian_injective hn hm hhead, hrest⟩

/-- Bytes of a counted size. -/
theorem sized_readable {x y b c r s : Bytes} (hb : toBytes4 x.length = .ok b)
    (hc : toBytes4 y.length = .ok c) (h : b ++ (x ++ r) = c ++ (y ++ s)) : x = y ∧ r = s := by
  obtain ⟨hlen, hrest⟩ := toBytes4_readable hb hc h
  exact List.append_inj hrest hlen

theorem lp_readable {x y b c r s : Bytes} (hb : lp x = .ok b) (hc : lp y = .ok c)
    (h : b ++ r = c ++ s) : x = y ∧ r = s := by
  obtain ⟨hx, rfl⟩ := lp_ok hb
  obtain ⟨hy, rfl⟩ := lp_ok hc
  exact frame_selfDelimiting 2 hx hy h

theorem fields_readable {α κ : Type} {D : α → Prop} {key : α → κ} {field : α → Except PyExc Bytes}
    (hfield : Readable D key field) {xs : List α} : ∀ {ys : List α} {bs cs : List Bytes} {r s : Bytes},
      (∀ x ∈ xs, D x) → (∀ y ∈ ys, D y) → xs.length = ys.length → xs.mapM field = .ok bs →
      ys.mapM field = .ok cs → bs.flatten ++ r = cs.flatten ++ s →
      xs.map key = ys.map key ∧ r = s := by
  induction xs with
  | nil =>
    intro ys bs cs r s _ _ hlen hbs hcs h
    obtain rfl := List.length_eq_zero_iff.mp hlen.symm
    rw [List.mapM_nil, pure_ok] at hbs hcs
    subst hbs hcs
    exact ⟨rfl, by simpa using h⟩
  | cons x xs ih =>
    intro ys bs cs r s hxs hys hlen hbs hcs h
    cases ys with
    | nil => cases hlen
    | cons y ys =>
      rw [List.mapM_cons] at hbs hcs
      simp only [bind_ok, pure_ok] at hbs hcs
      obtain ⟨b, hb, bs, hbs, rfl⟩ := hbs
      obtain ⟨c, hc, cs, hcs, rfl⟩ := hcs
      simp only [List.flatten_cons, List.append_assoc] at h
      obtain ⟨hkey, hrest⟩ := hfield (hxs x List.mem_cons_self) (hys y List.mem_cons_self) hb hc h
      obtain ⟨hkeys, hend⟩ := ih (fun a ha => hxs a (List.mem_cons_of_mem x ha))
        (fun a ha => hys a (List.mem_cons_of_mem y ha)) (by simpa using hlen) hbs hcs hrest
      exact ⟨by simp [hkey, hkeys], hend⟩

theorem countedRecords_readable {α κ : Type} {D : α → Prop} {key : α → κ}
    {field : α → Except PyExc Bytes} (hfield : Readable D key field) {xs ys : List α} {b c r s : Bytes}
    (hxs : ∀ x ∈ xs, D x) (hys : ∀ y ∈ ys, D y) (hb : countedRecords field xs = .ok b)
    (hc : countedRecords field ys = .ok c) (h : b ++ r = c ++ s) :
    xs.map key = ys.map key ∧ r = s := by
  unfold countedRecords at hb hc
  simp only [bind_ok, pure_ok] at hb hc
  obtain ⟨count, hcount, bs, hbs, rfl⟩ := hb
  obtain ⟨count', hcount', cs, hcs, rfl⟩ := hc
  rw [List.append_assoc, List.append_assoc] at h
  obtain ⟨hlen, hrest⟩ := toBytes4_readable hcount hcount' h
  exact fields_readable hfield hxs hys hlen hbs hcs hrest

theorem claimField_readable : Readable (fun _ => True) id (claimField P) := by
  intro x y b c r s _ _ hb hc h
  unfold claimField at hb hc
  simp only [bind_ok, pure_ok] at hb hc
  obtain ⟨_, _, size, hsize, rfl⟩ := hb
  obtain ⟨_, _, size', hsize', rfl⟩ := hc
  simp only [List.append_assoc] at h
  have hwidth : (claimDigest P x).length = (claimDigest P y).length := by
    unfold claimDigest
    rw [P.sha256_length, P.sha256_length]
  obtain ⟨_, hrest⟩ := List.append_inj h hwidth
  exact sized_readable hsize hsize' hrest

theorem exhaustedField_readable : Readable
    (fun entry => encodeAscii entry.2.identityAddress = .ok entry.1) id (exhaustedField P) := by
  intro x y b c r s hx hy hb hc h
  unfold exhaustedField at hb hc
  simp only [bind_ok, pure_ok, orRaise_ok] at hb hc
  obtain ⟨_, hdigest, _, _, addr, haddr, size, hsize, rfl⟩ := hb
  obtain ⟨_, hdigest', _, _, addr', haddr', size', hsize', rfl⟩ := hc
  simp only [List.append_assoc] at h
  obtain ⟨hkey, hrest⟩ := lp_readable haddr haddr' h
  obtain ⟨hcd, hrest⟩ := List.append_inj hrest (hdigest.trans hdigest'.symm)
  obtain ⟨hbytes, hend⟩ := sized_readable hsize hsize' hrest
  refine ⟨?_, hend⟩
  obtain ⟨key, marker⟩ := x
  obtain ⟨key', marker'⟩ := y
  simp only at hkey hcd hbytes hx hy
  subst hkey
  have haddress := encodeAscii_injective hx hy
  cases marker
  cases marker'
  simp_all

theorem corruptField_readable : Readable (fun entry => encodeUtf8 entry.2.scope = .ok entry.1)
    (fun entry => (entry.2.scope, entry.2.reasonCode % 256)) corruptField := by
  intro x y b c r s hx hy hb hc h
  unfold corruptField at hb hc
  simp only [bind_ok, pure_ok] at hb hc
  obtain ⟨_, _, scope, hscope, rfl⟩ := hb
  obtain ⟨_, _, scope', hscope', rfl⟩ := hc
  simp only [List.append_assoc] at h
  obtain ⟨hkey, hrest⟩ := lp_readable hscope hscope' h
  obtain ⟨hcode, hend⟩ := List.cons.inj hrest
  refine ⟨?_, hend⟩
  rw [hkey] at hx
  have hsame := encodeUtf8_injective hx hy
  have hbyte := congrArg UInt8.toNat hcode
  simp only [UInt8.toNat_ofNat'] at hbyte
  have hcodes : x.2.reasonCode % 256 = y.2.reasonCode % 256 := by omega
  simp [hsame, hcodes]

/-- The markers in the order of their scopes. -/
def corruptSorted (corrupt : List CorruptMarker) : Except PyExc (List CorruptMarker) :=
  (corruptKeys corrupt).map fun keyed => (keyed.insertionSort corruptOrder).map Prod.snd

theorem keys_ok {α : Type} {encode : α → Except PyExc Bytes} {xs : List α} {keyed : List (Bytes × α)}
    (h : (xs.mapM fun x => (encode x).map fun key => (key, x)) = .ok keyed) :
    keyed.map Prod.snd = xs ∧ ∀ entry ∈ keyed, encode entry.2 = .ok entry.1 := by
  have hall := mapM_ok.mp h
  clear h
  induction hall with
  | nil => exact ⟨rfl, by simp⟩
  | @cons x entry xs keyed hhead hrest ih =>
    cases hx : encode x with
    | error e => simp [hx, Except.map] at hhead
    | ok key =>
      simp only [hx, Except.map, Except.ok.injEq] at hhead
      subst hhead
      refine ⟨by rw [List.map_cons, ih.1], ?_⟩
      intro e he
      rcases List.mem_cons.mp he with rfl | he
      · exact hx
      · exact ih.2 e he

/-- What a snapshot says: all of the store but the high bits of the reason codes. -/
theorem snapshot_readable {generation generation' : Int} {claims claims' : List Bytes}
    {exhausted exhausted' : List ExhaustedMarker} {corrupt corrupt' : List CorruptMarker} {b : Bytes}
    (h : canonicalStoreSnapshot P generation claims exhausted corrupt = .ok b)
    (h' : canonicalStoreSnapshot P generation' claims' exhausted' corrupt' = .ok b) :
    generation = generation' ∧ claims.Perm claims' ∧ exhausted.Perm exhausted' ∧
      ∃ sorted sorted', corruptSorted corrupt = .ok sorted ∧ corruptSorted corrupt' = .ok sorted' ∧
        sorted ⊆ corrupt ∧ sorted' ⊆ corrupt' ∧
        sorted.map (fun c => (c.scope, c.reasonCode % 256)) =
          sorted'.map (fun c => (c.scope, c.reasonCode % 256)) := by
  unfold canonicalStoreSnapshot at h h'
  simp only [bind_ok, pure_ok, orRaise_ok] at h h'
  obtain ⟨_, hrange, exh, hexh, cor, hcor, p, hp, q, hq, t, ht, rfl⟩ := h
  obtain ⟨_, hrange', exh', hexh', cor', hcor', p', hp', q', hq', t', ht', heq⟩ := h'
  obtain ⟨hexhMap, hexhKeys⟩ := keys_ok hexh
  obtain ⟨hexhMap', hexhKeys'⟩ := keys_ok hexh'
  obtain ⟨hcorMap, hcorKeys⟩ := keys_ok hcor
  obtain ⟨hcorMap', hcorKeys'⟩ := keys_ok hcor'
  simp only [List.append_assoc] at heq
  have hbody := List.append_cancel_left (List.append_cancel_left heq)
  obtain ⟨hgeneration, hbody⟩ := List.append_inj hbody (by simp [u64])
  have hnat : generation'.toNat = generation.toNat :=
    bigEndian_injective (by omega) (by omega) hgeneration
  obtain ⟨hclaims, hbody⟩ := countedRecords_readable claimField_readable (by simp) (by simp) hp' hp hbody
  obtain ⟨hexhausted, hbody⟩ := countedRecords_readable exhaustedField_readable
    (fun x hx => hexhKeys' x ((List.mem_insertionSort _).mp hx))
    (fun x hx => hexhKeys x ((List.mem_insertionSort _).mp hx)) hq' hq hbody
  have hlast : t' ++ [] = t ++ [] := by rw [hbody]
  obtain ⟨hcorrupt, _⟩ := countedRecords_readable corruptField_readable
    (fun x hx => hcorKeys' x ((List.mem_insertionSort _).mp hx))
    (fun x hx => hcorKeys x ((List.mem_insertionSort _).mp hx)) ht' ht hlast
  rw [List.map_id, List.map_id] at hclaims hexhausted
  refine ⟨by omega, ?_, ?_, _, _, congrArg (Except.map _) hcor, congrArg (Except.map _) hcor', ?_, ?_, ?_⟩
  · exact (List.perm_insertionSort _ claims).symm.trans
      (hclaims ▸ List.perm_insertionSort _ claims')
  · rw [← hexhMap, ← hexhMap']
    exact ((List.perm_insertionSort _ exh).symm.trans
      (hexhausted ▸ List.perm_insertionSort _ exh')).map Prod.snd
  · intro c hc
    obtain ⟨entry, hentry, rfl⟩ := List.mem_map.mp hc
    rw [← hcorMap]
    exact List.mem_map_of_mem ((List.mem_insertionSort _).mp hentry)
  · intro c hc
    obtain ⟨entry, hentry, rfl⟩ := List.mem_map.mp hc
    rw [← hcorMap']
    exact List.mem_map_of_mem ((List.mem_insertionSort _).mp hentry)
  · rw [List.map_map, List.map_map]
    exact hcorrupt.symm

variable (P) in
/-- Snapshots of stores whose reason codes are of the set say all of the store. -/
def SnapshotInjective (codes : Int → Prop) : Prop :=
  ∀ {generation generation' : Int} {claims claims' : List Bytes}
    {exhausted exhausted' : List ExhaustedMarker} {corrupt corrupt' : List CorruptMarker} {b : Bytes},
    (∀ c ∈ corrupt, codes c.reasonCode) → (∀ c ∈ corrupt', codes c.reasonCode) →
    canonicalStoreSnapshot P generation claims exhausted corrupt = .ok b →
    canonicalStoreSnapshot P generation' claims' exhausted' corrupt' = .ok b →
    generation = generation' ∧ claims.Perm claims' ∧ exhausted.Perm exhausted' ∧
      corruptSorted corrupt = corruptSorted corrupt'

/-- No two of the codes have one low byte. -/
def LowByteDistinct (codes : Int → Prop) : Prop :=
  ∀ a b, codes a → codes b → a % 256 = b % 256 → a = b

theorem markers_eq {codes : Int → Prop} (hcodes : LowByteDistinct codes) {xs : List CorruptMarker} :
    ∀ {ys : List CorruptMarker}, (∀ c ∈ xs, codes c.reasonCode) → (∀ c ∈ ys, codes c.reasonCode) →
      xs.map (fun c => (c.scope, c.reasonCode % 256)) =
        ys.map (fun c => (c.scope, c.reasonCode % 256)) → xs = ys := by
  induction xs with
  | nil =>
    intro ys _ _ h
    cases ys with
    | nil => rfl
    | cons y ys => cases h
  | cons x xs ih =>
    intro ys hxs hys h
    cases ys with
    | nil => cases h
    | cons y ys =>
      obtain ⟨hhead, hrest⟩ := List.cons.inj h
      obtain ⟨hscope, hcode⟩ := Prod.mk.inj hhead
      have hreason := hcodes _ _ (hxs x List.mem_cons_self) (hys y List.mem_cons_self) hcode
      have hxy : x = y := by
        cases x
        cases y
        simp_all
      rw [hxy, ih (fun c hc => hxs c (List.mem_cons_of_mem x hc))
        (fun c hc => hys c (List.mem_cons_of_mem y hc)) hrest]

theorem snapshot_of_code (code : Int) : canonicalStoreSnapshot P 0 [] [] [⟨[], code⟩] =
    .ok (storeSnapshotDomain ++ [0] ++ u64 0 ++ bigEndian 4 0 ++ bigEndian 4 0 ++
      (bigEndian 4 1 ++ [0, 0, UInt8.ofNat (code % 256).toNat])) := by
  have hfield : corruptField ([], ⟨[], code⟩) = .ok [0, 0, UInt8.ofNat (code % 256).toNat] := by
    have hlp : lp [] = .ok [0, 0] := rfl
    have hsize : ([] : Bytes).length ≤ 0xFFFF := Nat.zero_le _
    unfold corruptField
    simp only [orRaise_pos hsize, hlp, bind, Except.bind, pure, Except.pure, List.cons_append,
      List.nil_append]
  have hrecords : countedRecords corruptField [([], ⟨[], code⟩)] =
      .ok (bigEndian 4 1 ++ [0, 0, UInt8.ofNat (code % 256).toNat]) := by
    unfold countedRecords
    rw [List.mapM_cons, hfield]
    rfl
  have hkeys : corruptKeys [⟨[], code⟩] = .ok [([], ⟨[], code⟩)] := rfl
  have hnone : countedRecords (claimField P) ([].insertionSort (claimOrder P)) = .ok (bigEndian 4 0) := rfl
  have hnone' : countedRecords (exhaustedField P) ([].insertionSort exhaustedOrder) =
      .ok (bigEndian 4 0) := rfl
  unfold canonicalStoreSnapshot
  rw [orRaise_pos (by decide), hkeys]
  have hsingle : [([], ⟨[], code⟩)].insertionSort corruptOrder = [([], ⟨[], code⟩)] := rfl
  simp only [bind, Except.bind, exhaustedKeys, List.mapM_nil, pure, Except.pure, hnone, hnone', hsingle, hrecords]

theorem snapshotInjective_iff (codes : Int → Prop) : SnapshotInjective P codes ↔ LowByteDistinct codes := by
  constructor
  · intro hinjective a b ha hb hlow
    have hb' := snapshot_of_code (P := P) b
    rw [← hlow] at hb'
    have hsorted := (hinjective (by simpa using ha) (by simpa using hb) (snapshot_of_code a)
      hb').2.2.2
    have hmarkers : [(⟨[], a⟩ : CorruptMarker)] = [⟨[], b⟩] := Except.ok.inj hsorted
    simpa using hmarkers
  · intro hcodes generation generation' claims claims' exhausted exhausted' corrupt corrupt' b hcorrupt
      hcorrupt' h h'
    obtain ⟨hgeneration, hclaims, hexhausted, sorted, sorted', hsorted, hsorted', hsub, hsub', hkeys⟩ :=
      snapshot_readable h h'
    refine ⟨hgeneration, hclaims, hexhausted, ?_⟩
    rw [hsorted, hsorted', markers_eq hcodes (fun c hc => hcorrupt c (hsub hc))
      (fun c hc => hcorrupt' c (hsub' hc)) hkeys]

/-- Valid claims that fit the quota give one hash and one set of decisions in every order, and a
snapshot is injective exactly for reason codes that differ in their low byte. -/
theorem revocation_converges_iff (address : PyStr) (maxClaims : Int) (pub : Bytes) (codes : Int → Prop) :
    (∀ wires others : List Bytes, ValidClaims P address pub wires → CollisionFree P wires →
      ((wires.dedup.length : Nat) : Int) ≤ maxClaims → (∀ wire, wire ∈ wires ↔ wire ∈ others) →
      (applyAll P (emptyStore address maxClaims) pub wires).storeHash P =
        (applyAll P (emptyStore address maxClaims) pub others).storeHash P ∧
      ∀ device surface,
        authorizeDevice (applyAll P (emptyStore address maxClaims) pub wires) device surface =
          authorizeDevice (applyAll P (emptyStore address maxClaims) pub others) device surface) ∧
    (SnapshotInjective P codes ↔ LowByteDistinct codes) := by
  refine ⟨?_, snapshotInjective_iff codes⟩
  intro wires others hvalid hfree hquota hsame
  have hothers : ValidClaims P address pub others := fun w hw => hvalid w ((hsame w).mpr hw)
  have hfree' : CollisionFree P others :=
    fun a ha b hb => hfree a ((hsame a).mpr ha) b ((hsame b).mpr hb)
  have hsize : others.dedup.length = wires.dedup.length := by
    apply List.Perm.length_eq
    apply (List.perm_ext_iff_of_nodup (List.nodup_dedup others) (List.nodup_dedup wires)).mpr
    intro w
    rw [List.mem_dedup, List.mem_dedup, hsame]
  have hfirst := holdsExactly_applyAll (holdsExactly_empty (P := P) address maxClaims) hvalid
    (by simpa using hfree) (by simpa [emptyStore] using hquota)
  have hsecond := holdsExactly_applyAll (holdsExactly_empty (P := P) address maxClaims) hothers
    (by simpa using hfree') (by simpa [emptyStore, hsize] using hquota)
  rw [List.nil_append] at hfirst hsecond
  exact same_of_holdsExactly hfirst (hsecond.congr fun w => (hsame w).symm) hfree

theorem revocation_converges_iff_sample :
    (applyAll samplePlatform (emptyStore sampleAddress 5) sampleKey
        [sampleWire 3 1, sampleWire 4 2]).storeHash samplePlatform =
      (applyAll samplePlatform (emptyStore sampleAddress 5) sampleKey
        [sampleWire 4 2, sampleWire 3 1, sampleWire 4 2]).storeHash samplePlatform := by
  have hvalid : ValidClaims samplePlatform sampleAddress sampleKey [sampleWire 3 1, sampleWire 4 2] := by
    intro wire hwire
    rcases List.mem_pair.mp hwire with rfl | rfl
    · exact ⟨sampleRecord 3 1, decode_sampleWire, rfl, by decide +kernel⟩
    · exact ⟨sampleRecord 4 2, by decide +kernel, rfl, by decide +kernel⟩
  have hdigests : samplePlatform.sha256 (sampleWire 3 1) ≠ samplePlatform.sha256 (sampleWire 4 2) := by
    decide +kernel
  have hfree : CollisionFree samplePlatform [sampleWire 3 1, sampleWire 4 2] := by
    intro a ha b hb hsame
    rcases List.mem_pair.mp ha with rfl | rfl <;> rcases List.mem_pair.mp hb with rfl | rfl
    · rfl
    · exact absurd hsame hdigests
    · exact absurd hsame.symm hdigests
    · rfl
  have hquota : (([sampleWire 3 1, sampleWire 4 2].dedup.length : Nat) : Int) ≤ 5 := by decide +kernel
  refine ((revocation_converges_iff sampleAddress 5 sampleKey (fun _ => True)).1 _ _ hvalid hfree
    hquota ?_).1
  intro wire
  simp only [List.mem_cons, List.not_mem_nil, or_false]
  constructor
  · rintro (h | h)
    · exact Or.inr (Or.inl h)
    · exact Or.inl h
  · rintro (h | h | h)
    · exact Or.inr h
    · exact Or.inl h
    · exact Or.inr h

/-- Codes 1 and 257 leave the same byte. -/
theorem snapshot_collision :
    canonicalStoreSnapshot samplePlatform 0 [] [] [⟨sampleAddress, 1⟩] =
      canonicalStoreSnapshot samplePlatform 0 [] [] [⟨sampleAddress, 257⟩] ∧
    (canonicalStoreSnapshot samplePlatform 0 [] [] [⟨sampleAddress, 1⟩]).toOption.isSome = true ∧
    corruptSorted [⟨sampleAddress, 1⟩] ≠ corruptSorted [⟨sampleAddress, 257⟩] := by
  refine ⟨?_, ?_, ?_⟩
  · decide +kernel
  · decide +kernel
  · decide +kernel

end Rdap.Revocation
