import Rdap.Lib.Sorting
import Rdap.Server.StoreInvariant

/-!
# What a save admits and whom it evicts

The eviction loop goes through the oldest terminal rows until there is room. It stops at the
first prefix that makes room, and that one exists just when evicting all of them makes room, so
that a save fails exactly when the active rows leave none.
-/

set_option autoImplicit false

namespace Rdap.Server
open Python Lib

namespace Store
variable {T : Type}

/-! ## What is left after removals -/

theorem remove_entries (s : Store T) (key : Key) : (s.remove key).entries = s.entries.erase key := by
  unfold remove
  cases hrow : s.entries.get? key with
  | some entry => rfl
  | none => exact (s.entries.erase_of_absent hrow).symm

theorem removeAll_rows (s : Store T) (keys : List Key) :
    (s.removeAll keys).entries.rows = s.entries.rows.filter fun row => row.1 ∉ keys := by
  induction keys generalizing s with
  | nil => simp [removeAll]
  | cons key keys ih =>
    rw [removeAll_cons, ih, remove_entries, KeyedTable.erase, KeyedTable.filter_rows, List.filter_filter]
    apply List.filter_congr
    intro row _
    by_cases hkey : row.1 = key <;> simp [hkey]

variable [LinearOrder T]

/-- The rows under other keys that are not terminal. -/
def activeOthers (s : Store T) (key : Key) : KeyedTable Key (Entry T) :=
  s.entries.filter fun row => row.1 ≠ key ∧ row.2.task.terminal = false

/-- The keys that may be evicted for a save, in the order in which they are. -/
def evictable (s : Store T) (key : Key) : List Key := (s.candidates key).map Prod.snd

theorem mem_evictable {s : Store T} {key k : Key} {entry : Entry T} (hrow : (k, entry) ∈ s.entries.rows) :
    k ∈ s.evictable key ↔ k ≠ key ∧ entry.task.terminal = true := by
  constructor
  · intro hk
    obtain ⟨hne, e, he, hterminal⟩ := (s.candidates_spec key).2 k hk
    obtain rfl := s.entries.row_unique ((s.entries.get?_eq_some).mp he) hrow
    exact ⟨hne, hterminal⟩
  · intro hk
    apply (s.candidates_perm key).mem_iff.mpr
    exact List.mem_map.mpr ⟨(k, entry), List.mem_filter.mpr ⟨hrow, by simpa using hk⟩, rfl⟩

/-- When all candidates are gone, the other rows are the active ones. -/
theorem remove_evictable (s : Store T) (key : Key) :
    ((s.removeAll (s.evictable key)).remove key).entries = s.activeOthers key := by
  apply KeyedTable.ext
  rw [remove_entries, KeyedTable.erase, KeyedTable.filter_rows, removeAll_rows, List.filter_filter,
    activeOthers, KeyedTable.filter_rows]
  apply List.filter_congr
  intro row hrow
  have hmem : row.1 ∈ s.evictable key ↔ row.1 ≠ key ∧ row.2.task.terminal = true := mem_evictable hrow
  by_cases hkey : row.1 = key
  · simp [hkey]
  · cases hterminal : row.2.task.terminal <;> simp [hmem, hkey, hterminal]

theorem take_sublist_evictable (s : Store T) (key : Key) (n : Nat) :
    ((s.evictable key).take n).Sublist (s.evictable key) := List.take_sublist n _

theorem candidateLe_iff (a b : T × Key) : candidateLe a b = true ↔ LexLe a b := by
  simp [candidateLe, LexLe]

theorem candidateLe_trans (a b c : T × Key) (hab : candidateLe a b = true) (hbc : candidateLe b c = true) :
    candidateLe a c = true := by
  rw [candidateLe_iff] at hab hbc ⊢
  exact lexLe_trans hab hbc

theorem candidateLe_total (a b : T × Key) : (candidateLe a b || candidateLe b a) = true := by
  rw [Bool.or_eq_true, candidateLe_iff, candidateLe_iff]
  exact lexLe_total a b

/-- The row of `a` was stored before that of `b`, or at the same time under a lesser key. -/
def Older (s : Store T) (a b : Key) : Prop :=
  ∀ x y, s.entries.get? a = some x → s.entries.get? b = some y →
    x.updatedAt < y.updatedAt ∨
      (x.updatedAt = y.updatedAt ∧ (a.1 < b.1 ∨ (a.1 = b.1 ∧ a.2 ≤ b.2)))

theorem evictable_sorted (s : Store T) (key : Key) : (s.evictable key).Pairwise s.Older := by
  have hsorted := List.pairwise_mergeSort candidateLe_trans candidateLe_total
    ((s.entries.rows.filter fun row => row.1 ≠ key ∧ row.2.task.terminal).map fun row =>
      (row.2.updatedAt, row.1))
  have htime : ∀ c ∈ s.candidates key, ∀ entry, s.entries.get? c.2 = some entry →
      entry.updatedAt = c.1 := by
    intro c hc entry hentry
    obtain ⟨row, hrow, rfl⟩ := List.mem_map.mp (List.mem_mergeSort.mp hc)
    have hin := (List.mem_filter.mp hrow).1
    rw [s.entries.row_unique ((s.entries.get?_eq_some).mp hentry) hin]
  apply List.pairwise_map.mpr
  refine List.Pairwise.imp_of_mem ?_ hsorted
  intro a b ha hb hle x y hx hy
  rw [htime a ha x hx, htime b hb y hy]
  exact (candidateLe_iff a b).mp hle

/-! ## Room -/

variable [Zero T] (limits : Limits T)

/-- A row of this size under this key would leave the store within its limits. -/
def Room (s : Store T) (key : Key) (size : Nat) : Prop :=
  ((s.remove key).entries.count : Int) + 1 ≤ limits.maxCount ∧
    (s.remove key).totalBytes + size ≤ limits.maxBytes

variable {limits}

/-- The projections of the eviction loop say whether there is room. -/
theorem fits_iff_room {s : Store T} {key : Key} {size : Nat} {victims : List Key}
    (hsub : victims.Sublist (s.evictable key)) :
    fits limits ((s.entries.count + if s.entries.contains key then 0 else 1 : Int) - victims.length)
        (s.totalBytes - s.sizeAt key + size - (victims.map s.sizeAt).sum) = true ↔
      Room limits (s.removeAll victims) key size := by
  obtain ⟨hnodup, hterminal⟩ := s.candidates_spec key
  have hvictim := fun k hk => hterminal k (hsub.subset hk)
  have hstored : ∀ k ∈ victims, s.entries.contains k = true := by
    intro k hk
    obtain ⟨_, entry, hrow, _⟩ := hvictim k hk
    simp [KeyedTable.contains, hrow]
  obtain ⟨hcount, htotal⟩ := removeAll_spent (hnodup.sublist hsub) hstored
  have hkey : (s.removeAll victims).entries.get? key = s.entries.get? key := by
    rw [removeAll_get?, if_neg fun hk => (hvictim key hk).1 rfl]
  have hone := (s.removeAll victims).remove_count key
  have hsize := (s.removeAll victims).remove_total key
  rw [KeyedTable.contains, hkey, ← KeyedTable.contains] at hone
  rw [sizeAt, hkey, ← sizeAt] at hsize
  simp only [fits, Bool.and_eq_true, decide_eq_true_eq, Room]
  split at hone
  · rename_i hpresent
    simp only [hpresent, if_true]
    omega
  · rename_i habsent
    simp only [habsent, Bool.false_eq_true, if_false]
    omega

/-- More removals leave more room. -/
theorem Room.take {s : Store T} {key : Key} {size m n : Nat} (hle : m ≤ n)
    (h : Room limits (s.removeAll ((s.evictable key).take m)) key size) :
    Room limits (s.removeAll ((s.evictable key).take n)) key size := by
  obtain ⟨more, hmore⟩ : ∃ more, (s.evictable key).take n = (s.evictable key).take m ++ more := by
    refine ⟨((s.evictable key).take n).drop m, ?_⟩
    have htake := List.take_append_drop m ((s.evictable key).take n)
    rw [List.take_take, Nat.min_eq_left hle] at htake
    exact htake.symm
  rw [← fits_iff_room (s.take_sublist_evictable key m)] at h
  rw [← fits_iff_room (s.take_sublist_evictable key n), hmore]
  simp only [fits, Bool.and_eq_true, decide_eq_true_eq, List.length_append, List.map_append,
    List.sum_append] at h ⊢
  omega

/-- The loop stops at the first prefix of what it is given that makes room. -/
theorem evictionLoop_eq {s : Store T} {count bytes : Int} {keys : List Key} :
    (∀ victims, s.evictionLoop limits count bytes keys = some victims ↔
      ∃ n, 0 < n ∧ n ≤ keys.length ∧ victims = keys.take n ∧
        fits limits (count - n) (bytes - ((keys.take n).map s.sizeAt).sum) = true ∧
        ∀ m, 0 < m → m < n →
          fits limits (count - m) (bytes - ((keys.take m).map s.sizeAt).sum) = false) := by
  induction keys generalizing count bytes with
  | nil =>
    intro victims
    simp only [evictionLoop, List.length_nil]
    constructor
    · intro h
      cases h
    · rintro ⟨n, hpos, hle, -⟩
      omega
  | cons key keys ih =>
    intro victims
    have hstep : ∀ n : Nat,
        fits limits (count - (n + 1 : Nat)) (bytes - (((key :: keys).take (n + 1)).map s.sizeAt).sum) =
        fits limits (count - 1 - n) (bytes - s.sizeAt key - ((keys.take n).map s.sizeAt).sum) := by
      intro n
      have hcount : count - ((n + 1 : Nat) : Int) = count - 1 - n := by omega
      have hbytes : bytes - (((((key :: keys).take (n + 1)).map s.sizeAt).sum : Nat) : Int) =
          bytes - s.sizeAt key - (((keys.take n).map s.sizeAt).sum : Nat) := by
        rw [List.take_succ_cons, List.map_cons, List.sum_cons]
        omega
      rw [hcount, hbytes]
    have hfirst := hstep 0
    simp only [List.take_zero, List.map_nil, List.sum_nil, Nat.cast_zero, sub_zero] at hfirst
    unfold evictionLoop
    split
    · rename_i hfits
      constructor
      · intro h
        obtain rfl := Option.some.inj h
        refine ⟨1, by omega, by simp, by simp, ?_, fun m hpos hlt => by omega⟩
        rw [hfirst]
        exact hfits
      · rintro ⟨n, hpos, hle, rfl, -, hleast⟩
        rcases Nat.lt_or_ge 1 n with hlt | hge
        · have hnot := hleast 1 (by omega) hlt
          rw [hfirst, hfits] at hnot
          cases hnot
        · obtain rfl : n = 1 := by omega
          simp
    · rename_i hfull
      rw [Bool.not_eq_true] at hfull
      constructor
      · intro h
        obtain ⟨more, hmore, rfl⟩ := Option.map_eq_some_iff.mp h
        obtain ⟨n, hpos, hle, rfl, hfits, hleast⟩ := (ih more).mp hmore
        refine ⟨n + 1, by omega, by simpa using hle, by simp, ?_, ?_⟩
        · rw [hstep]
          exact hfits
        · intro m hm hlt
          obtain ⟨m, rfl⟩ : ∃ k, m = k + 1 := ⟨m - 1, by omega⟩
          rw [hstep]
          rcases Nat.eq_zero_or_pos m with rfl | hpos'
          · simpa using hfull
          · exact hleast m hpos' (by omega)
      · rintro ⟨n, hpos, hle, rfl, hfits, hleast⟩
        obtain ⟨n, rfl⟩ : ∃ k, n = k + 1 := ⟨n - 1, by omega⟩
        rw [hstep] at hfits
        rw [Option.map_eq_some_iff]
        refine ⟨keys.take n, (ih _).mpr ⟨n, ?_, by simpa using hle, rfl, hfits, ?_⟩, by simp⟩
        · rcases Nat.eq_zero_or_pos n with rfl | hpos'
          · simp only [List.take_zero, List.map_nil, List.sum_nil, Nat.cast_zero, sub_zero] at hfits
            rw [hfull] at hfits
            cases hfits
          · exact hpos'
        · intro m hm hlt
          rw [← hstep]
          exact hleast (m + 1) (by omega) (by omega)

theorem fits_take {s : Store T} {key : Key} {size n : Nat} (hle : n ≤ (s.evictable key).length) :
    fits limits ((s.entries.count + if s.entries.contains key then 0 else 1 : Int) - n)
        (s.totalBytes - s.sizeAt key + size - (((s.evictable key).take n).map s.sizeAt).sum) = true ↔
      Room limits (s.removeAll ((s.evictable key).take n)) key size := by
  have hlength : ((s.evictable key).take n).length = n := by
    rw [List.length_take]
    exact Nat.min_eq_left hle
  have hsub := s.take_sublist_evictable key n
  rw [← fits_iff_room hsub, hlength]

/-- The victims are the shortest prefix of the candidates that makes room. -/
theorem evictionsFor_some {s : Store T} {key : Key} {size : Nat} {victims : List Key} :
    s.evictionsFor limits key size = some victims ↔
      ∃ n, n ≤ (s.evictable key).length ∧ victims = (s.evictable key).take n ∧
        Room limits (s.removeAll ((s.evictable key).take n)) key size ∧
        ∀ m, m < n → ¬Room limits (s.removeAll ((s.evictable key).take m)) key size := by
  have htake := fun n (hle : n ≤ (s.evictable key).length) => @fits_take T _ _ limits s key size n hle
  have hstart := htake 0 (Nat.zero_le _)
  simp only [Nat.cast_zero, sub_zero, List.take_zero, List.map_nil, List.sum_nil] at hstart
  unfold evictionsFor
  simp only
  generalize (s.entries.count + if s.entries.contains key then 0 else 1 : Int) = count at hstart htake ⊢
  split
  · rename_i hfits
    constructor
    · intro h
      obtain rfl := Option.some.inj h
      exact ⟨0, Nat.zero_le _, rfl, hstart.mp hfits, fun m hm => absurd hm (Nat.not_lt_zero m)⟩
    · rintro ⟨n, -, rfl, -, hleast⟩
      rcases Nat.eq_zero_or_pos n with rfl | hpos
      · rfl
      · exact absurd (hstart.mp hfits) (hleast 0 hpos)
  · rename_i hfull
    have hnone : ¬Room limits (s.removeAll []) key size := fun h => hfull (hstart.mpr h)
    constructor
    · intro h
      obtain ⟨n, -, hle, rfl, hfits, hleast⟩ := (evictionLoop_eq victims).mp h
      refine ⟨n, hle, rfl, (htake n hle).mp hfits, ?_⟩
      intro m hm
      rcases Nat.eq_zero_or_pos m with rfl | hpos
      · exact hnone
      · have hnot := hleast m hpos hm
        intro hroom
        have hyes := (htake m (Nat.le_of_lt (Nat.lt_of_lt_of_le hm hle))).mpr hroom
        exact absurd (hnot.symm.trans hyes) Bool.false_ne_true
    · rintro ⟨n, hle, rfl, hroom, hleast⟩
      refine (evictionLoop_eq _).mpr ⟨n, ?_, hle, rfl, (htake n hle).mpr hroom, ?_⟩
      · rcases Nat.eq_zero_or_pos n with rfl | hpos
        · exact absurd hroom hnone
        · exact hpos
      · intro m _ hm
        rw [Bool.eq_false_iff]
        intro hfits
        have hle' : m ≤ (s.evictable key).length := Nat.le_of_lt (Nat.lt_of_lt_of_le hm hle)
        exact hleast m hm ((htake m hle').mp hfits)

/-- There are no victims exactly when evicting every candidate leaves too little room. -/
theorem evictionsFor_none {s : Store T} {key : Key} {size : Nat} :
    s.evictionsFor limits key size = none ↔ ¬Room limits (s.removeAll (s.evictable key)) key size := by
  have hall : (s.evictable key).take (s.evictable key).length = s.evictable key := List.take_length
  constructor
  · intro h hroom
    have hexists : ∃ n, Room limits (s.removeAll ((s.evictable key).take n)) key size :=
      ⟨_, by rw [hall]; exact hroom⟩
    classical
    have hle : Nat.find hexists ≤ (s.evictable key).length := by
      apply Nat.find_le
      rw [hall]
      exact hroom
    have hsome := evictionsFor_some.mpr
      ⟨Nat.find hexists, hle, rfl, Nat.find_spec hexists, fun m hm => Nat.find_min hexists hm⟩
    rw [h] at hsome
    cases hsome
  · intro hfull
    cases h : s.evictionsFor limits key size with
    | none => rfl
    | some victims =>
      obtain ⟨n, hle, -, hroom, -⟩ := evictionsFor_some.mp h
      have hmore := hroom.take hle
      rw [hall] at hmore
      exact absurd hmore hfull

/-- Room after evicting every candidate is room beside the active rows. -/
theorem room_evictable {s : Store T} (hcounted : s.Counted) (key : Key) (size : Nat) :
    Room limits (s.removeAll (s.evictable key)) key size ↔
      (s.activeOthers key).count + 1 ≤ limits.maxCount ∧
        (s.activeOthers key).weight (fun row => row.2.size) + size ≤ limits.maxBytes := by
  have htotal : ((s.removeAll (s.evictable key)).remove key).Counted :=
    remove_counted (removeAll_counted hcounted _) key
  unfold Counted at htotal
  unfold Room
  rw [htotal, remove_evictable]
  omega

/-! ## Saves -/

variable [Sub T]

/-- Rows are as before, but for expired terminal ones that may be gone. -/
def LosesExpired (limits : Limits T) (now : T) (s t : Store T) : Prop :=
  (∀ key entry, t.entries.get? key = some entry → s.entries.get? key = some entry) ∧
  ∀ key entry, s.entries.get? key = some entry →
    t.entries.get? key = some entry ∨
      (t.entries.get? key = none ∧ entry.task.terminal = true ∧ limits.ttlSeconds ≤ now - entry.updatedAt)

theorem LosesExpired.refl (now : T) (s : Store T) : LosesExpired limits now s s :=
  ⟨fun _ _ h => h, fun _ _ h => Or.inl h⟩

theorem prune_losesExpired (now : T) (s : Store T) : LosesExpired limits now s (s.prune limits now) := by
  have hexpired : ∀ key entry, s.entries.get? key = some entry →
      (key ∈ (s.entries.rows.filter fun row => expired limits now row.2).map Prod.fst ↔
        expired limits now entry = true) := by
    intro key entry hrow
    have hmem := (s.entries.get?_eq_some).mp hrow
    constructor
    · intro hkey
      obtain ⟨⟨k, e⟩, hin, rfl⟩ := List.mem_map.mp hkey
      obtain ⟨hin, he⟩ := List.mem_filter.mp hin
      obtain rfl := s.entries.row_unique hmem hin
      exact he
    · intro he
      exact List.mem_map.mpr ⟨(key, entry), List.mem_filter.mpr ⟨hmem, he⟩, rfl⟩
  refine ⟨(s.prune_shrinks now).adds, ?_⟩
  intro key entry hrow
  rw [prune, removeAll_get?]
  split
  · rename_i hkey
    have he := (hexpired key entry hrow).mp hkey
    simp only [expired, Bool.and_eq_true, decide_eq_true_eq] at he
    exact Or.inr ⟨rfl, he⟩
  · exact Or.inl hrow

/-- The part of `save` that holds the lock, on a store whose total counts its rows. -/
theorem saveSized_capacity {s : Store T} (hcounted : s.Counted) (now : T) (key : Key) (task : Task)
    (size : Nat) :
    (∃ message, (s.saveSized limits now key task size).1 = .error (.capacity message)) ↔
      limits.maxCount < ((s.prune limits now).activeOthers key).count + 1 ∨
      limits.maxBytes <
        ((s.prune limits now).activeOthers key).weight (fun row => row.2.size) + size := by
  have hpruned : (s.prune limits now).Counted := (s.prune_shrinks now).counted hcounted
  have hroom : Room limits _ key size ↔ _ := room_evictable hpruned key size
  have hnone : (s.prune limits now).evictionsFor limits key size = none ↔ _ := evictionsFor_none
  rw [hroom] at hnone
  unfold saveSized
  simp only
  split
  · rename_i hvictims
    have hfull := hnone.mp hvictims
    constructor
    · intro _
      omega
    · intro _
      exact ⟨_, rfl⟩
  · rename_i victims hvictims
    constructor
    · rintro ⟨message, h⟩
      cases h
    · intro hfull
      rw [hnone.mpr (by omega)] at hvictims
      cases hvictims

theorem saveSized_evicts {s : Store T} {now : T} {key : Key} {task : Task} {size : Nat}
    (h : (s.saveSized limits now key task size).1 = .ok ()) :
    ∃ n, n ≤ ((s.prune limits now).evictable key).length ∧
      (s.saveSized limits now key task size).2 =
        (((s.prune limits now).removeAll (((s.prune limits now).evictable key).take n)).remove key).put key
          ⟨task, now, size⟩ ∧
      Room limits ((s.prune limits now).removeAll (((s.prune limits now).evictable key).take n)) key size ∧
      ∀ m, m < n →
        ¬Room limits ((s.prune limits now).removeAll (((s.prune limits now).evictable key).take m)) key
          size := by
  unfold saveSized at h ⊢
  simp only at h ⊢
  split at h
  · cases h
  · rename_i victims hvictims
    obtain ⟨n, hle, rfl, hroom, hleast⟩ := evictionsFor_some.mp hvictims
    exact ⟨n, hle, rfl, hroom, hleast⟩

theorem saveSized_losesExpired {s : Store T} {now : T} {key : Key} {task : Task} {size : Nat}
    (h : (s.saveSized limits now key task size).1 ≠ .ok ()) :
    LosesExpired limits now s (s.saveSized limits now key task size).2 := by
  unfold saveSized at h ⊢
  simp only at h ⊢
  split
  · exact s.prune_losesExpired now
  · rename_i victims hvictims
    rw [hvictims] at h
    exact absurd rfl h

/-- A rejected task leaves a store without rejected rows alone. -/
theorem discard_losesExpired {s : Store T} {now : T} {key : Key}
    (hclean : ∀ key entry, s.entries.get? key = some entry → entry.task.rejected = false) :
    LosesExpired limits now s (s.discard limits now key) := by
  unfold discard
  simp only
  split
  · rename_i entry hrow
    have haccepted := hclean key entry ((s.prune_shrinks now).adds key entry hrow)
    rw [haccepted]
    exact s.prune_losesExpired now
  · exact s.prune_losesExpired now

end Store

open Store

variable {T : Type} [LinearOrder T] [Zero T] [Sub T]

theorem save_of_invalid (sdk : Sdk) (limits : Limits T) (s : Store T) (owner : PyStr) (task : Task) (now : T)
    (h : ∀ ownerBytes, checkOwner owner = .ok ownerBytes → task.id ≠ [] →
      checkTaskId task.id (lit "invalid or oversized task id") ≠ .ok ()) :
    (s.save sdk limits owner task now).2 = s := by
  unfold save
  split
  · rfl
  · rename_i ownerBytes howner
    split
    · rfl
    · rename_i hid
      split
      · rfl
      · rename_i hlength
        exact absurd hlength (h ownerBytes howner hid)

theorem save_of_valid (sdk : Sdk) (limits : Limits T) (s : Store T) {owner : PyStr} {task : Task} (now : T)
    {ownerBytes : Nat} (howner : checkOwner owner = .ok ownerBytes) (hid : task.id ≠ [])
    (hlength : checkTaskId task.id (lit "invalid or oversized task id") = .ok ()) :
    s.save sdk limits owner task now =
      if task.rejected then (.ok (), s.discard limits now (owner, task.id))
      else if sdk.byteSize task + ownerBytes + entryOverheadBytes > limits.maxBytes then
        (.error (.capacity (lit "task exceeds the task-store byte limit")), s)
      else s.saveSized limits now (owner, task.id) task
        (sdk.byteSize task + ownerBytes + entryOverheadBytes) := by
  simp only [save, howner, hlength, if_neg hid]

/-- Whatever `save` refuses, and whatever it takes of a rejected task, costs expired rows at most. -/
theorem save_losesExpired {sdk : Sdk} {limits : Limits T} {s : Store T} {owner : PyStr} {task : Task} {now : T}
    (hclean : ∀ key entry, s.entries.get? key = some entry → entry.task.rejected = false)
    (h : (s.save sdk limits owner task now).1 ≠ .ok () ∨ task.rejected = true) :
    LosesExpired limits now s (s.save sdk limits owner task now).2 := by
  by_cases hvalid : ∃ ownerBytes, checkOwner owner = .ok ownerBytes ∧ task.id ≠ [] ∧
      checkTaskId task.id (lit "invalid or oversized task id") = .ok ()
  · obtain ⟨ownerBytes, howner, hid, hlength⟩ := hvalid
    rw [save_of_valid sdk limits s now howner hid hlength] at h ⊢
    split at h
    · rename_i hrejected
      rw [if_pos hrejected]
      exact discard_losesExpired hclean
    · rename_i haccepted
      rw [if_neg haccepted]
      split at h
      · rename_i hlarge
        rw [if_pos hlarge]
        exact LosesExpired.refl now s
      · rename_i hsmall
        rw [if_neg hsmall]
        rcases h with hfail | hrejected
        · exact saveSized_losesExpired hfail
        · exact absurd hrejected haccepted
  · have hsame : (s.save sdk limits owner task now).2 = s := by
      apply save_of_invalid
      intro ownerBytes howner hid hlength
      exact hvalid ⟨ownerBytes, howner, hid, hlength⟩
    rw [hsame]
    exact LosesExpired.refl now s

/-- Admission by `save`: when it fails for capacity, whom it evicts, and what a failure or a rejected
task leaves of the rows. -/
theorem save_admission (sdk : Sdk) (limits : Limits T) (ops : List (Op T)) (owner : PyStr) (task : Task)
    (now : T) :
    let s := (performAll sdk limits ops).store
    let key := (owner, task.id)
    let pruned := s.prune limits now
    let order := pruned.evictable key
    let result := s.save sdk limits owner task now
    (order.Nodup ∧ order.Pairwise pruned.Older ∧
      ∀ k entry, pruned.entries.get? k = some entry → (k ∈ order ↔ k ≠ key ∧ entry.task.terminal = true)) ∧
    (∀ ownerBytes, checkOwner owner = .ok ownerBytes → task.id ≠ [] →
      checkTaskId task.id (lit "invalid or oversized task id") = .ok () → task.rejected = false →
      let size := sdk.byteSize task + ownerBytes + entryOverheadBytes
      ((∃ message, result.1 = .error (.capacity message)) ↔
        limits.maxBytes < size ∨ limits.maxCount < (pruned.activeOthers key).count + 1 ∨
        limits.maxBytes < (pruned.activeOthers key).weight (fun row => row.2.size) + size) ∧
      (result.1 = .ok () →
        ∃ n, n ≤ order.length ∧
          result.2 = ((pruned.removeAll (order.take n)).remove key).put key ⟨task, now, size⟩ ∧
          Room limits (pruned.removeAll (order.take n)) key size ∧
          ∀ m, m < n → ¬Room limits (pruned.removeAll (order.take m)) key size)) ∧
    (result.1 ≠ .ok () ∨ task.rejected = true → LosesExpired limits now s result.2) := by
  intro s key pruned order result
  have hb : Bounded limits (performAll sdk limits ops) := performAll_bounded ops
  refine ⟨⟨(pruned.candidates_spec key).1, pruned.evictable_sorted key, ?_⟩, ?_, ?_⟩
  · intro k entry hrow
    exact mem_evictable ((pruned.entries.get?_eq_some).mp hrow)
  · intro ownerBytes howner hid hlength haccepted size
    have hsave : result = if size > limits.maxBytes then
        (.error (.capacity (lit "task exceeds the task-store byte limit")), s)
        else s.saveSized limits now key task size := by
      have h := save_of_valid sdk limits s now howner hid hlength
      rw [haccepted] at h
      simpa using h
    rw [hsave]
    constructor
    · split
      · rename_i hlarge
        exact ⟨fun _ => Or.inl hlarge, fun _ => ⟨_, rfl⟩⟩
      · rename_i hsmall
        rw [saveSized_capacity hb.counted]
        constructor
        · exact Or.inr
        · intro h
          rcases h with hlarge | h
          · exact absurd hlarge hsmall
          · exact h
    · intro hok
      split at hok
      · cases hok
      · rename_i hsmall
        rw [if_neg hsmall]
        exact saveSized_evicts hok
  · exact save_losesExpired hb.clean

/-- Two rows at most; timestamps and page tokens play no part in a save. -/
def smallSdk : Sdk where
  byteSize task := task.rest.length
  toJsonString _ := []
  decodePageToken := .ok
  encodePageToken := id
  defaultListTasksPageSize := 50

def smallLimits : Limits Int := ⟨2, 2000, 10, by decide⟩

def workingTask (id : PyStr) : Task := ⟨id, [], some ⟨.working, none⟩, []⟩

/-- Beside two active tasks a third one does not get in. -/
theorem third_task_refused :
    ∃ message, ((performAll smallSdk smallLimits [.save (lit "a") (workingTask (lit "x")) 0,
      .save (lit "a") (workingTask (lit "y")) 0]).store.save smallSdk smallLimits (lit "a")
      (workingTask (lit "z")) 0).1 = .error (.capacity message) :=
  ((save_admission smallSdk smallLimits [.save (lit "a") (workingTask (lit "x")) 0,
    .save (lit "a") (workingTask (lit "y")) 0] (lit "a") (workingTask (lit "z")) 0).2.1 1 rfl (by decide) rfl
      rfl).1.mpr (Or.inr (Or.inl (by decide)))

end Rdap.Server
