import Rdap.Server.TaskStore

/-!
# What holds of the task store along every run

Removal is the only way a row is lost, and each removal takes the size of its row off the
total. `Shrinks` says what pruning and eviction do to the rows, `Bounded` what every
operation keeps.
-/

set_option autoImplicit false

namespace Rdap.Server
open Python Lib

namespace Store

section Removal
variable {T : Type}

/-! ## Removals -/

@[simp] theorem remove_get? (s : Store T) (key other : Key) :
    (s.remove key).entries.get? other = if other = key then none else s.entries.get? other := by
  unfold remove
  cases hrow : s.entries.get? key with
  | some entry => simp [KeyedTable.get?_erase]
  | none =>
    by_cases hkey : other = key
    · simp [hkey, hrow]
    · simp [hkey]

theorem removeAll_cons (s : Store T) (key : Key) (keys : List Key) :
    s.removeAll (key :: keys) = (s.remove key).removeAll keys := rfl

theorem removeAll_get? (s : Store T) (keys : List Key) (other : Key) :
    (s.removeAll keys).entries.get? other =
      if other ∈ keys then none else s.entries.get? other := by
  induction keys generalizing s with
  | nil => simp [removeAll]
  | cons key keys ih =>
    rw [removeAll_cons, ih, remove_get?]
    by_cases hkey : other = key <;> simp [hkey]

/-- The total counts what is stored. -/
def Counted (s : Store T) : Prop := s.totalBytes = (s.entries.weight fun row => row.2.size : Nat)

theorem remove_weight (s : Store T) (key : Key) :
    (s.remove key).entries.weight (fun row => row.2.size) + s.sizeAt key =
      s.entries.weight fun row => row.2.size := by
  have hsplit := s.entries.weight_erase_add key fun row => row.2.size
  unfold remove sizeAt
  cases hrow : s.entries.get? key with
  | some entry =>
    rw [hrow] at hsplit
    simpa using hsplit
  | none => simp

theorem remove_total (s : Store T) (key : Key) :
    (s.remove key).totalBytes = s.totalBytes - s.sizeAt key := by
  unfold remove sizeAt
  cases hrow : s.entries.get? key <;> simp

theorem remove_counted {s : Store T} (h : s.Counted) (key : Key) : (s.remove key).Counted := by
  have hweight := s.remove_weight key
  unfold Counted at h ⊢
  rw [remove_total, h]
  omega

theorem removeAll_counted {s : Store T} (h : s.Counted) (keys : List Key) :
    (s.removeAll keys).Counted := by
  induction keys generalizing s with
  | nil => exact h
  | cons key keys ih => exact ih (remove_counted h key)

theorem remove_count (s : Store T) (key : Key) :
    (s.remove key).entries.count + (if s.entries.contains key then 1 else 0) = s.entries.count := by
  have hsplit := s.entries.weight_erase_add key fun _ => 1
  simp only [← KeyedTable.count_eq_weight] at hsplit
  unfold remove KeyedTable.contains
  cases hrow : s.entries.get? key with
  | some entry =>
    rw [hrow] at hsplit
    simpa using hsplit
  | none => simp

theorem removeAll_count_le (s : Store T) (keys : List Key) :
    (s.removeAll keys).entries.count ≤ s.entries.count := by
  induction keys generalizing s with
  | nil => exact Nat.le_refl _
  | cons key keys ih =>
    have hrest := ih (s.remove key)
    have hone := s.remove_count key
    rw [removeAll_cons]
    omega

theorem removeAll_total_le (s : Store T) (keys : List Key) :
    (s.removeAll keys).totalBytes ≤ s.totalBytes := by
  induction keys generalizing s with
  | nil => exact Int.le_refl _
  | cons key keys ih =>
    have hrest := ih (s.remove key)
    have hone := s.remove_total key
    rw [removeAll_cons]
    omega

/-- Removing distinct stored keys lowers the count and the total by what they hold. -/
theorem removeAll_spent {s : Store T} {keys : List Key} (hnodup : keys.Nodup)
    (hstored : ∀ k ∈ keys, s.entries.contains k = true) :
    ((s.removeAll keys).entries.count : Int) = s.entries.count - keys.length ∧
      (s.removeAll keys).totalBytes = s.totalBytes - (keys.map s.sizeAt).sum := by
  induction keys generalizing s with
  | nil => simp [removeAll]
  | cons key keys ih =>
    obtain ⟨hfresh, hrest⟩ := List.nodup_cons.mp hnodup
    have hother : ∀ k ∈ keys, (s.remove key).entries.get? k = s.entries.get? k := by
      intro k hk
      rw [remove_get?, if_neg]
      rintro rfl
      exact hfresh hk
    have hstored' : ∀ k ∈ keys, (s.remove key).entries.contains k = true := by
      intro k hk
      rw [KeyedTable.contains, hother k hk]
      exact hstored k (List.mem_cons_of_mem key hk)
    have hsizes : keys.map (s.remove key).sizeAt = keys.map s.sizeAt := by
      apply List.map_congr_left
      intro k hk
      rw [sizeAt, sizeAt, hother k hk]
    obtain ⟨hcount, htotal⟩ := ih hrest hstored'
    have hone := s.remove_count key
    have hsize := s.remove_total key
    rw [hstored key List.mem_cons_self] at hone
    rw [removeAll_cons, hcount, htotal, hsizes, hsize]
    simp only [if_true] at hone
    simp only [List.length_cons, List.map_cons, List.sum_cons]
    constructor
    · omega
    · omega

/-! ## Pruning and eviction take terminal rows only -/

/-- Rows are kept as they are or, if terminal, dropped, and the total follows. -/
structure Shrinks (s t : Store T) : Prop where
  keeps : ∀ key entry, s.entries.get? key = some entry →
    t.entries.get? key = some entry ∨ (t.entries.get? key = none ∧ entry.task.terminal = true)
  adds : ∀ key entry, t.entries.get? key = some entry → s.entries.get? key = some entry
  counted : s.Counted → t.Counted
  count : t.entries.count ≤ s.entries.count
  total : t.totalBytes ≤ s.totalBytes

theorem Shrinks.refl (s : Store T) : Shrinks s s :=
  ⟨fun _ _ h => Or.inl h, fun _ _ h => h, id, Nat.le_refl _, Int.le_refl _⟩

theorem Shrinks.trans {s t u : Store T} (hst : Shrinks s t) (htu : Shrinks t u) : Shrinks s u := by
  refine ⟨?_, fun key entry h => hst.adds key entry (htu.adds key entry h),
    fun h => htu.counted (hst.counted h), Nat.le_trans htu.count hst.count,
    Int.le_trans htu.total hst.total⟩
  intro key entry h
  rcases hst.keeps key entry h with hkept | ⟨hgone, hterminal⟩
  · exact htu.keeps key entry hkept
  · refine Or.inr ⟨?_, hterminal⟩
    cases hu : u.entries.get? key with
    | none => rfl
    | some e =>
      have hback := htu.adds key e hu
      rw [hgone] at hback
      cases hback

/-- Removing keys whose rows are all terminal. -/
theorem removeAll_shrinks {s : Store T} {keys : List Key}
    (h : ∀ key ∈ keys, ∀ entry, s.entries.get? key = some entry → entry.task.terminal = true) :
    Shrinks s (s.removeAll keys) := by
  refine ⟨?_, ?_, fun hs => removeAll_counted hs keys, s.removeAll_count_le keys,
    s.removeAll_total_le keys⟩
  · intro key entry hrow
    rw [removeAll_get?]
    by_cases hkey : key ∈ keys
    · exact Or.inr ⟨if_pos hkey, h key hkey entry hrow⟩
    · exact Or.inl ((if_neg hkey).trans hrow)
  · intro key entry hrow
    rw [removeAll_get?] at hrow
    split at hrow
    · cases hrow
    · exact hrow

end Removal

section Eviction
variable {T : Type} [LinearOrder T]

theorem candidates_perm (s : Store T) (key : Key) :
    ((s.candidates key).map Prod.snd).Perm
      ((s.entries.rows.filter fun row => row.1 ≠ key ∧ row.2.task.terminal).map Prod.fst) := by
  have hperm := (List.mergeSort_perm
    ((s.entries.rows.filter fun row => row.1 ≠ key ∧ row.2.task.terminal).map fun row =>
      (row.2.updatedAt, row.1)) candidateLe).map Prod.snd
  simpa [candidates, List.map_map, Function.comp_def] using hperm

/-- Candidates are distinct stored terminal rows under other keys. -/
theorem candidates_spec (s : Store T) (key : Key) :
    ((s.candidates key).map Prod.snd).Nodup ∧
      ∀ k ∈ (s.candidates key).map Prod.snd,
        k ≠ key ∧ ∃ entry, s.entries.get? k = some entry ∧ entry.task.terminal = true := by
  have hperm := s.candidates_perm key
  constructor
  · rw [hperm.nodup_iff]
    exact s.entries.nodup.sublist (List.Sublist.map Prod.fst (List.filter_sublist))
  · intro k hk
    obtain ⟨⟨j, entry⟩, hmem, rfl⟩ := List.mem_map.mp (hperm.mem_iff.mp hk)
    obtain ⟨hin, hcond⟩ := List.mem_filter.mp hmem
    obtain ⟨hne, hterminal⟩ := of_decide_eq_true hcond
    exact ⟨hne, entry, (s.entries.get?_eq_some).mpr hin, hterminal⟩

variable [Zero T] {limits : Limits T}

theorem prune_shrinks [Sub T] (s : Store T) (now : T) : Shrinks s (s.prune limits now) := by
  apply removeAll_shrinks
  intro key hkey entry hrow
  obtain ⟨⟨k, e⟩, hmem, rfl⟩ := List.mem_map.mp hkey
  obtain ⟨hin, hexpired⟩ := List.mem_filter.mp hmem
  have hsame : entry = e := s.entries.row_unique ((s.entries.get?_eq_some).mp hrow) hin
  subst hsame
  simp only [expired, Bool.and_eq_true] at hexpired
  exact hexpired.1

/-! ## The eviction loop -/

/-- The chosen victims leave the projections within the limits. -/
theorem evictionLoop_spec {s : Store T} {count bytes : Int} {keys victims : List Key}
    (h : s.evictionLoop limits count bytes keys = some victims) :
    victims.Sublist keys ∧
      fits limits (count - victims.length) (bytes - (victims.map s.sizeAt).sum) = true := by
  induction keys generalizing count bytes victims with
  | nil => simp [evictionLoop] at h
  | cons victim rest ih =>
    unfold evictionLoop at h
    split at h
    · rename_i hfits
      obtain rfl := Option.some.inj h
      refine ⟨List.Sublist.cons_cons victim (List.nil_sublist rest), ?_⟩
      simpa using hfits
    · obtain ⟨more, hmore, rfl⟩ := Option.map_eq_some_iff.mp h
      obtain ⟨hsub, hfits⟩ := ih hmore
      refine ⟨List.Sublist.cons_cons victim hsub, ?_⟩
      simp only [List.length_cons, List.map_cons, List.sum_cons]
      have hcount : count - ((more.length + 1 : Nat) : Int) = count - 1 - more.length := by omega
      have hbytes : bytes - ((s.sizeAt victim + (more.map s.sizeAt).sum : Nat) : Int) =
          bytes - s.sizeAt victim - ((more.map s.sizeAt).sum : Nat) := by omega
      rw [hcount, hbytes]
      exact hfits

/-- What the victims of one save are, and that they make room for it. -/
theorem evictionsFor_spec {s : Store T} {key : Key} {size : Nat} {victims : List Key}
    (h : s.evictionsFor limits key size = some victims) :
    (∀ k ∈ victims, k ≠ key) ∧ Shrinks s (s.removeAll victims) ∧
      (((s.removeAll victims).remove key).entries.count : Int) + 1 ≤ limits.maxCount ∧
      ((s.removeAll victims).remove key).totalBytes + size ≤ limits.maxBytes := by
  obtain ⟨hcandidates, hterminal⟩ := s.candidates_spec key
  have hchosen : victims.Sublist ((s.candidates key).map Prod.snd) ∧
      fits limits ((s.entries.count + if s.entries.contains key then 0 else 1 : Int) - victims.length)
        (s.totalBytes - s.sizeAt key + size - (victims.map s.sizeAt).sum) = true := by
    unfold evictionsFor at h
    simp only at h
    generalize (s.entries.count + if s.entries.contains key then 0 else 1 : Int) = count at h ⊢
    split at h
    · rename_i hfits
      obtain rfl := Option.some.inj h
      exact ⟨List.nil_sublist _, by simpa using hfits⟩
    · exact evictionLoop_spec h
  obtain ⟨hsub, hfits⟩ := hchosen
  have hvictim := fun k hk => hterminal k (hsub.subset hk)
  have hne : ∀ k ∈ victims, k ≠ key := fun k hk => (hvictim k hk).1
  have hstored : ∀ k ∈ victims, s.entries.contains k = true := by
    intro k hk
    obtain ⟨_, entry, hrow, _⟩ := hvictim k hk
    simp [KeyedTable.contains, hrow]
  obtain ⟨hcount, htotal⟩ := removeAll_spent (hcandidates.sublist hsub) hstored
  have hkey : (s.removeAll victims).entries.get? key = s.entries.get? key := by
    rw [removeAll_get?, if_neg fun hk => hne key hk rfl]
  have hone := (s.removeAll victims).remove_count key
  have hsize := (s.removeAll victims).remove_total key
  rw [KeyedTable.contains, hkey, ← KeyedTable.contains] at hone
  rw [sizeAt, hkey, ← sizeAt] at hsize
  simp only [fits, Bool.and_eq_true, decide_eq_true_eq] at hfits
  refine ⟨hne, removeAll_shrinks ?_, ?_, ?_⟩
  · intro k hk entry hrow
    obtain ⟨_, e, he, hterm⟩ := hvictim k hk
    obtain rfl : e = entry := by simpa [hrow] using he.symm
    exact hterm
  · split at hone <;> simp_all <;> omega
  · omega

/-! ## The operations -/

variable [Sub T]

/-- A rejected task changes nothing but expired rows and, at most, a rejected row. -/
theorem discard_shrinks (s : Store T) (now : T) (key : Key) :
    Shrinks s (s.discard limits now key) := by
  have hprune : Shrinks s (s.prune limits now) := s.prune_shrinks now
  unfold discard
  simp only
  split
  · rename_i entry hrow
    split
    · rename_i hrejected
      refine hprune.trans ?_
      rw [show (s.prune limits now).remove key = (s.prune limits now).removeAll [key] from rfl]
      apply removeAll_shrinks
      intro k hk e he
      obtain rfl := List.mem_singleton.mp hk
      obtain rfl : entry = e := Option.some.inj (hrow.symm.trans he)
      exact Task.terminal_of_rejected hrejected
    · exact hprune
  · exact hprune

/-- A save stores its task over a shrunk table that has room for it. -/
structure Saves (limits : Limits T) (s t : Store T) (key : Key) (task : Task) : Prop where
  accepted : task.rejected = false
  stored : ∃ (mid : Store T) (entry : Entry T), Shrinks s mid ∧ entry.task = task ∧
    t = (mid.remove key).put key entry ∧
    ((mid.remove key).entries.count : Int) + 1 ≤ limits.maxCount ∧
    (mid.remove key).totalBytes + entry.size ≤ limits.maxBytes

theorem saveSized_cases {s t : Store T} {now : T} {key : Key} {task : Task} {size : Nat}
    {result : Except StoreError Unit} (haccepted : task.rejected = false)
    (h : s.saveSized limits now key task size = (result, t)) :
    (result ≠ .ok () ∧ Shrinks s t) ∨ (result = .ok () ∧ Saves limits s t key task) := by
  have hprune : Shrinks s (s.prune limits now) := s.prune_shrinks now
  unfold saveSized at h
  simp only at h
  split at h
  · obtain ⟨rfl, rfl⟩ := Prod.mk.inj h
    exact Or.inl ⟨by simp, hprune⟩
  · rename_i victims hvictims
    obtain ⟨rfl, rfl⟩ := Prod.mk.inj h
    obtain ⟨_, hshrinks, hcount, htotal⟩ := evictionsFor_spec hvictims
    exact Or.inr ⟨rfl, haccepted, _, ⟨task, now, size⟩, hprune.trans hshrinks, rfl, rfl, hcount,
      htotal⟩

/-- What `save` can do, by its result and the task it is given. -/
theorem save_cases {sdk : Sdk} {s t : Store T} {owner : PyStr} {task : Task} {now : T}
    {result : Except StoreError Unit} (h : s.save sdk limits owner task now = (result, t)) :
    (Shrinks s t ∧ (result = .ok () → task.rejected = true)) ∨
      (result = .ok () ∧ Saves limits s t (owner, task.id) task) := by
  unfold save at h
  split at h
  · obtain ⟨rfl, rfl⟩ := Prod.mk.inj h
    exact Or.inl ⟨Shrinks.refl s, by simp⟩
  · split at h
    · obtain ⟨rfl, rfl⟩ := Prod.mk.inj h
      exact Or.inl ⟨Shrinks.refl s, by simp⟩
    · split at h
      · obtain ⟨rfl, rfl⟩ := Prod.mk.inj h
        exact Or.inl ⟨Shrinks.refl s, by simp⟩
      · split at h
        · rename_i hrejected
          obtain ⟨rfl, rfl⟩ := Prod.mk.inj h
          exact Or.inl ⟨discard_shrinks s now _, fun _ => hrejected⟩
        · rename_i haccepted
          simp only at h
          split at h
          · obtain ⟨rfl, rfl⟩ := Prod.mk.inj h
            exact Or.inl ⟨Shrinks.refl s, by simp⟩
          · rcases saveSized_cases (by simpa using haccepted) h with ⟨hfail, hshrinks⟩ | hsaved
            · exact Or.inl ⟨hshrinks, fun hok => absurd hok hfail⟩
            · exact Or.inr hsaved

theorem get_shrinks (s : Store T) (owner taskId : PyStr) (now : T) :
    Shrinks s (s.get limits owner taskId now).2 := by
  unfold get
  split
  · exact Shrinks.refl s
  · split
    · exact Shrinks.refl s
    · exact s.prune_shrinks now

/-- A lookup returns the task of the row, which pruning left as it was. -/
theorem get_some {s t : Store T} {owner taskId : PyStr} {now : T} {task : Task}
    (h : s.get limits owner taskId now = (.ok (some task), t)) :
    ∃ entry, s.entries.get? (owner, taskId) = some entry ∧ entry.task = task := by
  unfold get at h
  split at h
  · cases h
  · split at h
    · cases h
    · simp only [Prod.mk.injEq, Except.ok.injEq, Option.map_eq_some_iff] at h
      obtain ⟨⟨entry, hrow, htask⟩, _⟩ := h
      exact ⟨entry, (s.prune_shrinks now).adds _ _ hrow, htask⟩

theorem list_shrinks {sdk : Sdk} (s : Store T) (owner : PyStr) (params : ListTasksRequest) (now : T) :
    Shrinks s (s.list sdk limits owner params now).2 := by
  unfold list
  split
  · exact Shrinks.refl s
  · exact s.prune_shrinks now

theorem delete_cases (limits : Limits T) (s : Store T) (owner taskId : PyStr) (now : T) :
    Shrinks s (s.delete limits owner taskId now).2 ∨
      ∃ mid, Shrinks s mid ∧ (s.delete limits owner taskId now).2 = mid.remove (owner, taskId) := by
  unfold delete
  split
  · exact Or.inl (Shrinks.refl s)
  · exact Or.inr ⟨_, s.prune_shrinks now, rfl⟩

end Eviction

end Store

/-! ## Runs -/

section Runs
variable {T : Type}

theorem put_get? (s : Store T) (key other : Key) (entry : Entry T) :
    ((s.remove key).put key entry).entries.get? other =
      if other = key then some entry else s.entries.get? other := by
  simp only [Store.put, KeyedTable.get?_set, Store.remove_get?]
  split <;> rfl

/-- Storing a row under a key that was just removed adds its size once. -/
theorem put_spent {s : Store T} (hcounted : s.Counted) (key : Key) (entry : Entry T) :
    ((s.remove key).put key entry).Counted ∧
      ((s.remove key).put key entry).entries.count = (s.remove key).entries.count + 1 := by
  have habsent : (s.remove key).entries.get? key = none := by simp
  have hremoved := Store.remove_counted hcounted key
  have hweight := KeyedTable.weight_set_of_absent _ entry (fun row => row.2.size) habsent
  have hone := KeyedTable.weight_set_of_absent _ entry (fun _ => 1) habsent
  simp only [← KeyedTable.count_eq_weight] at hone
  refine ⟨?_, hone⟩
  unfold Store.Counted at hremoved ⊢
  simp only [Store.put, hweight, hremoved]
  omega

/-- One call, with what the clock answers in it. -/
inductive Op (T : Type) where
  | save (owner : PyStr) (task : Task) (now : T)
  | get (owner taskId : PyStr) (now : T)
  | list (owner : PyStr) (params : ListTasksRequest) (now : T)
  | delete (owner taskId : PyStr) (now : T)
  | stats (now : T)

def Op.owner : Op T → Option PyStr
  | .save owner _ _ | .get owner _ _ | .list owner _ _ | .delete owner _ _ => some owner
  | .stats _ => none

/-- The store and what was saved successfully, the last first; rejected tasks are not saved. -/
structure History (T : Type) where
  store : Store T
  saved : List (Key × Task)

def History.lastSaved (h : History T) (key : Key) : Option Task :=
  (h.saved.find? fun item => item.1 = key).map Prod.snd

theorem lastSaved_of_cons {h t : History T} {key : Key} {task : Task}
    (hsaved : t.saved = (key, task) :: h.saved) (other : Key) :
    t.lastSaved other = if other = key then some task else h.lastSaved other := by
  unfold History.lastSaved
  rw [hsaved]
  by_cases heq : other = key
  · simp [heq]
  · have hne : key ≠ other := fun h => heq h.symm
    simp [heq, hne]

variable [LinearOrder T] [Zero T] [Sub T] (sdk : Sdk) (limits : Limits T)

def perform (h : History T) : Op T → History T
  | .save owner task now =>
    let r := h.store.save sdk limits owner task now
    ⟨r.2, if r.1 = .ok () ∧ task.rejected = false then ((owner, task.id), task) :: h.saved
      else h.saved⟩
  | .get owner taskId now => { h with store := (h.store.get limits owner taskId now).2 }
  | .list owner params now => { h with store := (h.store.list sdk limits owner params now).2 }
  | .delete owner taskId now => { h with store := (h.store.delete limits owner taskId now).2 }
  | .stats now => { h with store := (h.store.stats limits now).2 }

def History.start : History T := ⟨.empty, []⟩

/-- The state after the calls, in the order in which they got the lock. -/
def performAll (ops : List (Op T)) : History T := ops.foldl (perform sdk limits) .start

/-- The call deletes this key, or saves a task under it. -/
def Op.Replaces (h : History T) (key : Key) : Op T → Prop
  | .delete owner taskId _ => (owner, taskId) = key
  | .save owner task now =>
    (owner, task.id) = key ∧ (h.store.save sdk limits owner task now).1 = .ok ()
  | _ => False

/-- Everything one call can do to the store. -/
theorem perform_cases (h : History T) (op : Op T) :
    (Store.Shrinks h.store (perform sdk limits h op).store ∧
      (perform sdk limits h op).saved = h.saved) ∨
    (∃ owner taskId now mid, op = .delete owner taskId now ∧ Store.Shrinks h.store mid ∧
      (perform sdk limits h op).store = mid.remove (owner, taskId) ∧
      (perform sdk limits h op).saved = h.saved) ∨
    (∃ owner task now, op = .save owner task now ∧
      (h.store.save sdk limits owner task now).1 = .ok () ∧
      Store.Saves limits h.store (perform sdk limits h op).store (owner, task.id) task ∧
      (perform sdk limits h op).saved = ((owner, task.id), task) :: h.saved) := by
  cases op with
  | save owner task now =>
    rcases Store.save_cases (Prod.ext rfl rfl : h.store.save sdk limits owner task now =
        (_, _)) with ⟨hshrinks, hrejected⟩ | ⟨hok, hsaves⟩
    · refine Or.inl ⟨hshrinks, if_neg ?_⟩
      rintro ⟨hok, haccepted⟩
      rw [hrejected hok] at haccepted
      cases haccepted
    · exact Or.inr (Or.inr ⟨owner, task, now, rfl, hok, hsaves, if_pos ⟨hok, hsaves.accepted⟩⟩)
  | get owner taskId now => exact Or.inl ⟨h.store.get_shrinks owner taskId now, rfl⟩
  | list owner params now => exact Or.inl ⟨h.store.list_shrinks owner params now, rfl⟩
  | delete owner taskId now =>
    rcases h.store.delete_cases limits owner taskId now with hshrinks | ⟨mid, hmid, heq⟩
    · exact Or.inl ⟨hshrinks, rfl⟩
    · exact Or.inr (Or.inl ⟨owner, taskId, now, mid, rfl, hmid, heq, rfl⟩)
  | stats now => exact Or.inl ⟨h.store.prune_shrinks now, rfl⟩

variable {sdk limits}

structure Bounded (limits : Limits T) (h : History T) : Prop where
  counted : h.store.Counted
  bytes : h.store.totalBytes ≤ limits.maxBytes
  count : h.store.entries.count ≤ limits.maxCount
  clean : ∀ key entry, h.store.entries.get? key = some entry → entry.task.rejected = false
  saved : ∀ key entry, h.store.entries.get? key = some entry → h.lastSaved key = some entry.task

theorem perform_bounded {h : History T} (hb : Bounded limits h) (op : Op T) :
    Bounded limits (perform sdk limits h op) := by
  rcases perform_cases sdk limits h op with
    ⟨hshrinks, hsaved⟩ | ⟨owner, taskId, now, mid, rfl, hmid, hstore, hsaved⟩ |
    ⟨owner, task, now, rfl, hok, hsaves, hsaved⟩
  · refine ⟨hshrinks.counted hb.counted, Int.le_trans hshrinks.total hb.bytes,
      Nat.le_trans hshrinks.count hb.count, ?_, ?_⟩
    · intro key entry hrow
      exact hb.clean key entry (hshrinks.adds key entry hrow)
    · intro key entry hrow
      rw [History.lastSaved, hsaved]
      exact hb.saved key entry (hshrinks.adds key entry hrow)
  · have hcount := mid.remove_count (owner, taskId)
    have htotal := mid.remove_total (owner, taskId)
    have hmidcount := hmid.count
    have hmidtotal := hmid.total
    have hrows : ∀ key entry,
        (perform sdk limits h (.delete owner taskId now)).store.entries.get? key =
        some entry → h.store.entries.get? key = some entry := by
      intro key entry hrow
      rw [hstore, Store.remove_get?] at hrow
      split at hrow
      · cases hrow
      · exact hmid.adds key entry hrow
    refine ⟨?_, ?_, ?_, fun key entry hrow => hb.clean key entry (hrows key entry hrow), ?_⟩
    · rw [hstore]
      exact Store.remove_counted (hmid.counted hb.counted) _
    · have := hb.bytes
      rw [hstore]
      omega
    · have := hb.count
      rw [hstore]
      omega
    · intro key entry hrow
      rw [History.lastSaved, hsaved]
      exact hb.saved key entry (hrows key entry hrow)
  · obtain ⟨haccepted, mid, entry, hmid, rfl, hstore, hcount, hbytes⟩ := hsaves
    obtain ⟨hcounted, hgrown⟩ := put_spent (hmid.counted hb.counted) (owner, entry.task.id) entry
    refine ⟨by rw [hstore]; exact hcounted, by rw [hstore]; exact hbytes, ?_, ?_, ?_⟩
    · rw [hstore, hgrown]
      omega
    · intro key e hrow
      rw [hstore, put_get?] at hrow
      split at hrow
      · obtain rfl := Option.some.inj hrow
        exact haccepted
      · exact hb.clean key e (hmid.adds key e hrow)
    · intro key e hrow
      rw [hstore, put_get?] at hrow
      rw [lastSaved_of_cons hsaved]
      split at hrow
      · rename_i hkey
        obtain rfl := Option.some.inj hrow
        rw [if_pos hkey]
      · rename_i hkey
        rw [if_neg hkey]
        exact hb.saved key e (hmid.adds key e hrow)

theorem performAll_bounded (ops : List (Op T)) : Bounded limits (performAll sdk limits ops) := by
  have hall : ∀ h : History T, Bounded limits h →
      Bounded limits (ops.foldl (perform sdk limits) h) := by
    induction ops with
    | nil => exact fun h hb => hb
    | cons op ops ih => exact fun h hb => ih _ (perform_bounded hb op)
  apply hall
  refine ⟨rfl, ?_, Nat.zero_le _, by simp [History.start, Store.empty],
    by simp [History.start, Store.empty]⟩
  exact Int.natCast_nonneg _

/-- A row that a call does not replace stays, or was terminal and is gone. -/
theorem perform_row (h : History T) (op : Op T) {key : Key} {entry : Entry T}
    (hrow : h.store.entries.get? key = some entry) (hop : ¬ op.Replaces sdk limits h key) :
    (perform sdk limits h op).store.entries.get? key = some entry ∨
      ((perform sdk limits h op).store.entries.get? key = none ∧ entry.task.terminal = true) := by
  rcases perform_cases sdk limits h op with
    ⟨hshrinks, _⟩ | ⟨owner, taskId, now, mid, rfl, hmid, hstore, _⟩ |
    ⟨owner, task, now, rfl, hok, hsaves, _⟩
  · exact hshrinks.keeps key entry hrow
  · have hne : key ≠ (owner, taskId) := fun heq => hop heq.symm
    rw [hstore, Store.remove_get?, if_neg hne]
    exact hmid.keeps key entry hrow
  · obtain ⟨_, mid, e, hmid, _, hstore, _⟩ := hsaves
    have hne : key ≠ (owner, task.id) := fun heq => hop ⟨heq.symm, hok⟩
    rw [hstore, put_get?, if_neg hne]
    exact hmid.keeps key entry hrow

/-- The store after any run: its totals, its rows, what a lookup can return, and what the
next call can do to a row. -/
theorem bounded_store_invariant (sdk : Sdk) (limits : Limits T) (ops : List (Op T)) :
    let h := performAll sdk limits ops
    h.store.totalBytes = (h.store.entries.weight fun row => row.2.size : Nat) ∧
    h.store.totalBytes ≤ limits.maxBytes ∧
    h.store.entries.count ≤ limits.maxCount ∧
    (∀ key entry, h.store.entries.get? key = some entry → entry.task.state ≠ .rejected) ∧
    (∀ op key entry, h.store.entries.get? key = some entry → entry.task.terminal = false →
      (perform sdk limits h op).store.entries.get? key ≠ some entry →
      op.Replaces sdk limits h key) ∧
    (∀ owner taskId now task t, h.store.get limits owner taskId now = (.ok (some task), t) →
      h.lastSaved (owner, taskId) = some task ∧ task.state ≠ .rejected) ∧
    (∀ (op : Op T) key entry, op.owner ≠ some key.1 → h.store.entries.get? key = some entry →
      (perform sdk limits h op).store.entries.get? key = some entry ∨
      ((perform sdk limits h op).store.entries.get? key = none ∧ entry.task.terminal = true)) := by
  intro h
  have hb : Bounded limits h := performAll_bounded ops
  refine ⟨hb.counted, hb.bytes, hb.count, ?_, ?_, ?_, ?_⟩
  · intro key entry hrow
    simpa [Task.rejected] using hb.clean key entry hrow
  · intro op key entry hrow hactive hlost
    by_contra hop
    rcases perform_row h op hrow hop with hkept | ⟨_, hterminal⟩
    · exact hlost hkept
    · rw [hactive] at hterminal
      cases hterminal
  · intro owner taskId now task t hget
    obtain ⟨entry, hrow, rfl⟩ := Store.get_some hget
    exact ⟨hb.saved _ entry hrow, by simpa [Task.rejected] using hb.clean _ entry hrow⟩
  · intro op key entry howner hrow
    refine perform_row h op hrow fun hop => howner ?_
    cases op with
    | save owner task now => rw [← hop.1]; rfl
    | delete owner taskId now => rw [← show (owner, taskId) = key from hop]; rfl
    | get | list | stats => exact hop.elim

end Runs

end Rdap.Server
