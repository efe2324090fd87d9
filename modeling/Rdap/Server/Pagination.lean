import Rdap.Server.Listing

/-!
# Following the page tokens

A page token names the task with which the next page begins. An owner's tasks have distinct ids, so
that the name leads back to where the last page stopped, and every page goes on until the listing
is used up.
-/

set_option autoImplicit false

namespace Rdap.Server
open Python Lib

section
variable {T : Type}

/-! ## Ids -/

/-- A row stands under the id of its task, and that id can go into a page token. -/
structure Named (s : Store T) : Prop where
  id : ∀ key entry, s.entries.get? key = some entry → key.2 = entry.task.id
  nonempty : ∀ key entry, s.entries.get? key = some entry → entry.task.id ≠ []
  encodable : ∀ key entry, s.entries.get? key = some entry → ∃ bytes, encodeUtf8 entry.task.id = .ok bytes

theorem Named.of_adds {s t : Store T} (hs : Named s)
    (h : ∀ key entry, t.entries.get? key = some entry → s.entries.get? key = some entry) : Named t where
  id key entry hrow := hs.id key entry (h key entry hrow)
  nonempty key entry hrow := hs.nonempty key entry (h key entry hrow)
  encodable key entry hrow := hs.encodable key entry (h key entry hrow)

theorem encodeUtf8_of_checkTaskId {taskId message : PyStr} (h : checkTaskId taskId message = .ok ()) :
    ∃ bytes, encodeUtf8 taskId = .ok bytes := by
  unfold checkTaskId utf8Length at h
  cases hbytes : encodeUtf8 taskId with
  | ok bytes => exact ⟨bytes, rfl⟩
  | error e =>
    rw [hbytes] at h
    cases h

theorem own_ids_nodup {s : Store T} (hnamed : Named s) (owner : PyStr) : ((s.own owner).map Task.id).Nodup := by
  have hrows : ∀ row ∈ s.entries.rows.filter (fun row => row.1.1 = owner),
      row.1.1 = owner ∧ row.2.task.id = row.1.2 := by
    intro row hrow
    obtain ⟨hin, howner⟩ := List.mem_filter.mp hrow
    exact ⟨of_decide_eq_true howner, (hnamed.id row.1 row.2 ((s.entries.get?_eq_some).mpr hin)).symm⟩
  have hkeys : ((s.entries.rows.filter fun row => row.1.1 = owner).map Prod.fst).Nodup :=
    s.entries.nodup.sublist (List.Sublist.map Prod.fst List.filter_sublist)
  rw [Store.own, List.map_map]
  apply List.Nodup.map_on ?_ (List.Nodup.of_map Prod.fst hkeys)
  intro a ha b hb hids
  obtain ⟨howner, hid⟩ := hrows a ha
  obtain ⟨howner', hid'⟩ := hrows b hb
  have hkey : a.1 = b.1 := by
    refine Prod.ext (howner.trans howner'.symm) ?_
    rw [← hid, ← hid']
    exact hids
  exact List.inj_on_of_nodup_map hkeys ha hb hkey

theorem listing_ids_nodup {s : Store T} (hnamed : Named s) (owner : PyStr) (params : ListTasksRequest) (sdk : Sdk) :
    ((s.listing sdk owner params).map Task.id).Nodup := by
  have hperm := ((List.mergeSort_perm ((s.own owner).filter (listed sdk params)) (listLe sdk)).map Task.id)
  rw [Store.listing, hperm.nodup_iff]
  exact (own_ids_nodup hnamed owner).sublist (List.Sublist.map Task.id List.filter_sublist)

variable [LinearOrder T] [Zero T] [Sub T] {sdk : Sdk} {limits : Limits T}

theorem save_ok {s : Store T} {owner : PyStr} {task : Task} {now : T}
    (h : (s.save sdk limits owner task now).1 = .ok ()) :
    task.id ≠ [] ∧ ∃ bytes, encodeUtf8 task.id = .ok bytes := by
  unfold Store.save at h
  split at h
  · cases h
  · split at h
    · cases h
    · rename_i hid
      split at h
      · cases h
      · rename_i hlength
        exact ⟨hid, encodeUtf8_of_checkTaskId hlength⟩

theorem perform_named {h : History T} (hnamed : Named h.store) (op : Op T) :
    Named (perform sdk limits h op).store := by
  rcases perform_cases sdk limits h op with
    ⟨hshrinks, -⟩ | ⟨owner, taskId, now, mid, rfl, hmid, hstore, -⟩ |
    ⟨owner, task, now, rfl, hok, hsaves, -⟩
  · exact hnamed.of_adds hshrinks.adds
  · rw [hstore]
    apply hnamed.of_adds
    intro key entry hrow
    rw [Store.remove_get?] at hrow
    split at hrow
    · cases hrow
    · exact hmid.adds key entry hrow
  · obtain ⟨hid, hbytes⟩ := save_ok hok
    obtain ⟨-, mid, e, hmid, htask, hstore, -⟩ := hsaves
    rw [hstore]
    have hrows : ∀ key entry, ((mid.remove (owner, task.id)).put (owner, task.id) e).entries.get? key =
        some entry → (key = (owner, task.id) ∧ entry = e) ∨ h.store.entries.get? key = some entry := by
      intro key entry hrow
      rw [put_get?] at hrow
      split at hrow
      · rename_i hkey
        exact Or.inl ⟨hkey, (Option.some.inj hrow).symm⟩
      · exact Or.inr (hmid.adds key entry hrow)
    constructor
    · intro key entry hrow
      rcases hrows key entry hrow with ⟨rfl, rfl⟩ | hold
      · rw [htask]
      · exact hnamed.id key entry hold
    · intro key entry hrow
      rcases hrows key entry hrow with ⟨rfl, rfl⟩ | hold
      · rw [htask]
        exact hid
      · exact hnamed.nonempty key entry hold
    · intro key entry hrow
      rcases hrows key entry hrow with ⟨rfl, rfl⟩ | hold
      · rw [htask]
        exact hbytes
      · exact hnamed.encodable key entry hold

theorem performAll_named (ops : List (Op T)) : Named (performAll sdk limits ops).store := by
  have hall : ∀ h : History T, Named h.store → Named (ops.foldl (perform sdk limits) h).store := by
    induction ops with
    | nil => exact fun h hnamed => hnamed
    | cons op ops ih => exact fun h hnamed => ih _ (perform_named hnamed op)
  apply hall
  constructor <;> simp [History.start, Store.empty]

/-! ## Following -/

/-- The pages that a client sees who follows the tokens from the given one on, if no more than the
given number of calls comes to a page without a token. `clock` tells the time of each call. -/
def follow (sdk : Sdk) (limits : Limits T) (owner : PyStr) (params : ListTasksRequest) (clock : Nat → T) :
    Nat → Nat → Store T → PyStr → Option (List (List Task))
  | 0, _, _, _ => none
  | n + 1, call, s, token =>
    match s.list sdk limits owner { params with pageToken := token } (clock call) with
    | (.error _, _) => none
    | (.ok response, next) =>
      match response.nextPageToken with
      | none => some [response.tasks]
      | some token => (follow sdk limits owner params clock n (call + 1) next token).map (response.tasks :: ·)

/-- The token leads to the given place of the listing. -/
def Leads (sdk : Sdk) (tasks : List Task) (start : Nat) (token : PyStr) : Prop :=
  ∀ params : ListTasksRequest, params.pageToken = token → startIndex sdk params tasks = .ok start

theorem leads_start (sdk : Sdk) (tasks : List Task) : Leads sdk tasks 0 [] := by
  intro params h
  exact if_pos h

theorem leads_token {tasks : List Task} (hnodup : (tasks.map Task.id).Nodup) {start : Nat} {task : Task}
    (htask : tasks[start]? = some task)
    (hinverse : sdk.decodePageToken (sdk.encodePageToken task.id) = .ok task.id)
    (hnonempty : sdk.encodePageToken task.id ≠ []) : Leads sdk tasks start (sdk.encodePageToken task.id) := by
  obtain ⟨hlt, hget⟩ := List.getElem?_eq_some_iff.mp htask
  have hfind : tasks.findIdx? (fun t => t.id = task.id) = some start := by
    rw [List.findIdx?_eq_some_iff_getElem]
    refine ⟨hlt, by simp [hget], ?_⟩
    intro j hj
    have hj' : j < (tasks.map Task.id).length := by
      rw [List.length_map]
      exact Nat.lt_trans hj hlt
    have hstart : start < (tasks.map Task.id).length := by
      rw [List.length_map]
      exact hlt
    have hne : tasks[j].id ≠ task.id := by
      intro heq
      have hids : (tasks.map Task.id)[j] = (tasks.map Task.id)[start] := by
        rw [List.getElem_map, List.getElem_map, heq, hget]
      exact absurd ((hnodup.getElem_inj_iff).mp hids) (Nat.ne_of_lt hj)
    simpa using hne
  intro params h
  unfold startIndex
  rw [h, if_neg hnonempty, hinverse]
  simp only [bind, Except.bind, hfind]
  rfl

/-- One page, from wherever a token leads. -/
theorem list_page {s : Store T} {owner : PyStr} {ownerBytes : Nat} (howner : checkOwner owner = .ok ownerBytes)
    {params : ListTasksRequest} (hsize : 0 < params.pageSize) {now : T} (hunchanged : s.prune limits now = s)
    {start : Nat} {token : PyStr} (hleads : Leads sdk (s.listing sdk owner params) start token) :
    s.list sdk limits owner { params with pageToken := token } now =
      (.ok
        { nextPageToken := ((s.listing sdk owner params)[start + pageLength sdk limits params.pageSize]?).map
            fun task => sdk.encodePageToken task.id
          tasks := ((s.listing sdk owner params).drop start).take (pageLength sdk limits params.pageSize)
          totalSize := (s.listing sdk owner params).length
          pageSize := pageLength sdk limits params.pageSize }, s) := by
  rw [list_eq limits s _ now howner, hunchanged]
  have hstart : startIndex sdk { params with pageToken := token } (s.listing sdk owner params) = .ok start :=
    hleads _ rfl
  have hpaged : s.listing sdk owner { params with pageToken := token } = s.listing sdk owner params := rfl
  rw [hpaged, page_of_positive hstart hsize]

/-- From a place of the listing on, the pages show the rest of it. -/
theorem follow_from {s : Store T} {owner : PyStr} {ownerBytes : Nat} (howner : checkOwner owner = .ok ownerBytes)
    (params : ListTasksRequest) (hsize : 0 < params.pageSize) {clock : Nat → T}
    (hunchanged : ∀ call, s.prune limits (clock call) = s)
    (htokens : ∀ start task, (s.listing sdk owner params)[start]? = some task →
      Leads sdk (s.listing sdk owner params) start (sdk.encodePageToken task.id))
    {n start call : Nat} {token : PyStr} (hleads : Leads sdk (s.listing sdk owner params) start token)
    (henough : (s.listing sdk owner params).length < start + n) (hn : 0 < n) :
    ∃ pages, follow sdk limits owner params clock n call s token = some pages ∧
      pages.flatten = (s.listing sdk owner params).drop start := by
  induction n generalizing start call token with
  | zero => exact absurd hn (lt_irrefl 0)
  | succ n ih =>
    have hpos := pageLength_pos sdk limits hsize
    unfold follow
    rw [list_page howner hsize (hunchanged call) hleads]
    simp only
    cases hnext : (s.listing sdk owner params)[start + pageLength sdk limits params.pageSize]? with
    | none =>
      refine ⟨_, rfl, ?_⟩
      rw [List.flatten_singleton]
      apply List.take_of_length_le
      rw [List.length_drop]
      have := List.getElem?_eq_none_iff.mp hnext
      omega
    | some task =>
      obtain ⟨hlt, -⟩ := List.getElem?_eq_some_iff.mp hnext
      have hrest : ∃ pages, follow sdk limits owner params clock n (call + 1) s (sdk.encodePageToken task.id) =
          some pages ∧ pages.flatten = _ := ih (htokens _ task hnext) (by omega) (by omega)
      obtain ⟨pages, hpages, hflatten⟩ := hrest
      refine ⟨((s.listing sdk owner params).drop start).take (pageLength sdk limits params.pageSize) :: pages,
        ?_, ?_⟩
      · simp only [Option.map_some, hpages]
      · rw [List.flatten_cons, hflatten, ← List.drop_drop, List.take_append_drop]

/-- Following the tokens from the first page on shows each task of the owner that the filters ask
for once, in an order that the page size does not change, and comes to an end. -/
theorem pages_complete (sdk : Sdk) (limits : Limits T) (ops : List (Op T)) {owner : PyStr} {ownerBytes : Nat}
    (howner : checkOwner owner = .ok ownerBytes)
    (hinverse : ∀ id bytes, encodeUtf8 id = .ok bytes → id ≠ [] →
      sdk.decodePageToken (sdk.encodePageToken id) = .ok id ∧ sdk.encodePageToken id ≠ [])
    (params : ListTasksRequest) :
    let s := (performAll sdk limits ops).store
    ∃ order : List Task, (order.map Task.id).Nodup ∧
      (∀ task, task ∈ order ↔ (∃ key entry, s.entries.get? key = some entry ∧ key.1 = owner ∧
        entry.task = task) ∧ listed sdk params task = true) ∧
      ∀ (clock : Nat → T) (pageSize : Int), (∀ call, s.prune limits (clock call) = s) → 0 < pageSize →
        ∃ n pages, follow sdk limits owner { params with pageSize := pageSize } clock n 0 s [] = some pages ∧
          pages.flatten = order := by
  intro s
  have hnamed : Named s := performAll_named ops
  have hnodup := listing_ids_nodup hnamed owner params sdk
  refine ⟨s.listing sdk owner params, hnodup, ?_, ?_⟩
  · intro task
    rw [mem_listing, mem_own]
  · intro clock pageSize hunchanged hsize
    have htokens : ∀ start task, (s.listing sdk owner params)[start]? = some task →
        Leads sdk (s.listing sdk owner params) start (sdk.encodePageToken task.id) := by
      intro start task htask
      obtain ⟨hown, -⟩ := mem_listing.mp (List.mem_of_getElem? htask)
      obtain ⟨key, entry, hrow, -, rfl⟩ := mem_own.mp hown
      obtain ⟨bytes, hbytes⟩ := hnamed.encodable key entry hrow
      obtain ⟨hdecode, hnonempty⟩ := hinverse _ bytes hbytes (hnamed.nonempty key entry hrow)
      exact leads_token hnodup htask hdecode hnonempty
    refine ⟨(s.listing sdk owner params).length + 1, ?_⟩
    have hpaged : s.listing sdk owner { params with pageSize := pageSize } = s.listing sdk owner params := rfl
    have hlength : (s.listing sdk owner { params with pageSize := pageSize }).length <
        0 + ((s.listing sdk owner params).length + 1) := by
      rw [hpaged]
      omega
    have hfollow : ∃ pages, follow sdk limits owner { params with pageSize := pageSize } clock
        ((s.listing sdk owner params).length + 1) 0 s [] = some pages ∧
        pages.flatten = (s.listing sdk owner params).drop 0 :=
      follow_from howner { params with pageSize := pageSize } hsize hunchanged htokens (leads_start sdk _)
        hlength (Nat.succ_pos _)
    exact hfollow

def threeSaves : List (Op Int) :=
  [.save (lit "a") (taskSince (lit "x") 0 0) 0, .save (lit "a") (taskSince (lit "y") 0 0) 0,
    .save (lit "a") (taskSince (lit "z") 0 0) 0]

/-- Three tasks on pages of two: each of them is on one page. -/
theorem three_tasks_on_pages_of_two :
    ∃ n pages, follow (plainSdk fun _ => []) plainLimits (lit "a") { allTasks none with pageSize := 2 }
      (fun _ => 0) n 0 (performAll (plainSdk fun _ => []) plainLimits threeSaves).store [] = some pages ∧
      (pages.flatten.map Task.id).Nodup ∧
      ∀ id ∈ [lit "x", lit "y", lit "z"], id ∈ pages.flatten.map Task.id := by
  obtain ⟨order, hnodup, horder, hpages⟩ := pages_complete (plainSdk fun _ => []) plainLimits threeSaves
    (rfl : checkOwner (lit "a") = .ok 1) (fun _ _ _ h => ⟨rfl, h⟩) (allTasks none)
  obtain ⟨n, pages, hfollow, rfl⟩ := hpages (fun _ => 0) 2 (fun _ => rfl) (by decide)
  refine ⟨n, pages, hfollow, hnodup, ?_⟩
  have hstored : ∀ id ∈ [lit "x", lit "y", lit "z"],
      ((performAll (plainSdk fun _ => []) plainLimits threeSaves).store.entries.get?
        (lit "a", id)).any (fun entry => entry.task.id = id ∧
          listed (plainSdk fun _ => []) (allTasks none) entry.task = true) = true := by
    decide +kernel
  intro id hid
  obtain ⟨entry, hrow, hentry⟩ := (Option.any_eq_true _ _).mp (hstored id hid)
  obtain ⟨hsame, hlisted⟩ := of_decide_eq_true hentry
  exact List.mem_map.mpr ⟨entry.task, (horder entry.task).mpr ⟨⟨_, entry, hrow, rfl, rfl⟩, hlisted⟩, hsame⟩

end

end Rdap.Server
