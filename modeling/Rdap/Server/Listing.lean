import Rdap.Server.StoreInvariant

/-!
# The listing of an owner's tasks

A call of `list` sorts what it keeps of the owner's tasks and cuts one page out of it. The sort
key ends with the task id, and an owner has one task for an id, so that the order is strict.
-/

set_option autoImplicit false

namespace Rdap.Server
open Python Lib

section
variable {T : Type} (sdk : Sdk)

namespace Store

/-- The tasks of an owner. -/
def own (s : Store T) (owner : PyStr) : List Task :=
  (s.entries.rows.filter fun row => row.1.1 = owner).map fun row => row.2.task

/-- All that the pages of a call show, in their order. -/
def listing (s : Store T) (owner : PyStr) (params : ListTasksRequest) : List Task :=
  ((s.own owner).filter (listed sdk params)).mergeSort (listLe sdk)

end Store

/-! ## The order -/

/-- The sort key as one value of a linear order. -/
def listRank (task : Task) : Bool ×ₗ PyStr ×ₗ PyStr :=
  toLex ((listKey sdk task).1, toLex ((listKey sdk task).2.1, (listKey sdk task).2.2))

theorem listLe_iff (a b : Task) : listLe sdk a b = true ↔ listRank sdk b ≤ listRank sdk a := by
  simp [listLe, listRank, Prod.Lex.le_iff]

theorem listLe_trans (a b c : Task) (hab : listLe sdk a b = true) (hbc : listLe sdk b c = true) :
    listLe sdk a c = true := by
  rw [listLe_iff] at hab hbc ⊢
  exact le_trans hbc hab

theorem listLe_total (a b : Task) : (listLe sdk a b || listLe sdk b a) = true := by
  rw [Bool.or_eq_true, listLe_iff, listLe_iff]
  exact le_total _ _

variable {sdk}

theorem listing_sorted (s : Store T) (owner : PyStr) (params : ListTasksRequest) :
    (s.listing sdk owner params).Pairwise fun a b => listLe sdk a b = true :=
  List.pairwise_mergeSort (listLe_trans sdk) (listLe_total sdk) _

theorem mem_listing {s : Store T} {owner : PyStr} {params : ListTasksRequest} {task : Task} :
    task ∈ s.listing sdk owner params ↔ task ∈ s.own owner ∧ listed sdk params task = true := by
  rw [Store.listing, List.mem_mergeSort, List.mem_filter]

theorem mem_own {s : Store T} {owner : PyStr} {task : Task} :
    task ∈ s.own owner ↔
      ∃ key entry, s.entries.get? key = some entry ∧ key.1 = owner ∧ entry.task = task := by
  unfold Store.own
  constructor
  · intro h
    obtain ⟨⟨key, entry⟩, hrow, htask⟩ := List.mem_map.mp h
    obtain ⟨hin, howner⟩ := List.mem_filter.mp hrow
    exact ⟨key, entry, (s.entries.get?_eq_some).mpr hin, of_decide_eq_true howner, htask⟩
  · rintro ⟨key, entry, hrow, howner, htask⟩
    refine List.mem_map.mpr ⟨(key, entry), List.mem_filter.mpr ⟨?_, decide_eq_true howner⟩, htask⟩
    exact (s.entries.get?_eq_some).mp hrow

theorem own_length_le (s : Store T) (owner : PyStr) : (s.own owner).length ≤ s.entries.count := by
  rw [Store.own, List.length_map]
  exact List.length_filter_le _ _

theorem listing_length_le (s : Store T) (owner : PyStr) (params : ListTasksRequest) :
    (s.listing sdk owner params).length ≤ s.entries.count := by
  rw [Store.listing, List.length_mergeSort]
  exact Nat.le_trans (List.length_filter_le _ _) (own_length_le s owner)

/-! ## Pages -/

variable [LinearOrder T] [Zero T] {limits : Limits T}

/-- How many tasks a page holds at most. -/
def pageLength (sdk : Sdk) (limits : Limits T) (pageSize : Int) : Nat :=
  min (if pageSize = 0 then sdk.defaultListTasksPageSize else pageSize).toNat limits.maxCount

/-- A page is a stretch of the listing. -/
theorem page_ok {params : ListTasksRequest} {tasks : List Task} {response : ListTasksResponse}
    (h : page sdk limits params tasks = .ok response) :
    ∃ start, startIndex sdk params tasks = .ok start ∧
      response.tasks = (tasks.drop start).take (pageLength sdk limits params.pageSize) ∧
      response.nextPageToken =
        (tasks[start + pageLength sdk limits params.pageSize]?).map fun task => sdk.encodePageToken task.id := by
  unfold page at h
  cases hstart : startIndex sdk params tasks with
  | error e =>
    rw [hstart] at h
    cases h
  | ok start =>
    rw [hstart] at h
    simp only [bind, Except.bind] at h
    generalize hsize : (if params.pageSize = 0 then sdk.defaultListTasksPageSize else params.pageSize) = size at h
    split at h
    · cases h
    · obtain rfl := Except.ok.inj h
      refine ⟨start, rfl, ?_, ?_⟩
      · rw [pageLength, hsize]
      · rw [pageLength, hsize]

theorem page_of_positive {params : ListTasksRequest} {tasks : List Task} {start : Nat}
    (hstart : startIndex sdk params tasks = .ok start) (hsize : 0 < params.pageSize) :
    page sdk limits params tasks = .ok
      { nextPageToken := (tasks[start + pageLength sdk limits params.pageSize]?).map
          fun task => sdk.encodePageToken task.id
        tasks := (tasks.drop start).take (pageLength sdk limits params.pageSize)
        totalSize := tasks.length
        pageSize := pageLength sdk limits params.pageSize } := by
  have hne : params.pageSize ≠ 0 := by omega
  have hpos : ¬params.pageSize ≤ 0 := by omega
  unfold page pageLength
  rw [hstart]
  simp only [bind, Except.bind, if_neg hne, if_neg hpos]

theorem pageLength_pos (sdk : Sdk) (limits : Limits T) {pageSize : Int} (h : 0 < pageSize) :
    0 < pageLength sdk limits pageSize := by
  have hcount := limits.positive.1
  have hne : pageSize ≠ 0 := by omega
  unfold pageLength
  rw [if_neg hne]
  omega

variable [Sub T]

theorem list_eq (limits : Limits T) (s : Store T) {owner : PyStr} (params : ListTasksRequest) (now : T)
    {ownerBytes : Nat} (howner : checkOwner owner = .ok ownerBytes) :
    s.list sdk limits owner params now =
      (page sdk limits params ((s.prune limits now).listing sdk owner params), s.prune limits now) := by
  simp only [Store.list, howner]
  rfl

end

/-! ## A small instance -/

/-- Tasks of their own size, page tokens that are the ids themselves. -/
def plainSdk (toJsonString : Timestamp → PyStr) : Sdk where
  byteSize task := task.rest.length
  toJsonString := toJsonString
  decodePageToken := .ok
  encodePageToken := id
  defaultListTasksPageSize := 50

def plainLimits : Limits Int := ⟨10, 100000, 10, by decide⟩

/-- A task that works since the given time. -/
def taskSince (id : PyStr) (seconds nanos : Int) : Task := ⟨id, [], some ⟨.working, some ⟨seconds, nanos⟩⟩, []⟩

/-- No filter but the one by time. -/
def allTasks (statusTimestampAfter : Option Timestamp) : ListTasksRequest :=
  ⟨[], .unspecified, statusTimestampAfter, [], 0⟩

end Rdap.Server
