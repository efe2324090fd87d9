import Rdap.Server.Listing
import Rdap.Server.Rfc3339

/-!
# Listings against the clock

Listings are sorted and filtered by the texts of the status timestamps. The texts agree with the
instants except within one second: where one fraction goes on from another, the shorter text
stands above the longer one although its instant is the earlier.
-/

set_option autoImplicit false

namespace Rdap.Server
open Python Lib

/-! ## What a listing by time is -/

/-- `a` may stand before `b`: its status is not the earlier one, and tasks without a time come last. -/
def NotEarlier (a b : Task) : Prop :=
  match a.timestamp, b.timestamp with
  | some x, some y => y.instant ≤ x.instant
  | none, some _ => False
  | _, none => True

/-- The filter by context and state. -/
def selected (params : ListTasksRequest) (task : Task) : Bool :=
  (params.contextId = [] || task.contextId = params.contextId) &&
  (params.status = .unspecified || task.state = params.status)

/-- The filter by time, on instants. -/
def AtOrAfter (params : ListTasksRequest) (task : Task) : Prop :=
  match params.statusTimestampAfter, task.timestamp with
  | some after, some stamp => after.instant ≤ stamp.instant
  | some _, none => False
  | none, _ => True

section
variable {T : Type} [LinearOrder T] [Zero T] [Sub T]

/-- Every page of the listing is in the order of time, and the tasks that some first page shows are
those that the filters ask for. -/
structure ByTime (sdk : Sdk) (limits : Limits T) (s : Store T) (owner : PyStr) (params : ListTasksRequest)
    (now : T) : Prop where
  ordered : ∀ pageToken pageSize response,
    (s.list sdk limits owner { params with pageToken := pageToken, pageSize := pageSize } now).1 = .ok response →
      response.tasks.Pairwise NotEarlier
  filtered : ∀ task, (∃ pageSize response,
    (s.list sdk limits owner { params with pageToken := [], pageSize := pageSize } now).1 = .ok response ∧
      task ∈ response.tasks) ↔
    task ∈ (s.prune limits now).own owner ∧ selected params task = true ∧ AtOrAfter params task

end

/-! ## Where texts and instants agree -/

/-- No text of one extends the text of the other. -/
def Agree (a b : Timestamp) : Prop := ¬Hides a b ∧ ¬Hides b a

theorem Hides.text_lt {a b : Timestamp} (ha : a.Valid) (hb : b.Valid) (h : Hides a b) :
    rfc3339 b < rfc3339 a := (rfc3339_lt_iff hb ha).mpr (Or.inr h)

theorem rfc3339_le_iff {a b : Timestamp} (ha : a.Valid) (hb : b.Valid) :
    (rfc3339 a ≤ rfc3339 b ↔ a.instant ≤ b.instant) ↔ Agree a b := by
  rw [← not_lt, rfc3339_lt_iff hb ha, not_or, not_and, not_not, ← not_lt]
  constructor
  · intro h
    constructor
    · intro hhides
      exact (h.mpr (lt_asymm (hhides.instant_lt ha hb))).2 hhides
    · intro hhides
      have hlt := hhides.instant_lt hb ha
      have hno : ¬Hides a b := fun hback => lt_asymm hlt (hback.instant_lt ha hb)
      exact h.mp ⟨fun _ => hhides, hno⟩ hlt
  · intro h
    constructor
    · rintro ⟨hlt, -⟩ hback
      exact h.2 (hlt hback)
    · intro hle
      exact ⟨fun hlt => absurd hlt hle, h.1⟩

/-- A selected task is kept as its instant says, just if its text agrees with the threshold's. -/
theorem listed_iff {sdk : Sdk} (hprints : ∀ t : Timestamp, t.Valid → sdk.toJsonString t = rfc3339 t)
    {params : ListTasksRequest} {task : Task} (hselected : selected params task = true)
    (hafter : ∀ after, params.statusTimestampAfter = some after → after.Valid)
    (hstamp : ∀ stamp, task.timestamp = some stamp → stamp.Valid) :
    (listed sdk params task = true ↔ AtOrAfter params task) ↔
      ∀ after stamp, params.statusTimestampAfter = some after → task.timestamp = some stamp →
        Agree after stamp := by
  have hlisted : listed sdk params task = (selected params task && _) := rfl
  rw [hlisted, hselected, Bool.true_and]
  unfold AtOrAfter
  cases hparam : params.statusTimestampAfter with
  | none => simp
  | some after =>
    cases htime : task.timestamp with
    | none => simp
    | some stamp =>
      have ha := hafter after hparam
      have hs := hstamp stamp htime
      simp only [decide_eq_true_eq, hprints after ha, hprints stamp hs, Option.some.injEq]
      rw [rfc3339_le_iff ha hs]
      constructor
      · rintro h _ _ rfl rfl
        exact h
      · intro h
        exact h after stamp rfl rfl

/-- Two tasks with a time are sorted by its text. -/
theorem listLe_of_some {sdk : Sdk} {a b : Task} {x y : Timestamp} (hx : a.timestamp = some x)
    (hy : b.timestamp = some y) :
    listLe sdk a b = true ↔ sdk.toJsonString y < sdk.toJsonString x ∨
      (sdk.toJsonString y = sdk.toJsonString x ∧ b.id ≤ a.id) := by
  simp [listLe, listKey, hx, hy]

theorem not_listLe_of_none {sdk : Sdk} {a b : Task} {y : Timestamp} (hx : a.timestamp = none)
    (hy : b.timestamp = some y) : ¬listLe sdk a b = true := by
  simp [listLe, listKey, hx, hy]

/-- Of two tasks in the order of the texts, the second is not the later one if the texts agree. -/
theorem notEarlier_of_listLe {sdk : Sdk} (hprints : ∀ t : Timestamp, t.Valid → sdk.toJsonString t = rfc3339 t)
    {a b : Task} (ha : ∀ stamp, a.timestamp = some stamp → stamp.Valid)
    (hb : ∀ stamp, b.timestamp = some stamp → stamp.Valid)
    (hagree : ∀ x y, a.timestamp = some x → b.timestamp = some y → Agree y x)
    (h : listLe sdk a b = true) : NotEarlier a b := by
  unfold NotEarlier
  cases hx : a.timestamp with
  | none =>
    cases hy : b.timestamp with
    | none => trivial
    | some y => exact absurd h (not_listLe_of_none hx hy)
  | some x =>
    cases hy : b.timestamp with
    | none => trivial
    | some y =>
      apply ((rfc3339_le_iff (hb y hy) (ha x hx)).mpr (hagree x y hx hy)).mp
      rw [listLe_of_some hx hy, hprints x (ha x hx), hprints y (hb y hy)] at h
      rcases h with hlt | ⟨heq, -⟩
      · exact le_of_lt hlt
      · exact le_of_eq heq

/-- A task whose text is hidden by that of another stands below it. -/
theorem not_listLe_of_hides {sdk : Sdk} (hprints : ∀ t : Timestamp, t.Valid → sdk.toJsonString t = rfc3339 t)
    {a b : Task} {x y : Timestamp} (hx : a.timestamp = some x) (hy : b.timestamp = some y) (ha : x.Valid)
    (hb : y.Valid) (h : Hides x y) : ¬listLe sdk b a = true := by
  have hlt := h.text_lt ha hb
  rw [listLe_of_some hy hx, hprints x ha, hprints y hb]
  rintro (hback | ⟨heq, -⟩)
  · exact lt_asymm hlt hback
  · exact absurd heq.symm (ne_of_lt hlt)

/-! ## When a listing is by time -/

/-- No text of a selected task extends that of the threshold or the other way, and of the tasks at
or after it no text extends that of another. -/
structure Aligned (params : ListTasksRequest) (tasks : List Task) : Prop where
  threshold : ∀ task ∈ tasks, selected params task = true → ∀ after stamp,
    params.statusTimestampAfter = some after → task.timestamp = some stamp → Agree after stamp
  pairwise : ∀ a ∈ tasks, ∀ b ∈ tasks, selected params a = true → selected params b = true →
    AtOrAfter params a → AtOrAfter params b → ∀ x y, a.timestamp = some x → b.timestamp = some y → ¬Hides x y

section
variable {T : Type} [LinearOrder T] [Zero T] [Sub T] {limits : Limits T} {sdk : Sdk}

/-- A first page of the greatest size shows the whole listing. -/
theorem list_whole {s : Store T} {owner : PyStr} {ownerBytes : Nat} (howner : checkOwner owner = .ok ownerBytes)
    (params : ListTasksRequest) (now : T) (hcount : (s.prune limits now).entries.count ≤ limits.maxCount) :
    ∃ response, (s.list sdk limits owner { params with pageToken := [], pageSize := limits.maxCount } now).1 =
      .ok response ∧ response.tasks = (s.prune limits now).listing sdk owner params := by
  have hpos := limits.positive.1
  rw [list_eq limits s _ now howner]
  refine ⟨_, page_of_positive (if_pos rfl) ?_, ?_⟩
  · simpa using hpos
  · have hlength : pageLength sdk limits limits.maxCount = limits.maxCount := by
      unfold pageLength
      rw [if_neg (by omega)]
      simp
    simp only [hlength, List.drop_zero]
    apply List.take_of_length_le
    exact Nat.le_trans (listing_length_le _ owner _) hcount

/-- Every page is a stretch of the listing. -/
theorem list_sublist {s : Store T} {owner : PyStr} {ownerBytes : Nat} (howner : checkOwner owner = .ok ownerBytes)
    {params : ListTasksRequest} {now : T} {pageToken : PyStr} {pageSize : Int} {response : ListTasksResponse}
    (h : (s.list sdk limits owner { params with pageToken := pageToken, pageSize := pageSize } now).1 =
      .ok response) :
    response.tasks.Sublist ((s.prune limits now).listing sdk owner params) := by
  rw [list_eq limits s _ now howner] at h
  obtain ⟨start, -, htasks, -⟩ := page_ok h
  rw [htasks]
  exact (List.take_sublist _ _).trans (List.drop_sublist _ _)

/-- Listings are by time, just when the listing itself is. -/
theorem byTime_iff {s : Store T} {owner : PyStr} {ownerBytes : Nat} (howner : checkOwner owner = .ok ownerBytes)
    (params : ListTasksRequest) (now : T) (hcount : (s.prune limits now).entries.count ≤ limits.maxCount) :
    ByTime sdk limits s owner params now ↔
      ((s.prune limits now).listing sdk owner params).Pairwise NotEarlier ∧
      ∀ task ∈ (s.prune limits now).own owner,
        listed sdk params task = true ↔ selected params task = true ∧ AtOrAfter params task := by
  obtain ⟨whole, hwhole, htasks⟩ := list_whole howner params now hcount
  have hshown : ∀ task, (∃ pageSize response,
      (s.list sdk limits owner { params with pageToken := [], pageSize := pageSize } now).1 = .ok response ∧
        task ∈ response.tasks) ↔ task ∈ (s.prune limits now).listing sdk owner params := by
    intro task
    constructor
    · rintro ⟨pageSize, response, hlist, hmem⟩
      exact (list_sublist howner hlist).subset hmem
    · intro hmem
      exact ⟨_, whole, hwhole, htasks ▸ hmem⟩
  constructor
  · intro h
    constructor
    · rw [← htasks]
      exact h.ordered _ _ whole hwhole
    · intro task hown
      have hfiltered := (hshown task).symm.trans (h.filtered task)
      rw [mem_listing] at hfiltered
      constructor
      · intro hlisted
        exact (hfiltered.mp ⟨hown, hlisted⟩).2
      · intro hkept
        exact (hfiltered.mpr ⟨hown, hkept⟩).2
  · rintro ⟨hordered, hfiltered⟩
    constructor
    · intro pageToken pageSize response hlist
      exact hordered.sublist (list_sublist howner hlist)
    · intro task
      rw [hshown, mem_listing]
      constructor
      · rintro ⟨hown, hlisted⟩
        exact ⟨hown, (hfiltered task hown).mp hlisted⟩
      · rintro ⟨hown, hkept⟩
        exact ⟨hown, (hfiltered task hown).mpr hkept⟩

theorem selected_of_listed {params : ListTasksRequest} {task : Task} (h : listed sdk params task = true) :
    selected params task = true := by
  have hlisted : listed sdk params task = (selected params task && _) := rfl
  rw [hlisted, Bool.and_eq_true] at h
  exact h.1

/-- The filter by text is the filter by instant, just when no text extends the threshold's or is
extended by it. -/
theorem filtered_iff (hprints : ∀ t : Timestamp, t.Valid → sdk.toJsonString t = rfc3339 t)
    {params : ListTasksRequest} {tasks : List Task}
    (hafter : ∀ after, params.statusTimestampAfter = some after → after.Valid)
    (hstamps : ∀ task ∈ tasks, ∀ stamp, task.timestamp = some stamp → stamp.Valid) :
    (∀ task ∈ tasks, listed sdk params task = true ↔ selected params task = true ∧ AtOrAfter params task) ↔
      ∀ task ∈ tasks, selected params task = true → ∀ after stamp,
        params.statusTimestampAfter = some after → task.timestamp = some stamp → Agree after stamp := by
  constructor
  · intro h task hmem hselected
    rw [← listed_iff hprints hselected hafter (hstamps task hmem), h task hmem, hselected]
    simp
  · intro h task hmem
    constructor
    · intro hlisted
      have hselected := selected_of_listed hlisted
      exact ⟨hselected, ((listed_iff hprints hselected hafter (hstamps task hmem)).mpr
        (h task hmem hselected)).mp hlisted⟩
    · rintro ⟨hselected, hkept⟩
      exact ((listed_iff hprints hselected hafter (hstamps task hmem)).mpr (h task hmem hselected)).mpr hkept

/-- A listing in the order of the texts is in the order of time, just when no text extends another. -/
theorem ordered_iff (hprints : ∀ t : Timestamp, t.Valid → sdk.toJsonString t = rfc3339 t) {tasks : List Task}
    (hsorted : tasks.Pairwise fun a b => listLe sdk a b = true)
    (hstamps : ∀ task ∈ tasks, ∀ stamp, task.timestamp = some stamp → stamp.Valid) :
    tasks.Pairwise NotEarlier ↔
      ∀ a ∈ tasks, ∀ b ∈ tasks, ∀ x y, a.timestamp = some x → b.timestamp = some y → ¬Hides x y := by
  constructor
  · intro hordered a ha b hb x y hx hy hhides
    have hvalid := hstamps a ha x hx
    have hvalid' := hstamps b hb y hy
    have hboth : tasks.Pairwise fun a b => (listLe sdk a b = true ∧ NotEarlier a b) ∨
        (listLe sdk b a = true ∧ NotEarlier b a) := by
      refine (hsorted.and hordered).imp ?_
      intro a b h
      exact Or.inl h
    have hsame : ∀ c ∈ tasks, (listLe sdk c c = true ∧ NotEarlier c c) ∨ (listLe sdk c c = true ∧ NotEarlier c c) := by
      intro c _
      refine Or.inl ⟨(listLe_iff sdk c c).mpr (le_refl _), ?_⟩
      unfold NotEarlier
      cases c.timestamp with
      | none => trivial
      | some stamp => exact le_refl _
    have hsymm : Std.Symm fun a b => (listLe sdk a b = true ∧ NotEarlier a b) ∨
        (listLe sdk b a = true ∧ NotEarlier b a) := ⟨fun _ _ h => h.symm⟩
    have hpair := hboth.forall_of_forall hsame ha hb
    rcases hpair with ⟨-, hnot⟩ | ⟨hle, -⟩
    · rw [NotEarlier, hx, hy] at hnot
      exact absurd (hhides.instant_lt hvalid hvalid') (not_lt_of_ge hnot)
    · exact not_listLe_of_hides hprints hx hy hvalid hvalid' hhides hle
  · intro h
    refine hsorted.imp_of_mem ?_
    intro a b ha hb hle
    refine notEarlier_of_listLe hprints (hstamps a ha) (hstamps b hb) ?_ hle
    intro x y hx hy
    exact ⟨h b hb a ha y x hy hx, h a ha b hb x y hx hy⟩

theorem byTime_iff_aligned {s : Store T} {owner : PyStr} {params : ListTasksRequest} {now : T} {ownerBytes : Nat}
    (howner : checkOwner owner = .ok ownerBytes) (hcount : (s.prune limits now).entries.count ≤ limits.maxCount)
    (hprints : ∀ t : Timestamp, t.Valid → sdk.toJsonString t = rfc3339 t)
    (hafter : ∀ after, params.statusTimestampAfter = some after → after.Valid)
    (hstamps : ∀ task ∈ (s.prune limits now).own owner, ∀ stamp, task.timestamp = some stamp → stamp.Valid) :
    ByTime sdk limits s owner params now ↔ Aligned params ((s.prune limits now).own owner) := by
  have hlisting : ∀ task ∈ (s.prune limits now).listing sdk owner params,
      ∀ stamp, task.timestamp = some stamp → stamp.Valid := by
    intro task h
    exact hstamps task (mem_listing.mp h).1
  rw [byTime_iff howner params now hcount, ordered_iff hprints (listing_sorted _ owner params) hlisting,
    filtered_iff hprints hafter hstamps]
  have hkept : (∀ task ∈ (s.prune limits now).own owner, selected params task = true → ∀ after stamp,
      params.statusTimestampAfter = some after → task.timestamp = some stamp → Agree after stamp) →
      ∀ task ∈ (s.prune limits now).own owner, task ∈ (s.prune limits now).listing sdk owner params ↔
        selected params task = true ∧ AtOrAfter params task := by
    intro h task hmem
    rw [mem_listing, (filtered_iff hprints hafter hstamps).mpr h task hmem]
    exact and_iff_right hmem
  constructor
  · rintro ⟨hordered, hthreshold⟩
    refine ⟨hthreshold, ?_⟩
    intro a ha b hb hselected hselected' htime htime'
    exact hordered a ((hkept hthreshold a ha).mpr ⟨hselected, htime⟩) b
      ((hkept hthreshold b hb).mpr ⟨hselected', htime'⟩)
  · intro h
    refine ⟨?_, h.threshold⟩
    intro a ha b hb
    have hown := (mem_listing.mp ha).1
    have hown' := (mem_listing.mp hb).1
    obtain ⟨hselected, htime⟩ := (hkept h.threshold a hown).mp ha
    obtain ⟨hselected', htime'⟩ := (hkept h.threshold b hown').mp hb
    exact h.pairwise a hown b hown' hselected hselected' htime htime'

theorem prune_count_le (ops : List (Op T)) (now : T) :
    ((performAll sdk limits ops).store.prune limits now).entries.count ≤ limits.maxCount := by
  have hbounded : Bounded limits (performAll sdk limits ops) := performAll_bounded ops
  exact Nat.le_trans (Store.prune_shrinks _ now).count hbounded.count

/-- After any run, an owner's listings are by the time of the status just when no text of a timestamp
extends that of another, or of the threshold. -/
theorem list_chronological_iff (ops : List (Op T)) (owner : PyStr) (params : ListTasksRequest) (now : T)
    {ownerBytes : Nat} (howner : checkOwner owner = .ok ownerBytes)
    (hprints : ∀ t : Timestamp, t.Valid → sdk.toJsonString t = rfc3339 t)
    (hafter : ∀ after, params.statusTimestampAfter = some after → after.Valid)
    (hstamps : ∀ task ∈ ((performAll sdk limits ops).store.prune limits now).own owner,
      ∀ stamp, task.timestamp = some stamp → stamp.Valid) :
    ByTime sdk limits (performAll sdk limits ops).store owner params now ↔
      Aligned params (((performAll sdk limits ops).store.prune limits now).own owner) :=
  byTime_iff_aligned howner (prune_count_le ops now) hprints hafter hstamps

end

/-- The store with the given tasks of one owner. -/
def storeOf (tasks : List Task) : Store Int :=
  (performAll (plainSdk rfc3339) plainLimits (tasks.map fun task => .save (lit "a") task 0)).store

instance decidableValid (t : Timestamp) : Decidable t.Valid :=
  decidable_of_iff (-62135596800 ≤ t.seconds ∧ t.seconds ≤ 253402300799 ∧ 0 ≤ t.nanos ∧ t.nanos < 1000000000)
    ⟨fun h => ⟨h.1, h.2.1, h.2.2.1, h.2.2.2⟩, fun h => ⟨h.first, h.last, h.nonneg, h.fraction⟩⟩

/-- A task of a later second is listed before one with a fraction. -/
theorem seconds_listed_by_time :
    ByTime (plainSdk rfc3339) plainLimits (storeOf [taskSince (lit "x") 0 500000000, taskSince (lit "y") 1 0])
      (lit "a") (allTasks none) 0 := by
  have hown : ((storeOf [taskSince (lit "x") 0 500000000, taskSince (lit "y") 1 0]).prune plainLimits 0).own
      (lit "a") = [taskSince (lit "x") 0 500000000, taskSince (lit "y") 1 0] := by decide
  have hvalid : ∀ task ∈ [taskSince (lit "x") 0 500000000, taskSince (lit "y") 1 0],
      ∀ stamp ∈ task.timestamp, stamp.Valid := by decide
  have hapart : ∀ a ∈ [taskSince (lit "x") 0 500000000, taskSince (lit "y") 1 0],
      ∀ b ∈ [taskSince (lit "x") 0 500000000, taskSince (lit "y") 1 0],
      ∀ x ∈ a.timestamp, ∀ y ∈ b.timestamp, ¬Hides x y := by decide
  refine (list_chronological_iff _ (lit "a") (allTasks none) 0 rfl (fun _ _ => rfl) ?_ ?_).mpr ⟨?_, ?_⟩
  · intro after h
    cases h
  · intro task hmem stamp h
    exact hvalid task (hown ▸ hmem) stamp h
  · intro task _ _ after stamp h
    cases h
  · intro a ha b hb _ _ _ _ x y hx hy
    exact hapart a (hown ▸ ha) b (hown ▸ hb) x hx y hy

theorem aligned_of_byTime {tasks : List Task} {params : ListTasksRequest}
    (hafter : ∀ after ∈ params.statusTimestampAfter, after.Valid)
    (hstamps : ∀ task ∈ ((storeOf tasks).prune plainLimits 0).own (lit "a"), ∀ stamp ∈ task.timestamp, stamp.Valid)
    (h : ByTime (plainSdk rfc3339) plainLimits (storeOf tasks) (lit "a") params 0) :
    Aligned params (((storeOf tasks).prune plainLimits 0).own (lit "a")) :=
  (byTime_iff_aligned rfl (prune_count_le _ 0) (fun _ _ => rfl) hafter hstamps).mp h

/-- The text of second 0 stands above that of half a second later, in the order and in the filter. -/
theorem half_second_misplaced :
    ¬ByTime (plainSdk rfc3339) plainLimits (storeOf [taskSince (lit "x") 0 0, taskSince (lit "y") 0 500000000])
      (lit "a") (allTasks none) 0 ∧
    ¬ByTime (plainSdk rfc3339) plainLimits (storeOf [taskSince (lit "y") 0 500000000])
      (lit "a") (allTasks (some ⟨0, 0⟩)) 0 := by
  have hhides : Hides ⟨0, 0⟩ ⟨0, 500000000⟩ := by decide
  constructor
  · intro h
    have haligned := aligned_of_byTime (by decide) (by decide) h
    exact haligned.pairwise (taskSince (lit "x") 0 0) (by decide) (taskSince (lit "y") 0 500000000) (by decide)
      rfl rfl trivial trivial _ _ rfl rfl hhides
  · intro h
    have haligned := aligned_of_byTime (by decide) (by decide) h
    exact (haligned.threshold (taskSince (lit "y") 0 500000000) (by decide) rfl _ _ rfl rfl).1 hhides

end Rdap.Server
