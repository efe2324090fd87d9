import Rdap.Lib.KeyedTable
import Rdap.Lib.Machine
import Rdap.Agent.Authorize

/-!
# Cancel events

An execution registers one event under its task id and under the message id its client
chose, and removes both keys when it ends, whoever's event they lead to by then. All three
operations run between two awaits of the event loop, so each is one step.
-/

set_option autoImplicit false

namespace Rdap.Agent
open Python Lib

/-- Owner and task or message id. -/
abbrev CancelKey := PyStr × PyStr

abbrev CancelEvent := Nat

structure Execution where
  owner : PyStr
  taskId : PyStr
  messageId : PyStr
  event : CancelEvent
  deriving DecidableEq

/-- The keys an execution registers; an empty message id is none. -/
def Execution.keys (x : Execution) : List CancelKey :=
  (x.owner, x.taskId) :: if x.messageId = [] then [] else [(x.owner, x.messageId)]

abbrev CancelMap := KeyedTable CancelKey CancelEvent

def CancelMap.register (map : CancelMap) (x : Execution) : CancelMap :=
  x.keys.foldl (fun m key => m.set key x.event) map

/-- The `finally` clause: `pop(key, None)` for either key. -/
def CancelMap.unregister (map : CancelMap) (x : Execution) : CancelMap :=
  x.keys.foldl (fun m key => m.erase key) map

/-- What `cancel` reads of its context. -/
structure CancelContext where
  caller : PyStr
  isAuthenticated : Bool
  taskId : PyStr
  currentTaskId : Option PyStr
  messageId : PyStr

def CancelContext.candidates (ctx : CancelContext) : List PyStr :=
  [ctx.taskId, ctx.currentTaskId.getD [], ctx.messageId]

def CancelContext.denied (requireSigned : Bool) (ctx : CancelContext) : Bool :=
  ctx.caller = [] || (requireSigned && !ctx.isAuthenticated)

/-- `cancel`: its result, and the event it sets on the way. -/
def cancel (requireSigned : Bool) (map : CancelMap) (ctx : CancelContext) :
    Except PyExc Unit × Option CancelEvent :=
  if ctx.denied requireSigned then
    (.error ⟨.permissionError, lit "Raven cancellation authorization failed"⟩, none)
  else
    let event := ctx.candidates.findSome? fun candidate => map.get? (ctx.caller, candidate)
    match ctx.currentTaskId with
    | some _ => (.ok (), event)
    | none => (valueError (lit "cannot cancel a missing task"), event)

structure Routing where
  map : CancelMap
  running : List Execution
  /-- Every execution so far; events are never used twice. -/
  started : List Execution
  next : CancelEvent
  /-- Events that are set. -/
  fired : List CancelEvent

inductive RoutingEvent where
  | register (owner taskId messageId : PyStr)
  | finish (i : Nat)
  | cancel (ctx : CancelContext)

def Routing.start : Routing := ⟨.empty, [], [], 0, []⟩

def routingStep (requireSigned : Bool) : Machine Routing RoutingEvent
  | s, .register owner taskId messageId =>
    let x : Execution := ⟨owner, taskId, messageId, s.next⟩
    some ⟨s.map.register x, s.running ++ [x], s.started ++ [x], s.next + 1, s.fired⟩
  | s, .finish i =>
    match s.running[i]? with
    | some x => some { s with map := s.map.unregister x, running := s.running.eraseIdx i }
    | none => none
  | s, .cancel ctx =>
    some { s with fired := (Agent.cancel requireSigned s.map ctx).2.toList ++ s.fired }

/-- A new execution has no key in common with one in flight. -/
def Apart : Routing → RoutingEvent → Prop
  | s, .register owner taskId messageId =>
    ∀ x ∈ s.running, ∀ key ∈ x.keys, key ∉ (Execution.mk owner taskId messageId s.next).keys
  | _, _ => True

instance (s : Routing) (e : RoutingEvent) : Decidable (Apart s e) :=
  match e with
  | .register _ _ _ => inferInstanceAs (Decidable (∀ x ∈ s.running, _))
  | .finish _ | .cancel _ => .isTrue trivial

/-! ## The map -/

theorem register_get? (map : CancelMap) (x : Execution) (key : CancelKey) :
    (map.register x).get? key = if key ∈ x.keys then some x.event else map.get? key := by
  unfold CancelMap.register Execution.keys
  split
  · simp [KeyedTable.get?_set]
  · simp only [List.foldl_cons, List.foldl_nil, KeyedTable.get?_set, List.mem_cons,
      List.not_mem_nil, or_false]
    by_cases htask : key = (x.owner, x.taskId) <;>
      by_cases hmessage : key = (x.owner, x.messageId) <;> simp [htask, hmessage]

theorem unregister_get? (map : CancelMap) (x : Execution) (key : CancelKey) :
    (map.unregister x).get? key = if key ∈ x.keys then none else map.get? key := by
  unfold CancelMap.unregister Execution.keys
  split
  · simp [KeyedTable.get?_erase]
  · simp only [List.foldl_cons, List.foldl_nil, KeyedTable.get?_erase, List.mem_cons,
      List.not_mem_nil, or_false]
    by_cases htask : key = (x.owner, x.taskId) <;>
      by_cases hmessage : key = (x.owner, x.messageId) <;> simp [htask, hmessage]

theorem owner_of_mem_keys {x : Execution} {key : CancelKey} (h : key ∈ x.keys) :
    key.1 = x.owner := by
  unfold Execution.keys at h
  split at h <;> simp at h <;> rcases h with h | h <;> simp_all

theorem taskKey_mem (x : Execution) : (x.owner, x.taskId) ∈ x.keys := by
  simp [Execution.keys]

/-- What a cancellation sets, it found in the map under its caller. -/
theorem cancel_sets {requireSigned : Bool} {map : CancelMap} {ctx : CancelContext}
    {event : CancelEvent} (h : (cancel requireSigned map ctx).2 = some event) :
    ∃ id, map.get? (ctx.caller, id) = some event := by
  have hfound : (ctx.candidates.findSome? fun id => map.get? (ctx.caller, id)) = some event := by
    unfold cancel at h
    split at h
    · cases h
    · split at h <;> exact h
  obtain ⟨_, id, _, _, hget, _⟩ := List.findSome?_eq_some_iff.mp hfound
  exact ⟨id, hget⟩

/-- A key that is registered under the task id asked for decides what is set. -/
theorem cancel_of_get? {requireSigned : Bool} {map : CancelMap} {ctx : CancelContext}
    {event : CancelEvent} (h : map.get? (ctx.caller, ctx.taskId) = some event) :
    (cancel requireSigned map ctx).2 = if ctx.denied requireSigned then none else some event := by
  unfold cancel
  split
  · rfl
  · simp only [CancelContext.candidates, List.findSome?_cons, h]
    split <;> rfl

/-! ## Every run -/

/-- Where the entries of the map come from. -/
structure Backed (s : Routing) : Prop where
  fresh : ∀ x ∈ s.started, x.event < s.next
  distinct : ∀ x ∈ s.started, ∀ y ∈ s.started, x.event = y.event → x = y
  started : ∀ x ∈ s.running, x ∈ s.started
  running : ∀ key event, s.map.get? key = some event → ∃ x ∈ s.running, key ∈ x.keys
  owner : ∀ key event, s.map.get? key = some event →
    ∃ x ∈ s.started, x.event = event ∧ x.owner = key.1

theorem backed_start : Backed .start := by
  constructor <;> simp [Routing.start]

theorem mem_eraseIdx_of_ne {s : Routing} {i : Nat} {x y : Execution} (hx : s.running[i]? = some x)
    (hy : y ∈ s.running) (hne : y ≠ x) : y ∈ s.running.eraseIdx i := by
  obtain ⟨j, hj⟩ := List.getElem?_of_mem hy
  refine List.mem_eraseIdx_iff_getElem?.mpr ⟨j, ?_, hj⟩
  rintro rfl
  exact hne (Option.some.inj (hj.symm.trans hx))

theorem backed_step {requireSigned : Bool} {s t : Routing} {e : RoutingEvent} (hs : Backed s)
    (h : routingStep requireSigned s e = some t) : Backed t := by
  cases e with
  | register owner taskId messageId =>
    obtain rfl := Option.some.inj h
    refine ⟨?_, ?_, ?_, ?_, ?_⟩
    · intro x hx
      rcases List.mem_append.mp hx with hx | hx
      · exact Nat.lt_succ_of_lt (hs.fresh x hx)
      · obtain rfl := List.mem_singleton.mp hx
        exact Nat.lt_succ_self _
    · intro x hx y hy hevent
      rcases List.mem_append.mp hx with hx | hx <;> rcases List.mem_append.mp hy with hy | hy
      · exact hs.distinct x hx y hy hevent
      · obtain rfl := List.mem_singleton.mp hy
        exact absurd hevent (Nat.ne_of_lt (hs.fresh x hx))
      · obtain rfl := List.mem_singleton.mp hx
        exact absurd hevent (Nat.ne_of_gt (hs.fresh y hy))
      · rw [List.mem_singleton.mp hx, List.mem_singleton.mp hy]
    · intro x hx
      rcases List.mem_append.mp hx with hx | hx
      · exact List.mem_append_left _ (hs.started x hx)
      · exact List.mem_append_right _ hx
    · intro key event hget
      rw [register_get?] at hget
      split at hget
      · rename_i hkey
        exact ⟨_, List.mem_append_right _ (List.mem_singleton.mpr rfl), hkey⟩
      · obtain ⟨x, hx, hkey⟩ := hs.running key event hget
        exact ⟨x, List.mem_append_left _ hx, hkey⟩
    · intro key event hget
      rw [register_get?] at hget
      split at hget
      · rename_i hkey
        exact ⟨_, List.mem_append_right _ (List.mem_singleton.mpr rfl), Option.some.inj hget,
          (owner_of_mem_keys hkey).symm⟩
      · obtain ⟨x, hx, hevent, howner⟩ := hs.owner key event hget
        exact ⟨x, List.mem_append_left _ hx, hevent, howner⟩
  | finish i =>
    simp only [routingStep] at h
    split at h
    · rename_i x hx
      obtain rfl := Option.some.inj h
      refine ⟨hs.fresh, hs.distinct, fun y hy => hs.started y (List.mem_of_mem_eraseIdx hy), ?_, ?_⟩
      · intro key event hget
        rw [unregister_get?] at hget
        split at hget
        · cases hget
        · rename_i hkey
          obtain ⟨y, hy, hmem⟩ := hs.running key event hget
          refine ⟨y, mem_eraseIdx_of_ne hx hy ?_, hmem⟩
          rintro rfl
          exact hkey hmem
      · intro key event hget
        rw [unregister_get?] at hget
        split at hget
        · cases hget
        · exact hs.owner key event hget
    · cases h
  | cancel ctx =>
    obtain rfl := Option.some.inj h
    exact ⟨hs.fresh, hs.distinct, hs.started, hs.running, hs.owner⟩

/-! ## Runs that keep executions apart -/

/-- Every execution in flight is registered under each of its keys. -/
structure Routed (s : Routing) : Prop where
  apart : s.running.Pairwise fun x y => ∀ key ∈ x.keys, key ∉ y.keys
  registered : ∀ x ∈ s.running, ∀ key ∈ x.keys, s.map.get? key = some x.event

theorem keys_apart_of_mem_eraseIdx {running : List Execution} {i : Nat} {x y : Execution}
    (hapart : running.Pairwise fun x y => ∀ key ∈ x.keys, key ∉ y.keys)
    (hx : running[i]? = some x) (hy : y ∈ running.eraseIdx i) : ∀ key ∈ y.keys, key ∉ x.keys := by
  obtain ⟨j, hne, hj⟩ := List.mem_eraseIdx_iff_getElem?.mp hy
  obtain ⟨hi', hxi⟩ := List.getElem?_eq_some_iff.mp hx
  obtain ⟨hj', hyj⟩ := List.getElem?_eq_some_iff.mp hj
  intro key hkey hmem
  rcases Nat.lt_or_gt_of_ne hne with hlt | hlt
  · refine List.pairwise_iff_getElem.mp hapart j i hj' hi' hlt key ?_ ?_
    · rwa [hyj]
    · rwa [hxi]
  · refine List.pairwise_iff_getElem.mp hapart i j hi' hj' hlt key ?_ ?_
    · rwa [hxi]
    · rwa [hyj]

theorem routed_step {requireSigned : Bool} {s t : Routing} {e : RoutingEvent} (hapart : Apart s e)
    (hs : Routed s) (h : routingStep requireSigned s e = some t) : Routed t := by
  cases e with
  | register owner taskId messageId =>
    obtain rfl := Option.some.inj h
    constructor
    · refine List.pairwise_append.mpr ⟨hs.apart, by simp, ?_⟩
      intro x hx y hy key hkey
      obtain rfl := List.mem_singleton.mp hy
      exact hapart x hx key hkey
    · intro x hx key hkey
      rw [register_get?]
      rcases List.mem_append.mp hx with hx | hx
      · rw [if_neg (hapart x hx key hkey)]
        exact hs.registered x hx key hkey
      · obtain rfl := List.mem_singleton.mp hx
        rw [if_pos hkey]
  | finish i =>
    simp only [routingStep] at h
    split at h
    · rename_i x hx
      obtain rfl := Option.some.inj h
      constructor
      · exact hs.apart.sublist (List.eraseIdx_sublist _ _)
      · intro y hy key hkey
        rw [unregister_get?, if_neg (keys_apart_of_mem_eraseIdx hs.apart hx hy key hkey)]
        exact hs.registered y (List.mem_of_mem_eraseIdx hy) key hkey
    · cases h
  | cancel ctx =>
    obtain rfl := Option.some.inj h
    exact ⟨hs.apart, hs.registered⟩

/-- The end of one execution takes a registration from another. -/
def Steals (requireSigned : Bool) (s : Routing) : Prop :=
  ∃ i t, routingStep requireSigned s (.finish i) = some t ∧
    ∃ x ∈ t.running, ∃ key, s.map.get? key = some x.event ∧ t.map.get? key ≠ some x.event

theorem routed_not_steals {requireSigned : Bool} {s : Routing} (hb : Backed s) (hs : Routed s) :
    ¬ Steals requireSigned s := by
  rintro ⟨i, t, h, x, hx, key, hget, hlost⟩
  simp only [routingStep] at h
  split at h
  · rename_i y hy
    obtain rfl := Option.some.inj h
    have hxs := List.mem_of_mem_eraseIdx hx
    rw [unregister_get?] at hlost
    split at hlost
    · rename_i hkey
      -- the key is one of the ended execution, so its event is that one's
      have hevent := (hs.registered y (List.mem_of_getElem? hy) key hkey).symm.trans hget
      have hsame := hb.distinct y (hb.started y (List.mem_of_getElem? hy)) x (hb.started x hxs)
        (Option.some.inj hevent)
      subst hsame
      exact keys_apart_of_mem_eraseIdx hs.apart hy hx _ (taskKey_mem y) (taskKey_mem y)
    · exact hlost hget
  · cases h

/-- A registration under a key in flight is taken away by the end of the older execution. -/
theorem steals_of_overlap {requireSigned : Bool} {s t : Routing} {e : RoutingEvent}
    (hoverlap : ¬ Apart s e) (h : routingStep requireSigned s e = some t) :
    Steals requireSigned t := by
  cases e with
  | register owner taskId messageId =>
    obtain rfl := Option.some.inj h
    simp only [Apart, not_forall, not_not] at hoverlap
    obtain ⟨x, hx, key, hkey, hnew⟩ := hoverlap
    obtain ⟨i, hi⟩ := List.getElem?_of_mem hx
    obtain ⟨hlt, _⟩ := List.getElem?_eq_some_iff.mp hi
    have hrunning : (s.running ++ [Execution.mk owner taskId messageId s.next])[i]? = some x := by
      rw [List.getElem?_append_left hlt]
      exact hi
    refine ⟨i, _, by simp only [routingStep, hrunning]; rfl,
      Execution.mk owner taskId messageId s.next, ?_, key, ?_, ?_⟩
    · refine List.mem_eraseIdx_iff_getElem?.mpr ⟨s.running.length, Nat.ne_of_gt hlt, ?_⟩
      simp
    · rw [register_get?, if_pos hnew]
    · simp only [unregister_get?, if_pos hkey]
      simp
  | finish i => exact absurd trivial hoverlap
  | cancel ctx => exact absurd trivial hoverlap

/-- In every run a cancellation reaches only events of its caller and no registration
outlives the executions in flight; in runs that keep executions apart, a cancellation by
task id sets that execution's event and no end of an execution takes a registration from
another; and a run that does not keep them apart comes to a state where one does. -/
theorem cancel_routing (requireSigned : Bool) :
    (∀ events s, (routingStep requireSigned).run .start events = some s →
      (∀ ctx event, (cancel requireSigned s.map ctx).2 = some event →
        ∀ x ∈ s.started, x.event = event → x.owner = ctx.caller) ∧
      (s.running = [] → s.map.rows = [])) ∧
    (∀ events s, (routingStep requireSigned).Along Apart .start events →
      (routingStep requireSigned).run .start events = some s →
      (∀ x ∈ s.running, ∀ ctx, ctx.caller = x.owner → ctx.taskId = x.taskId →
        (cancel requireSigned s.map ctx).2 =
          if ctx.denied requireSigned then none else some x.event) ∧
      ¬ Steals requireSigned s) ∧
    (∀ events s e t, (routingStep requireSigned).run .start events = some s → ¬ Apart s e →
      routingStep requireSigned s e = some t → Steals requireSigned t) := by
  refine ⟨?_, ?_, fun _ _ _ _ _ hoverlap h => steals_of_overlap hoverlap h⟩
  · intro events s hrun
    have hb : Backed s := Machine.invariant backed_step backed_start hrun
    constructor
    · intro ctx event hset x hx hevent
      obtain ⟨id, hget⟩ := cancel_sets hset
      obtain ⟨y, hy, hyevent, howner⟩ := hb.owner _ _ hget
      rw [hb.distinct x hx y hy (hevent.trans hyevent.symm)]
      exact howner
    · intro hidle
      apply List.eq_nil_iff_forall_not_mem.mpr
      rintro ⟨key, event⟩ hrow
      obtain ⟨x, hx, _⟩ := hb.running key event ((s.map.get?_eq_some).mpr hrow)
      rw [hidle] at hx
      cases hx
  · intro events s hapart hrun
    have hb : Backed s := Machine.invariant backed_step backed_start hrun
    have hr : Routed s := Machine.invariant_along routed_step hapart
      ⟨List.Pairwise.nil, by simp [Routing.start]⟩ hrun
    refine ⟨?_, routed_not_steals hb hr⟩
    intro x hx ctx hcaller htask
    apply cancel_of_get?
    rw [hcaller, htask]
    exact hr.registered x hx _ (taskKey_mem x)

namespace Sample

/-- The second message takes the first task's id for its message id. -/
def overlappingRun : List RoutingEvent :=
  [.register (lit "alice") (lit "t1") (lit "m1"), .register (lit "alice") (lit "t2") (lit "t1")]

def apartRun : List RoutingEvent :=
  [.register (lit "alice") (lit "t1") (lit "m1"), .register (lit "bob") (lit "t1") (lit "m1"),
    .register (lit "alice") (lit "t2") (lit "m2"), .finish 2]

def cancelFirst : CancelContext := ⟨lit "alice", true, lit "t1", some (lit "t1"), []⟩

end Sample

/-- Cancelling the first task sets the second execution's event, and the end of the first
removes a registration of the second. -/
theorem cancel_misrouted : ∃ s, (routingStep true).run .start Sample.overlappingRun = some s ∧
    (∃ x ∈ s.running, x.owner = lit "alice" ∧ x.taskId = lit "t1" ∧
      (cancel true s.map Sample.cancelFirst).2 ≠ some x.event) ∧ Steals true s := by
  refine ⟨_, rfl, ⟨⟨lit "alice", lit "t1", lit "m1", 0⟩, by decide, rfl, rfl, by decide⟩, 0, _, rfl,
    ⟨lit "alice", lit "t2", lit "t1", 1⟩, by decide, (lit "alice", lit "t1"), by decide, by decide⟩

theorem cancel_routing_sample : ∃ s, (routingStep true).run .start Sample.apartRun = some s ∧
    s.running.length = 2 ∧ (cancel true s.map Sample.cancelFirst).2 = some 0 := by
  obtain ⟨s, hrun, hlength, hmem⟩ := exists_of_any
    (x := (routingStep true).run .start Sample.apartRun)
    (p := fun s => s.running.length = 2 ∧ ⟨lit "alice", lit "t1", lit "m1", 0⟩ ∈ s.running)
    (by decide)
  obtain ⟨hroutes, _⟩ := (cancel_routing true).2.1 _ s (by decide) hrun
  exact ⟨s, hrun, hlength, hroutes _ hmem Sample.cancelFirst rfl rfl⟩

end Rdap.Agent
