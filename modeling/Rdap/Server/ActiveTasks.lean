import Rdap.Lib.KeyedTable
import Rdap.Lib.Machine
import Rdap.Python.Control

/-!
# Live tasks by owner

Every owner has a registry of live tasks of its own. The table of registries is filled on
demand under a lock; the task is created in the registry after the lock is given back, so
calls of several owners and the ends of tasks come in any order.
-/

set_option autoImplicit false

namespace Rdap.Server
open Python Lib

/-- The registry of the SDK, of which only the tasks that run matter here. -/
structure TaskRegistry (R : Type) where
  fresh : R
  getOrCreate : R → PyStr → R
  finish : R → PyStr → R
  unfinished : R → List PyStr

inductive CallRefusal where
  | invalidParams (message : PyStr)
  | raised (exc : PyExc)
  deriving DecidableEq

/-- A call that was given a registry, by the order in which registries were made. -/
structure ActiveCall where
  owner : PyStr
  task : PyStr
  registry : Nat

structure OwnerScoped (R : Type) where
  registries : KeyedTable PyStr Nat
  closed : Bool
  /-- Every registry ever made, with the owner it was made for. -/
  made : List (PyStr × R)
  /-- Calls that left the lock and have not created their task yet. -/
  awaiting : List ActiveCall
  created : List ActiveCall

variable {R : Type} (sdk : TaskRegistry R) (maxOwners : Nat)

def OwnerScoped.start : OwnerScoped R := ⟨KeyedTable.empty, false, [], [], []⟩

def maxOwnerBytes : Nat := 1024

/-- `_owner` -/
def registryOwner (owner : PyStr) : Except CallRefusal Unit :=
  let refused := CallRefusal.invalidParams (lit "invalid or oversized task owner")
  if owner = [] then .error refused
  else match encodeUtf8 owner with
    | .error e => .error (.raised e)
    | .ok encoded => if maxOwnerBytes < encoded.length then .error refused else .ok ()

def capacityExhausted : CallRefusal := .invalidParams (lit "active task owner capacity exhausted")

/-- `get_or_create` up to the end of the lock: the registry of the owner. -/
def OwnerScoped.registryOf (s : OwnerScoped R) (owner : PyStr) :
    Except CallRefusal (Nat × OwnerScoped R) := do
  registryOwner owner
  if s.closed then
    .error (.raised ⟨.runtimeError, lit "owner-scoped active task registry is closed"⟩)
  else match s.registries.get? owner with
    | some registry => .ok (registry, s)
    | none =>
      if maxOwners ≤ s.registries.count then .error capacityExhausted
      else .ok (s.made.length, { s with
        registries := s.registries.set owner s.made.length
        made := s.made ++ [(owner, sdk.fresh)] })

inductive OwnerEvent where
  | getOrCreate (owner task : PyStr)
  /-- The call at a place among those that wait goes on. -/
  | create (place : Nat)
  | finish (registry : Nat) (task : PyStr)
  | aclose

def OwnerScoped.update (s : OwnerScoped R) (registry : Nat) (f : R → R) : OwnerScoped R :=
  { s with made := s.made.modify registry fun entry => (entry.1, f entry.2) }

def ownerMachine : Machine (OwnerScoped R) OwnerEvent
  | s, .getOrCreate owner task =>
    match s.registryOf sdk maxOwners owner with
    | .error _ => some s
    | .ok (registry, s) => some { s with awaiting := s.awaiting ++ [⟨owner, task, registry⟩] }
  | s, .create place =>
    s.awaiting[place]?.map fun c =>
      { s.update c.registry (fun r => sdk.getOrCreate r c.task) with
        awaiting := s.awaiting.eraseIdx place
        created := s.created ++ [c] }
  | s, .finish registry task => some (s.update registry fun r => sdk.finish r task)
  | s, .aclose => some { s with registries := KeyedTable.empty, closed := true }

/-! ## What is wanted of a step -/

def OwnerScoped.hasUnfinished (s : OwnerScoped R) (registry : Nat) : Bool :=
  s.made[registry]?.any fun entry => sdk.unfinished entry.2 ≠ []

/-- The owners other than this one that have unfinished tasks. -/
def OwnerScoped.othersBusy (s : OwnerScoped R) (owner : PyStr) : List (PyStr × Nat) :=
  s.registries.rows.filter fun row => row.1 ≠ owner && s.hasUnfinished sdk row.2

structure CapacityByActivity (s : OwnerScoped R) (e : OwnerEvent) : Prop where
  bounded : ∀ after, ownerMachine sdk maxOwners s e = some after → after.registries.count ≤ maxOwners
  apart : ∀ after, ownerMachine sdk maxOwners s e = some after →
    ∀ c ∈ after.created, ∀ d ∈ after.created, c.registry = d.registry → c.owner = d.owner
  refused : ∀ owner task, e = .getOrCreate owner task →
    s.registryOf sdk maxOwners owner = .error capacityExhausted →
      maxOwners ≤ (s.othersBusy sdk owner).length

/-- An owner that was given no registry before comes only while fewer owners than places have been given
one, or while each of those that have has unfinished tasks. -/
def ComesInTurn (s : OwnerScoped R) (e : OwnerEvent) : Prop :=
  ∀ owner task, e = .getOrCreate owner task → registryOwner owner = .ok () → s.closed = false →
    s.registries.get? owner = none →
      s.registries.count < maxOwners ∨ ∀ row ∈ s.registries.rows, s.hasUnfinished sdk row.2 = true

/-! ## Registries and their owners -/

/-- The owner a registry was made for. -/
def OwnerScoped.madeFor (s : OwnerScoped R) (registry : Nat) : Option PyStr :=
  s.made[registry]?.map Prod.fst

structure OwnersKept (s : OwnerScoped R) : Prop where
  bounded : s.registries.count ≤ maxOwners
  owned : ∀ owner registry, s.registries.get? owner = some registry → s.madeFor registry = some owner
  awaited : ∀ c ∈ s.awaiting, s.madeFor c.registry = some c.owner
  logged : ∀ c ∈ s.created, s.madeFor c.registry = some c.owner

theorem ownersKept_start : OwnersKept (R := R) maxOwners OwnerScoped.start where
  bounded := Nat.zero_le _
  owned := fun _ _ h => by simp [OwnerScoped.start] at h
  awaited := List.forall_mem_nil _
  logged := List.forall_mem_nil _

@[simp] theorem madeFor_update (s : OwnerScoped R) (registry : Nat) (f : R → R) (other : Nat) :
    (s.update registry f).madeFor other = s.madeFor other := by
  simp only [OwnerScoped.madeFor, OwnerScoped.update, List.getElem?_modify]
  cases s.made[other]? with
  | none => rfl
  | some entry =>
    simp only [Option.map_eq_map, Option.map_some]
    split <;> rfl

variable {sdk maxOwners}

/-- What the lock gives: the registry of an owner that has one, or a new one. -/
theorem registryOf_ok {s t : OwnerScoped R} {owner : PyStr} {registry : Nat}
    (h : s.registryOf sdk maxOwners owner = .ok (registry, t)) :
    (s.registries.get? owner = some registry ∧ t = s) ∨
    (s.registries.get? owner = none ∧ s.registries.count < maxOwners ∧ registry = s.made.length ∧
      t = { s with
        registries := s.registries.set owner s.made.length
        made := s.made ++ [(owner, sdk.fresh)] }) := by
  simp only [OwnerScoped.registryOf, bind_ok] at h
  obtain ⟨_, _, h⟩ := h
  split at h
  · cases h
  · split at h
    · rename_i found hfound
      cases h
      exact Or.inl ⟨hfound, rfl⟩
    · rename_i hnone
      split at h
      · cases h
      · rename_i hroom
        cases h
        exact Or.inr ⟨hnone, Nat.lt_of_not_le hroom, rfl, rfl⟩

theorem registryOf_full {s : OwnerScoped R} {owner : PyStr} :
    s.registryOf sdk maxOwners owner = .error capacityExhausted ↔
      registryOwner owner = .ok () ∧ s.closed = false ∧ s.registries.get? owner = none ∧
        maxOwners ≤ s.registries.count := by
  have howner : registryOwner owner ≠ .error capacityExhausted := by
    have hne : capacityExhausted ≠ .invalidParams (lit "invalid or oversized task owner") := by decide
    unfold registryOwner
    dsimp only
    split
    · exact fun h => hne (Except.error.inj h).symm
    · split
      · exact fun h => by cases h
      · split
        · exact fun h => hne (Except.error.inj h).symm
        · exact fun h => by cases h
  unfold OwnerScoped.registryOf
  cases hcheck : registryOwner owner with
  | error e =>
    rw [hcheck] at howner
    refine iff_of_false (fun h => ?_) fun h => by cases h.1
    exact howner (congrArg Except.error (Except.error.inj h))
  | ok u =>
    simp only [bind, Except.bind, true_and]
    cases hclosed : s.closed with
    | true =>
      refine iff_of_false (fun h => ?_) fun h => by cases h.1
      cases h
    | false =>
      simp only [Bool.false_eq_true, if_false, true_and]
      cases hfound : s.registries.get? owner with
      | some registry =>
        refine iff_of_false (fun h => ?_) fun h => by cases h.1
        cases h
      | none =>
        dsimp only
        split
        · rename_i hfull
          exact iff_of_true rfl ⟨rfl, hfull⟩
        · rename_i hroom
          refine iff_of_false (fun h => ?_) fun h => hroom h.2
          cases h

/-! ## Runs -/

theorem count_set_absent (t : KeyedTable PyStr Nat) {owner : PyStr} {registry : Nat}
    (h : t.get? owner = none) : (t.set owner registry).count = t.count + 1 := by
  rw [KeyedTable.count_eq_weight, KeyedTable.count_eq_weight, KeyedTable.weight_set_of_absent _ _ _ h]

/-- A registry that was made stays with its owner when another is made. -/
theorem madeFor_append {s t : OwnerScoped R} {entry : PyStr × R} (ht : t.made = s.made ++ [entry])
    {registry : Nat} {owner : PyStr} (h : s.madeFor registry = some owner) :
    t.madeFor registry = some owner := by
  unfold OwnerScoped.madeFor at h ⊢
  obtain ⟨found, hfound, rfl⟩ := Option.map_eq_some_iff.mp h
  have hlt := (List.getElem?_eq_some_iff.mp hfound).1
  rw [ht, List.getElem?_append_left hlt, hfound]
  rfl

theorem registryOf_kept {s t : OwnerScoped R} {owner : PyStr} {registry : Nat}
    (hs : OwnersKept maxOwners s) (h : s.registryOf sdk maxOwners owner = .ok (registry, t)) :
    OwnersKept maxOwners t ∧ t.madeFor registry = some owner := by
  rcases registryOf_ok h with ⟨hfound, rfl⟩ | ⟨hnone, hroom, rfl, rfl⟩
  · exact ⟨hs, hs.owned _ _ hfound⟩
  · have hnew : ({ s with
        registries := s.registries.set owner s.made.length
        made := s.made ++ [(owner, sdk.fresh)] } : OwnerScoped R).madeFor s.made.length = some owner := by
      simp [OwnerScoped.madeFor]
    refine ⟨⟨?_, ?_, ?_, ?_⟩, hnew⟩
    · rw [count_set_absent _ hnone]
      exact hroom
    · intro other registry hget
      rw [KeyedTable.get?_set] at hget
      split at hget
      · rename_i hother
        subst hother
        obtain rfl := Option.some.inj hget
        exact hnew
      · exact madeFor_append rfl (hs.owned _ _ hget)
    · exact fun c hc => madeFor_append rfl (hs.awaited c hc)
    · exact fun c hc => madeFor_append rfl (hs.logged c hc)

theorem ownerMachine_kept {s t : OwnerScoped R} {e : OwnerEvent} (hs : OwnersKept maxOwners s)
    (h : ownerMachine sdk maxOwners s e = some t) : OwnersKept maxOwners t := by
  cases e with
  | getOrCreate owner task =>
    simp only [ownerMachine] at h
    split at h
    · obtain rfl := Option.some.inj h
      exact hs
    · rename_i registry u hu
      obtain ⟨hu, hmade⟩ := registryOf_kept hs hu
      obtain rfl := Option.some.inj h
      refine ⟨hu.bounded, hu.owned, ?_, hu.logged⟩
      intro c hc
      rcases List.mem_append.mp hc with hc | hc
      · exact hu.awaited c hc
      · obtain rfl := List.mem_singleton.mp hc
        exact hmade
  | create place =>
    simp only [ownerMachine] at h
    obtain ⟨c, hc, rfl⟩ := Option.map_eq_some_iff.mp h
    have hc := List.mem_of_getElem? hc
    have hsame : ∀ registry, (s.update c.registry fun r => sdk.getOrCreate r c.task).madeFor registry =
        s.madeFor registry := madeFor_update s c.registry _
    refine ⟨hs.bounded, ?_, ?_, ?_⟩
    · exact fun owner registry hget => (hsame registry).trans (hs.owned owner registry hget)
    · exact fun d hd => (hsame _).trans (hs.awaited d (List.mem_of_mem_eraseIdx hd))
    · intro d hd
      refine (hsame _).trans ?_
      rcases List.mem_append.mp hd with hd | hd
      · exact hs.logged d hd
      · obtain rfl := List.mem_singleton.mp hd
        exact hs.awaited d hc
  | finish registry task =>
    obtain rfl := Option.some.inj h
    have hsame : ∀ other, (s.update registry fun r => sdk.finish r task).madeFor other =
        s.madeFor other := madeFor_update s registry _
    refine ⟨hs.bounded, ?_, ?_, ?_⟩
    · exact fun owner other hget => (hsame other).trans (hs.owned owner other hget)
    · exact fun d hd => (hsame _).trans (hs.awaited d hd)
    · exact fun d hd => (hsame _).trans (hs.logged d hd)
  | aclose =>
    obtain rfl := Option.some.inj h
    exact ⟨Nat.zero_le _, fun _ _ hget => by simp at hget, hs.awaited, hs.logged⟩

/-- Calls that created their tasks in one registry are of one owner. -/
theorem OwnersKept.apart {s : OwnerScoped R} (hs : OwnersKept maxOwners s) :
    ∀ c ∈ s.created, ∀ d ∈ s.created, c.registry = d.registry → c.owner = d.owner := by
  intro c hc d hd hsame
  have hc := hs.logged c hc
  have hd := hs.logged d hd
  rw [hsame, hd] at hc
  exact (Option.some.inj hc).symm

/-- In a full table a refusal is just exactly when all rows are busy. -/
theorem othersBusy_all {s : OwnerScoped R} {owner : PyStr} (hs : OwnersKept maxOwners s)
    (hnone : s.registries.get? owner = none) (hfull : maxOwners ≤ s.registries.count) :
    maxOwners ≤ (s.othersBusy sdk owner).length ↔
      ∀ row ∈ s.registries.rows, s.hasUnfinished sdk row.2 = true := by
  have hlen : (s.othersBusy sdk owner).length ≤ s.registries.rows.length := List.length_filter_le _ _
  have hcount : s.registries.rows.length = maxOwners := Nat.le_antisymm hs.bounded hfull
  have hother : ∀ row ∈ s.registries.rows, row.1 ≠ owner := by
    rintro ⟨other, registry⟩ hrow rfl
    exact (KeyedTable.get?_eq_none _).mp hnone registry hrow
  have hall : (s.othersBusy sdk owner).length = s.registries.rows.length ↔
      ∀ row ∈ s.registries.rows, s.hasUnfinished sdk row.2 = true := by
    unfold OwnerScoped.othersBusy
    rw [List.length_filter_eq_length_iff]
    refine forall₂_congr fun row hrow => ?_
    simp [hother row hrow]
  rw [← hall, hcount]
  omega

theorem capacityByActivity_iff {s : OwnerScoped R} {e : OwnerEvent} (hs : OwnersKept maxOwners s) :
    CapacityByActivity sdk maxOwners s e ↔ ComesInTurn sdk maxOwners s e := by
  constructor
  · intro h owner task he howner hopen hnone
    by_cases hfull : maxOwners ≤ s.registries.count
    · have hrefused := h.refused owner task he (registryOf_full.mpr ⟨howner, hopen, hnone, hfull⟩)
      exact Or.inr ((othersBusy_all hs hnone hfull).mp hrefused)
    · exact Or.inl (Nat.lt_of_not_le hfull)
  · intro h
    refine ⟨fun after hafter => (ownerMachine_kept hs hafter).bounded,
      fun after hafter => (ownerMachine_kept hs hafter).apart, ?_⟩
    intro owner task he hrefused
    obtain ⟨howner, hopen, hnone, hfull⟩ := registryOf_full.mp hrefused
    rcases h owner task he howner hopen hnone with hroom | hbusy
    · omega
    · exact (othersBusy_all hs hnone hfull).mpr hbusy

/-- Capacity is about active owners in a run exactly when no owner without a registry comes while all
places are taken and one of those who took them has nothing left to do. -/
theorem capacity_by_activity_iff (sdk : TaskRegistry R) (maxOwners : Nat) (events : List OwnerEvent) :
    (ownerMachine sdk maxOwners).Along (CapacityByActivity sdk maxOwners) OwnerScoped.start events ↔
      (ownerMachine sdk maxOwners).Along (ComesInTurn sdk maxOwners) OwnerScoped.start events :=
  Machine.along_iff (I := OwnersKept maxOwners) (fun _ hs h => ownerMachine_kept hs h)
    (fun hs => capacityByActivity_iff hs) (ownersKept_start maxOwners)

/-- A registry that lists the tasks that run. -/
def listRegistry : TaskRegistry (List PyStr) where
  fresh := []
  getOrCreate tasks task := task :: tasks
  finish tasks task := tasks.erase task
  unfinished tasks := tasks

/-- With one place, an owner whose only task has ended still keeps the next owner out. -/
def idleOwnerRun : List OwnerEvent :=
  [.getOrCreate (lit "alice") (lit "t1"), .create 0, .finish 0 (lit "t1"),
    .getOrCreate (lit "bob") (lit "t2")]

theorem idle_owner_keeps_place :
    ¬ (ownerMachine listRegistry 1).Along (CapacityByActivity listRegistry 1) OwnerScoped.start
      idleOwnerRun := by
  rintro ⟨_, h⟩
  obtain ⟨_, h⟩ := h _ rfl
  obtain ⟨_, h⟩ := h _ rfl
  obtain ⟨h, _⟩ := h _ rfl
  have hrefused := h.refused (lit "bob") (lit "t2") rfl (by rfl)
  exact absurd hrefused (by decide)

end Rdap.Server
