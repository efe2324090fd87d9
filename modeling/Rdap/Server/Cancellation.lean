import Rdap.Identity.Revocations
import Rdap.Server.TaskStore

/-!
# Cancelling a running task

Two writers of one row. The executor enqueues updates, and the SDK saves those it does not
drop, in order, each applied to its own copy of the task. The cancel handler looks the task
up, authorizes, lets the SDK cancel the producer, and stores the canceled task itself. The
store overwrites a row whatever its state.
-/

set_option autoImplicit false

namespace Rdap.Server
open Python Lib Identity

/-- What the executor enqueues. -/
inductive Update where
  | status (value : TaskStatus)
  | artifact (part : Bytes)

def Update.apply (task : Task) : Update → Task
  | .status value => { task with status := some value }
  | .artifact part => { task with rest := task.rest ++ part }

/-- Where `execute` stands once the delegation is verified. `logIncoming` stands for the
entries in the team memory before the brain runs, `logDone` and `logFailed` for those after. -/
inductive Pc where
  | newTask | submit | startWork | logIncoming | announce | brain | artifact | complete | logDone
  | logFailed | failed | ended
  deriving DecidableEq, Repr

namespace Pc

/-- The statement after this one if nothing is raised. -/
def next : Pc → Pc
  | newTask => submit
  | submit => startWork
  | startWork => logIncoming
  | logIncoming => announce
  | announce => brain
  | brain => artifact
  | artifact => complete
  | complete => logDone
  | logDone => ended
  | logFailed => failed
  | failed => ended
  | ended => ended

/-- The statement after an exception: the handler inside the `try`, the end elsewhere. -/
def handler : Pc → Pc
  | newTask | logFailed | failed | ended => ended
  | _ => logFailed

/-- The status a statement reports. The artifact is built from the brain's answer, also
when that answer is the word it gives on cancellation. -/
def reports : Pc → Option TaskState
  | newTask | submit => some .submitted
  | startWork | announce => some .working
  | complete => some .completed
  | failed => some .failed
  | _ => none

/-- Whether a statement enqueues the update. -/
def Enqueues (pc : Pc) : Update → Prop
  | .status value => pc.reports = some value.state
  | .artifact _ => pc = artifact

instance (pc : Pc) (u : Update) : Decidable (pc.Enqueues u) :=
  match u with
  | .status _ => inferInstanceAs (Decidable (_ = _))
  | .artifact _ => inferInstanceAs (Decidable (_ = _))

/-- Statements that enqueue nothing. -/
def silent (pc : Pc) : Bool := pc.reports.isNone && pc ≠ artifact && pc ≠ ended

end Pc

/-- Where `on_cancel_task` stands. -/
inductive CancelPhase where
  | idle
  | found
  | authorized
  /-- The task the SDK returned. -/
  | sdkDone (task : Task)
  | returned
  | refused

section
variable {T : Type}

/-- What is fixed for one task: its owner and id, and the node's settings. -/
structure Scene (T : Type) [LinearOrder T] [Zero T] where
  sdk : Sdk
  limits : Limits T
  requireSigned : Bool
  owner : PyStr
  isAuthenticated : Bool
  taskId : PyStr

structure Race (T : Type) where
  pc : Pc
  queue : List Update
  closed : Bool
  /-- The SDK's copy of the task. -/
  copy : Task
  store : Store T
  phase : CancelPhase
  /-- Tasks stored by the SDK after the cancel call returned, the last first. -/
  later : List Task

inductive RaceEvent (T : Type) where
  /-- The executor runs a statement that enqueues nothing. -/
  | advance
  /-- It enqueues an update, which the SDK keeps or drops. -/
  | enqueue (update : Update) (kept : Bool)
  | raise
  /-- The executor's coroutine is cancelled from outside. -/
  | abort
  | close
  /-- The SDK saves the oldest update. -/
  | saveUpdate (now : T)
  | lookUp (now : T)
  | authorize (peers : Except PyExc Peers) (revocations : Except PyExc (List PyStr))
  | sdkCancel (task : Task)
  | finishCancel (stamp : Timestamp) (now : T)

section Steps
variable [LinearOrder T] [Zero T] [Sub T]

def Race.saveUpdate (scene : Scene T) (s : Race T) (now : T) : Option (Race T) :=
  match s.queue with
  | [] => none
  | update :: rest =>
    let task := update.apply s.copy
    let r := s.store.save scene.sdk scene.limits scene.owner task now
    some
      { s with
        queue := rest
        copy := task
        store := r.2
        later :=
          match s.phase, r.1 with
          | .returned, .ok () => task :: s.later
          | _, _ => s.later }

def Race.lookUp (scene : Scene T) (s : Race T) (now : T) : Option (Race T) :=
  match s.phase, s.store.get scene.limits scene.owner scene.taskId now with
  | .idle, (.ok (some _), store) => some { s with store, phase := .found }
  | .idle, (_, store) => some { s with store, phase := .refused }
  | _, _ => none

def Race.finishCancel (scene : Scene T) (s : Race T) (stamp : Timestamp) (now : T) :
    Option (Race T) :=
  match s.phase with
  | .sdkDone task =>
    if task.state = .canceled then some { s with phase := .returned }
    else
      match s.store.save scene.sdk scene.limits scene.owner
          { task with status := some ⟨.canceled, some stamp⟩ } now with
      | (.ok (), store) => some { s with store, phase := .returned }
      | (.error _, store) => some { s with store, phase := .refused }
  | _ => none

def raceStep (scene : Scene T) : Machine (Race T) (RaceEvent T)
  | s, .advance => if s.pc.silent then some { s with pc := s.pc.next } else none
  | s, .enqueue update kept =>
    if s.pc.Enqueues update then
      some
        { s with
          pc := s.pc.next
          queue := if kept && !s.closed then s.queue ++ [update] else s.queue }
    else none
  | s, .raise => some { s with pc := s.pc.handler }
  | s, .abort => some { s with pc := .ended }
  | s, .close => some { s with closed := true }
  | s, .saveUpdate now => s.saveUpdate scene now
  | s, .lookUp now => s.lookUp scene now
  | s, .authorize peers revocations =>
    match s.phase with
    | .found =>
      match authorizeCancellation scene.requireSigned peers revocations scene.owner
          scene.isAuthenticated with
      | .ok _ => some { s with phase := .authorized }
      | .error _ => some { s with phase := .refused }
    | _ => none
  | s, .sdkCancel task =>
    match s.phase with
    | .authorized => if task.id = scene.taskId then some { s with phase := .sdkDone task } else none
    | _ => none
  | s, .finishCancel stamp now => s.finishCancel scene stamp now

end Steps

/-- What the handler relies on in the SDK's cancel: it closes the producer's queue before it
calls the hook, and has drained the queue when it hands the task back. -/
def CancelDrains : Race T → RaceEvent T → Prop
  | s, .sdkCancel _ => s.closed = true ∧ s.queue = []
  | _, _ => True

instance (s : Race T) (e : RaceEvent T) : Decidable (CancelDrains s e) :=
  match e with
  | .sdkCancel _ =>
    decidable_of_iff (s.closed = true ∧ s.queue.isEmpty = true) (by simp [CancelDrains])
  | .advance | .enqueue _ _ | .raise | .abort | .close | .saveUpdate _ | .lookUp _
  | .authorize _ _ | .finishCancel _ _ => .isTrue trivial

def Race.Fresh (s : Race T) : Prop := s.phase = .idle ∧ s.later = []

/-- No stored status after the cancellation contradicts it. -/
def Absorbed (s : Race T) : Prop :=
  ∀ task ∈ s.later, task.state ∉ [TaskState.working, .completed, .failed]

instance (s : Race T) : Decidable (Absorbed s) := inferInstanceAs (Decidable (∀ _ ∈ _, _))

/-- The SDK's part of the cancellation is over. -/
def CancelPhase.sdkOver : CancelPhase → Bool
  | sdkDone _ | returned => true
  | idle | found | authorized | refused => false

/-- From the end of the SDK's part on, nothing that the execution reports is kept. -/
structure Settled (s : Race T) : Prop where
  closed : s.phase.sdkOver = true → s.closed = true
  drained : s.phase.sdkOver = true → s.queue = []
  absorbed : Absorbed s

/-- A step before the end of the SDK's part, or one that refuses the cancellation. -/
theorem Settled.early {s t : Race T} (hs : Settled s) (hphase : t.phase.sdkOver = false)
    (hlater : t.later = s.later) : Settled t where
  closed := fun hover => Bool.noConfusion (hphase.symm.trans hover)
  drained := fun hover => Bool.noConfusion (hphase.symm.trans hover)
  absorbed := by
    unfold Absorbed
    rw [hlater]
    exact hs.absorbed

/-- A closed queue drops what the execution still reports. -/
theorem Settled.enqueue {s : Race T} (hs : Settled s) (pc : Pc) (update : Update) (kept : Bool) :
    Settled
      { s with
        pc
        queue := if kept && !s.closed then s.queue ++ [update] else s.queue } where
  closed := hs.closed
  drained := by
    intro hover
    simp only [hs.closed hover, Bool.not_true, Bool.and_false, Bool.false_eq_true, if_false]
    exact hs.drained hover
  absorbed := hs.absorbed

variable [LinearOrder T] [Zero T] [Sub T] {scene : Scene T}

/-- An update that is saved was still waiting, so the SDK's part is not over. -/
theorem settled_saveUpdate {s t : Race T} {now : T} (hs : Settled s)
    (h : s.saveUpdate scene now = some t) : Settled t := by
  unfold Race.saveUpdate at h
  split at h
  · cases h
  · rename_i update rest hqueue
    obtain rfl := Option.some.inj h
    have hrunning : s.phase.sdkOver = false := by
      apply Bool.eq_false_of_not_eq_true
      intro hover
      rw [hs.drained hover] at hqueue
      cases hqueue
    refine hs.early hrunning ?_
    simp only
    split
    · rename_i hphase _
      rw [hphase] at hrunning
      cases hrunning
    · rfl

theorem settled_lookUp {s t : Race T} {now : T} (hs : Settled s)
    (h : s.lookUp scene now = some t) : Settled t := by
  unfold Race.lookUp at h
  split at h
  · obtain rfl := Option.some.inj h
    exact hs.early rfl rfl
  · obtain rfl := Option.some.inj h
    exact hs.early rfl rfl
  · cases h

theorem settled_finishCancel {s t : Race T} {stamp : Timestamp} {now : T} (hs : Settled s)
    (h : s.finishCancel scene stamp now = some t) : Settled t := by
  unfold Race.finishCancel at h
  split at h
  · rename_i task hphase
    have hover : s.phase.sdkOver = true := by rw [hphase]; rfl
    split at h
    · obtain rfl := Option.some.inj h
      exact ⟨fun _ => hs.closed hover, fun _ => hs.drained hover, hs.absorbed⟩
    · split at h
      · obtain rfl := Option.some.inj h
        exact ⟨fun _ => hs.closed hover, fun _ => hs.drained hover, hs.absorbed⟩
      · obtain rfl := Option.some.inj h
        exact hs.early rfl rfl
  · cases h

theorem settled_step {s t : Race T} {e : RaceEvent T} (hdrains : CancelDrains s e)
    (hs : Settled s) (h : raceStep scene s e = some t) : Settled t := by
  cases e with
  | advance =>
    simp only [raceStep] at h
    split at h
    · obtain rfl := Option.some.inj h
      exact ⟨hs.closed, hs.drained, hs.absorbed⟩
    · cases h
  | enqueue update kept =>
    simp only [raceStep] at h
    split at h
    · obtain rfl := Option.some.inj h
      exact hs.enqueue s.pc.next update kept
    · cases h
  | raise =>
    obtain rfl := Option.some.inj h
    exact ⟨hs.closed, hs.drained, hs.absorbed⟩
  | abort =>
    obtain rfl := Option.some.inj h
    exact ⟨hs.closed, hs.drained, hs.absorbed⟩
  | close =>
    obtain rfl := Option.some.inj h
    exact ⟨fun _ => rfl, hs.drained, hs.absorbed⟩
  | saveUpdate now => exact settled_saveUpdate hs h
  | lookUp now => exact settled_lookUp hs h
  | authorize peers revocations =>
    simp only [raceStep] at h
    split at h
    · split at h <;> obtain rfl := Option.some.inj h <;> exact hs.early rfl rfl
    · cases h
  | sdkCancel task =>
    simp only [raceStep] at h
    split at h
    · split at h
      · obtain rfl := Option.some.inj h
        exact ⟨fun _ => hdrains.1, fun _ => hdrains.2, hs.absorbed⟩
      · cases h
    · cases h
  | finishCancel stamp now => exact settled_finishCancel hs h

end

namespace Sample

def sdk : Sdk := ⟨fun task => task.rest.length, fun _ => [], fun token => .ok token, id, 50⟩

def limits : Limits Int := ⟨256, 8 * 1024 * 1024, 3600, by decide⟩

def scene : Scene Int := ⟨sdk, limits, false, lit "alice", true, lit "t1"⟩

def race : Race Int :=
  ⟨.newTask, [], false, ⟨lit "t1", [], none, []⟩, .empty, .idle, []⟩

def report (state : TaskState) : RaceEvent Int := .enqueue (.status ⟨state, none⟩) true

/-- The task is at work, with an update not saved yet, when its cancellation is let through. -/
def atWork : List (RaceEvent Int) :=
  [report .submitted, report .submitted, report .working, .saveUpdate 1, .saveUpdate 1,
    .saveUpdate 1, .advance, report .working, .lookUp 3, .authorize (.ok .empty) (.ok [])]

/-- The SDK closes the queue, saves what was waiting and hands back the task as working. The
brain comes back once the cancel call has returned. -/
def lateRun : List (RaceEvent Int) :=
  atWork ++ [.close, .saveUpdate 3, .sdkCancel ⟨lit "t1", [], some ⟨.working, none⟩, []⟩,
    .finishCancel ⟨4, 0⟩ 4, .advance, .enqueue (.artifact []) true, report .completed]

def Returned (s : Race Int) : Prop := match s.phase with | .returned => True | _ => False

instance (s : Race Int) : Decidable (Returned s) :=
  match h : s.phase with
  | .returned => .isTrue (by simp [Returned, h])
  | .idle | .found | .authorized | .sdkDone _ | .refused => .isFalse (by simp [Returned, h])

/-- The status of the stored task. -/
def storedState (s : Race Int) : Option TaskState :=
  match (s.store.get limits (lit "alice") (lit "t1") 5).1 with
  | .ok (some task) => some task.state
  | _ => none

/-- The call has returned, the execution has reported to its end, and the row is canceled. -/
def CanceledForGood (s : Race Int) : Prop :=
  Returned s ∧ s.pc = .logDone ∧ storedState s = some .canceled

instance (s : Race Int) : Decidable (CanceledForGood s) := inferInstanceAs (Decidable (_ ∧ _))

end Sample

end Rdap.Server
