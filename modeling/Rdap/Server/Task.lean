import Rdap.Python.Text

/-!
# A2A tasks

The protobuf task, with the fields that the node reads by name. What it only copies (history,
artifacts, metadata) is one opaque field.
-/

set_option autoImplicit false

namespace Rdap.Server
open Python

inductive TaskState where
  | unspecified | submitted | working | completed | failed | canceled | inputRequired | rejected
  | authRequired
  deriving DecidableEq, Repr

/-- `_TERMINAL_STATES` -/
def terminalStates : List TaskState := [.completed, .canceled, .failed, .rejected]

structure Timestamp where
  seconds : Int
  nanos : Int
  deriving DecidableEq

structure TaskStatus where
  state : TaskState
  timestamp : Option Timestamp
  deriving DecidableEq

structure Task where
  id : PyStr
  contextId : PyStr
  status : Option TaskStatus
  rest : Bytes
  deriving DecidableEq

namespace Task

/-- The state of an unset status reads as unspecified. -/
def state (task : Task) : TaskState :=
  match task.status with
  | some status => status.state
  | none => .unspecified

def timestamp (task : Task) : Option Timestamp := task.status.bind TaskStatus.timestamp

def terminal (task : Task) : Bool := task.state ∈ terminalStates

def rejected (task : Task) : Bool := task.state = .rejected

theorem terminal_of_rejected {task : Task} (h : task.rejected = true) : task.terminal = true := by
  have hstate : task.state = .rejected := by simpa [rejected] using h
  simp [terminal, hstate, terminalStates]

end Task

end Rdap.Server
