import MoshClient.Session

/-! The calls of `wait_next` in a run (`session/driver.rs`), and the time at which `run_local_shutdown` started. -/

namespace MoshClient
open SessionDriver

/-- What a step of the task observes when the clock does not go back while it sends. -/
structure ClockedInput extends TaskInput where
  ordered : elapsedMs ≤ env.elapsedAfterMs

/-- The loop that the task is in. -/
def TaskState.loop : TaskState → Option TaskLoop
  | .pass loop | .waiting loop _ _ => some loop
  | .finishing _ | .ended _ => none

namespace Session

variable {T : Type}

/-- The loop and the wait with which the next step of the task calls `wait_next`, if it does. -/
def waitNextAt (p : Platform T) (input : TaskInput) (self : Session T) : Option (TaskLoop × Wait) :=
  match self.task, (self.drive p input).task with
  | .pass _, .waiting loop wait _ => some (loop, wait)
  | _, _ => none

/-- The time at which the next action starts the local shutdown, if it does. -/
def startsShutdownAt (p : Platform T) (self : Session T) : SessionAction → Option Nat
  | .drive input =>
    match self.task.loop, (self.drive p input).task.loop with
    | some .run, some (.localShutdown _) => some input.elapsedMs
    | _, _ => none
  | _ => none

/-- The time at which a run has started its local shutdown. -/
def shutdownStartedMs (p : Platform T) : Session T → List SessionAction → Option Nat
  | _, [] => none
  | self, action :: actions =>
    match self.startsShutdownAt p action with
    | some startedMs => some startedMs
    | none => shutdownStartedMs p (self.step p action) actions

end Session
end MoshClient
