import Mathlib.Logic.Function.Basic
import MoshClient.Driver

/-! The handle of a session (`session.rs`) and the task that runs its driver, one step at a time. Any
    number of threads call the handle. Between two steps of a thread, and between two polls of the task,
    every other thread may take its own steps. -/

namespace MoshClient
open Limits Effect SessionDriver

inductive SessionCommandError where
  | closed
  | inputTooLarge
  | invalidTerminalSize
  deriving DecidableEq, Repr

/-- The check that `send_input` and `resize` make before they send. -/
def SessionCommand.check : SessionCommand → Except SessionCommandError Unit
  | .input bytes => if bytes.length > maxInputCommandBytes then .error .inputTooLarge else .ok ()
  | .resize columns rows => if !isValidSize columns rows then .error .invalidTerminalSize else .ok ()
  | .repaint => .ok ()

/-- Where a thread is in its call of `send_command` or of `close`. -/
inductive ThreadState where
  | idle
  | returned (result : Except SessionCommandError Unit)
  | reserving (command : SessionCommand)
  | locking (command : SessionCommand)
  | closeLocking
  | locked

/-- The thread is in no call. -/
def ThreadState.isIdle : ThreadState → Bool
  | .idle | .returned _ => true
  | _ => false

/-- Where the holder of the lock of the close flag is, in `send_command` or in `close`. -/
inductive LockedState where
  | checking (command : SessionCommand)
  | enqueuing (command : SessionCommand)
  | unlocking (command : SessionCommand)
  | flagging
  | signalling
  | closeUnlocking

/-- The two loops of the task: `run`, and `run_local_shutdown`. -/
inductive TaskLoop where
  | run
  | localShutdown (progress : LocalShutdown)

/-- What `wait_next` polls, in this order; `rest` stands for the timer, the output and the socket. -/
inductive PollStage where
  | cancellation
  | commands
  | gracefulClose
  | rest

inductive TaskState where
  | pass (loop : TaskLoop)
  | waiting (loop : TaskLoop) (wait : Wait) (stage : PollStage)
  | finishing (exit : SessionExit)
  | ended (result : Except DriverError SessionExit)

def TaskState.isEnded : TaskState → Bool
  | .ended _ => true
  | _ => false

/-- What the timer, the output channel and the socket answer to a poll; a received datagram comes with the
    readings of the clock that its handling makes. -/
inductive Readiness where
  | none
  | timer
  | output
  | datagram (received : Except ErrorKind (Bytes × SocketAddr)) (decodedAtMs handledAtMs repliedAtMs : Nat)

/-- What a step of the task observes. -/
structure TaskInput where
  elapsedMs : Nat
  env : Transmission
  ready : Readiness

inductive SessionAction where
  | send (thread : Nat) (command : SessionCommand)
  | close (thread : Nat)
  /-- A thread takes the next step of its call. -/
  | thread (thread : Nat)
  | cancel
  | drop
  /-- The task takes its next step. -/
  | drive (input : TaskInput)
  /-- The task publishes that the session is closed. -/
  | publish

/-- What a datagram leads to: another pass, the last output, or the end. -/
inductive AfterDatagram where
  | again
  | finish (exit : SessionExit)
  | exit (exit : SessionExit)

namespace SessionDriver

variable {T α : Type}

/-- Handles what the socket answered, in either loop. -/
def receive (p : Platform T) (env : Transmission) (elapsedMs decodedAtMs handledAtMs repliedAtMs : Nat)
    (received : Except ErrorKind (Bytes × SocketAddr)) (loop : TaskLoop) : Driving T AfterDatagram := do
  match ← classifyReceive elapsedMs received with
  | none => return .again
  | some (datagram, source) =>
    match loop with
    | .run => do
      match ← handleDatagram p decodedAtMs handledAtMs datagram source with
      | .continue => return .again
      | .remoteShutdown => do
        let now ← nowMs repliedAtMs
        if ← sendShutdownAcknowledgement p env now then return .finish .remoteClosed
        else return .exit .cancelled
    | .localShutdown _ => do
      match ← handleShutdownDatagram p env decodedAtMs handledAtMs datagram source with
      | none => return .again
      | some .cancelled => return .exit .cancelled
      | some exit => return .finish exit

/-- The instructions that a method transmits. -/
def transmittedBy (m : Driving T α) (driver : SessionDriver T) : List TransportInstruction :=
  (exec m driver).trace.transmitted.drop driver.trace.transmitted.length

end SessionDriver

/-- The handle with its threads, the channels between them, and the task. -/
structure Session (T : Type) where
  driver : SessionDriver T
  task : TaskState
  threads : Nat → ThreadState
  /-- The lock of the close flag, with the thread that holds it. -/
  lock : Option (Nat × LockedState)
  closeRequested : Bool
  gracefulClose : Bool
  cancellation : Bool
  queue : List SessionCommand
  /-- The places of the queue that are reserved and not yet filled. -/
  permits : Nat
  /-- The published state is `Closed`. -/
  closed : Bool
  dropped : Bool
  /-- The commands that the task has taken from the queue. -/
  handled : List SessionCommand
  /-- The commands for which `send_command` returned `Ok`. -/
  accepted : List SessionCommand
  /-- Those of them for which it had returned when `close` was first called. -/
  acceptedBeforeClose : Option (List SessionCommand)
  /-- Those of them for which it returned while the close flag was set. -/
  acceptedAfterClose : List SessionCommand
  /-- The shutdown requests that the driver has sent. -/
  requests : List TransportInstruction

namespace Session

variable {T α : Type}

def start (driver : SessionDriver T) : Session T where
  driver := driver
  task := .pass .run
  threads _ := .idle
  lock := none
  closeRequested := false
  gracefulClose := false
  cancellation := false
  queue := []
  permits := 0
  closed := false
  dropped := false
  handled := []
  accepted := []
  acceptedBeforeClose := none
  acceptedAfterClose := []
  requests := []

/-! ### The handle -/

def setThread (thread : Nat) (state : ThreadState) (self : Session T) : Session T :=
  { self with threads := Function.update self.threads thread state }

/-- The first part of `send_input`, `resize` and `request_repaint`. -/
def send (thread : Nat) (command : SessionCommand) (self : Session T) : Session T :=
  if (self.threads thread).isIdle ∧ ¬self.dropped then
    match command.check with
    | .error e => self.setThread thread (.returned (.error e))
    | .ok () => self.setThread thread (.reserving command)
  else self

def close (thread : Nat) (self : Session T) : Session T :=
  if (self.threads thread).isIdle ∧ ¬self.dropped then
    { self.setThread thread .closeLocking with
      acceptedBeforeClose := some (self.acceptedBeforeClose.getD self.accepted) }
  else self

/-- The next step of the thread that holds the lock. -/
def stepLocked (thread : Nat) (self : Session T) : LockedState → Session T
  | .checking command =>
    if self.closeRequested ∨ self.cancellation ∨ self.closed then
      { self.setThread thread (.returned (.error .closed)) with lock := none, permits := self.permits - 1 }
    else { self with lock := some (thread, .enqueuing command) }
  | .enqueuing command =>
    { self with
      lock := some (thread, .unlocking command)
      queue := self.queue ++ [command]
      permits := self.permits - 1 }
  | .unlocking command =>
    { self.setThread thread (.returned (.ok ())) with
      lock := none
      accepted := self.accepted ++ [command]
      acceptedAfterClose :=
        if self.closeRequested then self.acceptedAfterClose ++ [command] else self.acceptedAfterClose }
  | .flagging =>
    if self.closeRequested then { self with lock := some (thread, .closeUnlocking) }
    else { self with lock := some (thread, .signalling), closeRequested := true }
  | .signalling => { self with lock := some (thread, .closeUnlocking), gracefulClose := true }
  | .closeUnlocking => { self.setThread thread .idle with lock := none }

/-- The next step of a thread in its call. A step that has to wait changes nothing. -/
def stepThread (thread : Nat) (self : Session T) : Session T :=
  match self.threads thread with
  | .idle | .returned _ => self
  | .reserving command =>
    -- The receiver of the queue is gone with the driver.
    if self.task.isEnded then self.setThread thread (.returned (.error .closed))
    else if self.queue.length + self.permits < sessionCommandQueueCapacity then
      { self.setThread thread (.locking command) with permits := self.permits + 1 }
    else self
  | .locking command =>
    match self.lock with
    | none => { self.setThread thread .locked with lock := some (thread, .checking command) }
    | some _ => self
  | .closeLocking =>
    match self.lock with
    | none => { self.setThread thread .locked with lock := some (thread, .flagging) }
    | some _ => self
  | .locked =>
    match self.lock with
    | none => self
    | some (holder, state) => if holder = thread then self.stepLocked thread state else self

/-! ### The task -/

def exit (exit : SessionExit) (self : Session T) : Session T := { self with task := .ended (.ok exit) }

/-- Runs a method of the driver, and goes on as its value says; an error ends the task. -/
def perform (m : Driving T α) (next : α → TaskState) (self : Session T) : Session T :=
  match m self.driver with
  | .ok a driver => { self with driver := driver, task := next a }
  | .error e driver => { self with driver := driver, task := .ended (.error e) }

/-- A pass of the loop, from its top to the wait. -/
def pass (p : Platform T) (input : TaskInput) (self : Session T) : TaskLoop → Session T
  | .run =>
    self.perform (SessionDriver.pass p input.env input.elapsedMs) fun outcome =>
      match outcome with
      | .sendAttempted => .pass .run
      | .wait wait => .waiting .run wait .cancellation
  | .localShutdown progress =>
    let request := shutdownPass p input.env input.elapsedMs progress
    { self with requests := self.requests ++ transmittedBy request self.driver }.perform request fun outcome =>
      match outcome with
      | .exit exit => .ended (.ok exit)
      | .wait progress wait => .waiting (.localShutdown progress) wait .cancellation

def pollCommands (p : Platform T) (input : TaskInput) (loop : TaskLoop) (wait : Wait) (self : Session T) : Session T :=
  match self.queue with
  | [] => if self.dropped then self.exit .ownerDropped else { self with task := .waiting loop wait .gracefulClose }
  | command :: queue =>
    { self with queue := queue, handled := self.handled ++ [command] }.perform
      (handleCommand p input.elapsedMs command) fun _ => .pass loop

def pollRest (p : Platform T) (input : TaskInput) (loop : TaskLoop) (wait : Wait) (self : Session T) : Session T :=
  match input.ready with
  | .none => { self with task := .waiting loop wait .cancellation }
  | .timer => { self with task := .pass loop }
  | .output =>
    if ¬wait.needsOutput then self
    else if self.dropped then self.exit .ownerDropped
    else self.perform (emitOutput p) fun _ => .pass loop
  | .datagram received decodedAtMs handledAtMs repliedAtMs =>
    if ¬wait.receiveEnabled then self
    else
      self.perform (receive p input.env input.elapsedMs decodedAtMs handledAtMs repliedAtMs received loop) fun next =>
        match next with
        | .again => .pass loop
        | .finish exit => .finishing exit
        | .exit exit => .ended (.ok exit)

/-- The last output, after a close that the peer took part in. -/
def finish (p : Platform T) (input : TaskInput) (exit : SessionExit) (self : Session T) : Session T :=
  if ¬self.driver.outputRequested then self.exit exit
  else if self.cancellation then self.exit .cancelled
  else if self.dropped then self.exit .ownerDropped
  else
    match input.ready with
    | .output => self.perform (emitOutput p) fun _ => .ended (.ok exit)
    | _ => self

/-- The next step of the task. -/
def drive (p : Platform T) (input : TaskInput) (self : Session T) : Session T :=
  match self.task with
  | .pass loop => if self.cancellation then self.exit .cancelled else self.pass p input loop
  | .waiting loop wait .cancellation =>
    if self.cancellation then self.exit .cancelled else { self with task := .waiting loop wait .commands }
  | .waiting loop wait .commands => self.pollCommands p input loop wait
  | .waiting .run wait .gracefulClose =>
    if self.gracefulClose then
      self.perform (beginLocalShutdown input.elapsedMs) fun progress => .pass (.localShutdown progress)
    else { self with task := .waiting .run wait .rest }
  | .waiting (.localShutdown progress) wait .gracefulClose =>
    { self with task := .waiting (.localShutdown progress) wait .rest }
  | .waiting loop wait .rest => self.pollRest p input loop wait
  | .finishing exit => self.finish p input exit
  | .ended _ => self

/-! ### Runs -/

def step (p : Platform T) (self : Session T) : SessionAction → Session T
  | .send thread command => self.send thread command
  | .close thread => self.close thread
  | .thread thread => self.stepThread thread
  | .cancel => if self.dropped then self else { self with cancellation := true }
  | .drop => { self with dropped := true }
  | .drive input => self.drive p input
  | .publish => if self.task.isEnded then { self with closed := true } else self

def run (p : Platform T) (self : Session T) (actions : List SessionAction) : Session T :=
  actions.foldl (step p) self

end Session
end MoshClient
