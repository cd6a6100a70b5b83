import MoshClient.Session

/-! The attempts of `run` to send an instruction (`session/driver.rs`), with the times of the polls that led to
    them and how they ended. A pass is cut where it polls the scheduler, and `send_instruction` where the
    transmission has ended. -/

namespace MoshClient
open Effect SessionDriver

/-- An attempt to send, at the time of its poll. An attempt that failed has no outcome. -/
structure SendAttempt where
  atMs : Nat
  outcome : Option TransportSendOutcome
  deriving DecidableEq, Repr

namespace SessionDriver

variable {T : Type}

/-- A pass of `run` up to the poll. -/
def beginPass (elapsedMs : Nat) : Driving T Nat := do
  let now ← nowMs elapsedMs
  publishReachability now
  let self ← get
  if self.reachability.attachmentTimedOut now then throw .connectionTimeout
  else do
    let _ ← onReassembler (FragmentReassembler.expire now)
    modify (expirePrediction now)
    modify (updatePredictionPolicy now)
    return now

/-- A pass of `run` from the answer of the scheduler on. -/
def finishPass (p : Platform T) (env : Transmission) (now : Nat) : SchedulerPoll → Driving T PassOutcome
  | .send plan => do
    sendInstruction p env plan now
    return .sendAttempted
  | .pending wakeAtMs => do
    let wait ← runWait now wakeAtMs
    return .wait wait

/-- `sendInstruction` up to the end of the transmission. -/
def attemptSend (p : Platform T) (env : Transmission) (now : Nat) : Driving T (SendPlan × TransportSendOutcome) := do
  let plan ← planOrAllocate now
  let difference ← planDifference plan.baseState plan.targetState
  let outcome ← sendTransportInstruction p env (plan.instruction difference initialChaff) now
  return (plan, outcome)

/-- `sendInstruction` from the end of the transmission on. -/
def settleSend (env : Transmission) (wakePlan : WakePlan) (plan : SendPlan) : TransportSendOutcome → Driving T Unit
  | .sent => do
    commitSend plan
    onScheduler (SendScheduler.commitSend wakePlan)
  | .cancelled => return ()
  | .deferred => do
    let failedAtMs ← nowMs env.elapsedAfterMs
    deferTemporarySend failedAtMs

/-- How the transmission ends, if it does not fail. -/
def outcomeOf (p : Platform T) (env : Transmission) (now : Nat) (self : SessionDriver T) : Option TransportSendOutcome :=
  match attemptSend p env now self with
  | .ok (_, outcome) _ => some outcome
  | .error _ _ => none

/-- The attempt that a pass makes. -/
def attempt (p : Platform T) (input : TaskInput) (self : SessionDriver T) : Option SendAttempt :=
  match beginPass input.elapsedMs self with
  | .error _ _ => none
  | .ok now begun =>
    match pollScheduler now begun with
    | .ok (.send _) polled => some ⟨now, outcomeOf p input.env now polled⟩
    | _ => none

end SessionDriver

namespace Session

variable {T : Type}

/-- The attempt of the next step of the task. -/
def attemptAt (p : Platform T) (self : Session T) : SessionAction → Option SendAttempt
  | .drive input =>
    match self.task with
    | .pass .run => if self.cancellation then none else self.driver.attempt p input
    | _ => none
  | _ => none

/-- The attempts of a run, in their order. After one that is cancelled, `run` returns. -/
def attempts (p : Platform T) : Session T → List SessionAction → List SendAttempt
  | _, [] => []
  | self, action :: actions =>
    match self.attemptAt p action with
    | none => attempts p (self.step p action) actions
    | some attempt =>
      attempt :: if attempt.outcome = some .cancelled then [] else attempts p (self.step p action) actions

end Session
end MoshClient
