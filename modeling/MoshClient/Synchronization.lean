import MoshClient.Lib.Effect
import MoshClient.Lib.Increasing
import MoshClient.Instruction

/-! The SSP synchronization state (`synchronization.rs`): the numbers of the local states a peer may hold,
    and of the remote states this endpoint retains as references. -/

namespace MoshClient
open Machine Limits

inductive SynchronizationError where
  | stateNumberExhausted
  | invalidAcknowledgement
  | incompatibleVersion
  | invalidStateTransition
  | invalidThrowaway
  | invalidRetransmissionTimeout
  | timeMovedBackwards
  | noNewState
  | stalePlan
  | generationExhausted
  deriving DecidableEq, Repr

inductive AcknowledgementDisposition where
  | advanced (old new : Nat)
  | current
  | stale
  | unknown
  deriving DecidableEq, Repr

structure SendPlan where
  generation : Nat
  baseState : Nat
  targetState : Nat
  acknowledgedState : Nat
  throwawayState : Nat
  plannedAtMs : Nat
  deriving DecidableEq, Repr

structure SendCommit where
  capacityEvictedState : Option Nat
  deriving DecidableEq, Repr

def SendPlan.instruction (plan : SendPlan) (stateDifference chaff : Bytes) : TransportInstruction where
  protocolVersion := protocolVersion
  baseState := plan.baseState
  newState := plan.targetState
  acknowledgedState := plan.acknowledgedState
  discardBeforeState := plan.throwawayState
  stateDifference := stateDifference
  chaff := chaff

structure ApplyPlan where
  generation : Nat
  baseState : Nat
  targetState : Nat
  throwawayState : Nat
  difference : Bytes
  becomesLatest : Bool
  deriving DecidableEq, Repr

inductive RemoteStateDisposition where
  | apply (plan : ApplyPlan)
  | alreadyConstructed
  | missingReference
  | belowThrowawayFloor
  | belowRetentionWindow
  deriving DecidableEq, Repr

structure ReceiveTransition where
  acknowledgement : AcknowledgementDisposition
  remoteState : RemoteStateDisposition
  deriving DecidableEq, Repr

structure ShutdownTransition where
  baseState : Nat
  difference : Bytes
  deriving DecidableEq, Repr

structure ReceiveCommit where
  discardBeforeState : Nat
  capacityEvictedState : Option Nat
  deriving DecidableEq, Repr

structure SentState where
  number : Nat
  sentAtMs : Nat
  deriving DecidableEq, Repr

structure SynchronizationState where
  localLatest : Nat
  knownReceiverState : Nat
  sentStates : List SentState
  senderGeneration : Nat
  remoteLatest : Nat
  remoteThrowawayFloor : Nat
  receivedStates : List Nat
  receiverGeneration : Nat
  deriving DecidableEq, Repr

/-- A method that may change the synchronization state. -/
abbrev Synchronizing := EStateM SynchronizationError SynchronizationState

namespace SynchronizationState

def new : SynchronizationState where
  localLatest := 0
  knownReceiverState := 0
  sentStates := []
  senderGeneration := 0
  remoteLatest := 0
  remoteThrowawayFloor := 0
  receivedStates := [0]
  receiverGeneration := 0

def latestUnacknowledgedSentAtMs (self : SynchronizationState) : Option Nat :=
  self.sentStates.getLast?.map SentState.sentAtMs

def sentStateSentAtMs (self : SynchronizationState) (number : Nat) : Option Nat :=
  (self.sentStates.find? fun sent => sent.number == number).map SentState.sentAtMs

/-! ### Sending -/

def advanceLocal : Synchronizing Nat := fun self =>
  match checkedAdd self.localLatest 1 with
  | none => .error .stateNumberExhausted self
  | some nextState =>
    match checkedAdd self.senderGeneration 1 with
    | none => .error .generationExhausted self
    | some nextGeneration =>
      .ok nextState { self with localLatest := nextState, senderGeneration := nextGeneration }

/-- The base of a send: the newest sent state, from the end of the list, whose timeout has not expired,
    or `known`. -/
def selectBase (nowMs retransmissionTimeoutMs known : Nat) : List SentState → Except SynchronizationError Nat
  | [] => .ok known
  | sent :: older =>
    match checkedSub nowMs sent.sentAtMs with
    | none => .error .timeMovedBackwards
    | some elapsed =>
      if elapsed < retransmissionTimeoutMs then .ok sent.number
      else selectBase nowMs retransmissionTimeoutMs known older

def planSend (self : SynchronizationState) (nowMs retransmissionTimeoutMs : Nat) :
    Except SynchronizationError SendPlan :=
  if ¬(minRetransmissionTimeoutMs ≤ retransmissionTimeoutMs ∧
      retransmissionTimeoutMs ≤ maxRetransmissionTimeoutMs) then .error .invalidRetransmissionTimeout
  else
    match selectBase nowMs retransmissionTimeoutMs self.knownReceiverState self.sentStates.reverse with
    | .error e => .error e
    | .ok baseState =>
      if self.localLatest ≤ baseState then .error .noNewState
      else .ok
        { generation := self.senderGeneration
          baseState := baseState
          targetState := self.localLatest
          acknowledgedState := self.remoteLatest
          throwawayState := self.knownReceiverState
          plannedAtMs := nowMs }

/-- Notes a new time of sending at the first entry of state `number`. -/
def resend (number sentAtMs : Nat) : List SentState → List SentState
  | [] => []
  | sent :: rest =>
    if sent.number = number then { sent with sentAtMs := sentAtMs } :: rest
    else sent :: resend number sentAtMs rest

/-- The sent states after a committed send of `number`, and the state that had to make room. -/
def recordSent (number sentAtMs : Nat) (sentStates : List SentState) : List SentState × Option Nat :=
  if sentStates.any fun sent => sent.number == number then (resend number sentAtMs sentStates, none)
  else if sentStates.length = maxSentStatesAfterAck then
    (sentStates.tail ++ [⟨number, sentAtMs⟩], sentStates.head?.map SentState.number)
  else (sentStates ++ [⟨number, sentAtMs⟩], none)

def commitSend (plan : SendPlan) : Synchronizing SendCommit := fun self =>
  if plan.generation ≠ self.senderGeneration ∨ plan.targetState ≠ self.localLatest ∨
      plan.acknowledgedState ≠ self.remoteLatest ∨ plan.throwawayState ≠ self.knownReceiverState then
    .error .stalePlan self
  else
    match checkedAdd self.senderGeneration 1 with
    | none => .error .generationExhausted self
    | some nextGeneration =>
      if plan.targetState > self.knownReceiverState then
        let (sentStates, evicted) := recordSent plan.targetState plan.plannedAtMs self.sentStates
        .ok ⟨evicted⟩ { self with sentStates := sentStates, senderGeneration := nextGeneration }
      else .ok ⟨none⟩ { self with senderGeneration := nextGeneration }

/-! ### Receiving -/

def validateInstruction (self : SynchronizationState) (instruction : TransportInstruction) :
    Except SynchronizationError Unit :=
  if instruction.protocolVersion ≠ protocolVersion then .error .incompatibleVersion
  else if instruction.acknowledgedState > self.localLatest then .error .invalidAcknowledgement
  else if instruction.newState ≤ instruction.baseState then .error .invalidStateTransition
  else if instruction.discardBeforeState > instruction.baseState then .error .invalidThrowaway
  else .ok ()

/-- The index of the first received state that may be evicted: the throwaway floor is protected when it
    is retained. -/
def firstEvictable (self : SynchronizationState) : Nat :=
  if self.receivedStates.head? = some self.remoteThrowawayFloor then 1 else 0

def canRetainReceivedState (self : SynchronizationState) (targetState : Nat) : Bool :=
  if self.receivedStates.length < maxReceivedReferenceStates then true
  else self.receivedStates[self.firstEvictable]?.any fun number => decide (targetState > number)

def observeAcknowledgement (acknowledgement : Nat) : Synchronizing AcknowledgementDisposition := fun self =>
  if acknowledgement < self.knownReceiverState then .ok .stale self
  else if acknowledgement = self.knownReceiverState then .ok .current self
  else if ¬self.sentStates.any fun sent => sent.number == acknowledgement then .ok .unknown self
  else
    match checkedAdd self.senderGeneration 1 with
    | none => .error .generationExhausted self
    | some nextGeneration =>
      .ok (.advanced self.knownReceiverState acknowledgement)
        { self with
          knownReceiverState := acknowledgement
          sentStates := self.sentStates.filter fun sent => decide (sent.number > acknowledgement)
          senderGeneration := nextGeneration }

/-- What becomes of the target of a valid instruction. -/
def disposition (self : SynchronizationState) (instruction : TransportInstruction) : RemoteStateDisposition :=
  if instruction.newState < self.remoteThrowawayFloor ∨ instruction.baseState < self.remoteThrowawayFloor then
    .belowThrowawayFloor
  else if instruction.newState ∈ self.receivedStates then .alreadyConstructed
  else if instruction.baseState ∉ self.receivedStates then .missingReference
  else if ¬self.canRetainReceivedState instruction.newState then .belowRetentionWindow
  else .apply
    { generation := self.receiverGeneration
      baseState := instruction.baseState
      targetState := instruction.newState
      throwawayState := instruction.discardBeforeState
      difference := instruction.stateDifference
      becomesLatest := decide (instruction.newState > self.remoteLatest) }

def beginReceive (instruction : TransportInstruction) : Synchronizing ReceiveTransition := fun self =>
  match self.validateInstruction instruction with
  | .error e => .error e self
  | .ok () =>
    match observeAcknowledgement instruction.acknowledgedState self with
    | .error e self => .error e self
    | .ok acknowledgement self => .ok ⟨acknowledgement, self.disposition instruction⟩ self

def beginShutdownReceive (instruction : TransportInstruction) : Synchronizing ShutdownTransition := fun self =>
  if instruction.protocolVersion ≠ protocolVersion ∨ instruction.newState ≠ shutdownState ∨
      instruction.acknowledgedState > self.localLatest ∨
      instruction.discardBeforeState > instruction.baseState ∨
      instruction.baseState < self.remoteThrowawayFloor ∨ instruction.baseState ∉ self.receivedStates then
    .error .invalidStateTransition self
  else
    match observeAcknowledgement instruction.acknowledgedState self with
    | .error e self => .error e self
    | .ok _ self => .ok ⟨instruction.baseState, instruction.stateDifference⟩ self

/-- The new latest remote state raises the throwaway floor and drops the references below it. -/
def raiseFloor (plan : ApplyPlan) (self : SynchronizationState) : SynchronizationState :=
  if plan.becomesLatest then
    let floor := max self.remoteThrowawayFloor plan.throwawayState
    { self with
      remoteLatest := plan.targetState
      remoteThrowawayFloor := floor
      receivedStates := self.receivedStates.filter fun number => decide (number ≥ floor) }
  else self

/-- A full window drops its first evictable reference. -/
def evictReceived (self : SynchronizationState) : SynchronizationState × Option Nat :=
  if self.receivedStates.length = maxReceivedReferenceStates then
    ({ self with receivedStates := self.receivedStates.eraseIdx self.firstEvictable },
      self.receivedStates[self.firstEvictable]?)
  else (self, none)

def commitReceive (plan : ApplyPlan) : Synchronizing ReceiveCommit := fun self =>
  if plan.generation ≠ self.receiverGeneration ∨ plan.baseState ∉ self.receivedStates ∨
      plan.targetState ∈ self.receivedStates then .error .stalePlan self
  else
    match checkedAdd self.receiverGeneration 1 with
    | none => .error .generationExhausted self
    | some nextGeneration =>
      let (evicted, capacityEvictedState) := (self.raiseFloor plan).evictReceived
      .ok ⟨evicted.remoteThrowawayFloor, capacityEvictedState⟩
        { evicted with
          receivedStates := Increasing.insert plan.targetState evicted.receivedStates
          receiverGeneration := nextGeneration }

end SynchronizationState
end MoshClient
