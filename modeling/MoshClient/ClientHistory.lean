import MoshClient.Lib.OrderedMap
import MoshClient.Synchronization
import MoshClient.Fragment
import MoshClient.Timing
import MoshClient.Packet
import MoshClient.Reachability
import MoshClient.Prediction

/-! The client's operation log (`session/client_history.rs`), and the errors of the session driver. -/

namespace MoshClient
open Machine Limits Effect

/-- The kinds of an I/O error that the driver tells apart. -/
inductive ErrorKind where
  | networkDown
  | networkUnreachable
  | hostUnreachable
  | addrNotAvailable
  | permissionDenied
  | other
  deriving DecidableEq, Repr

/-- The places where the task would panic. -/
inductive Panic where
  | operationDrain
  | predictionBase
  | predictionProjection
  deriving DecidableEq, Repr

/-- The errors of `driver.rs`; `panicked` is a panic of the task, which is no value of the source's type. -/
inductive DriverError where
  | io (kind : ErrorKind)
  | packet (e : PacketError)
  | fragment (e : FragmentError)
  | reassembly (e : ReassemblyError)
  | instruction (e : InstructionError)
  | synchronization (e : SynchronizationError)
  | timing (e : TimingError)
  | reachability (e : ReachabilityError)
  | terminal (e : TerminalError)
  | paint (e : PaintError)
  | missingClientState
  | missingTerminalState
  | operationIndexExhausted
  | fragmentIdentifierExhausted
  | clockExhausted
  | connectionTimeout
  | incompleteDatagramSend
  | panicked (site : Panic)
  deriving DecidableEq, Repr

def DriverError.ofPrediction : PredictionError → DriverError
  | .terminal e => .terminal e
  | .missingBase => .panicked .predictionBase
  | .missingProjection => .panicked .predictionProjection

/-- The operations that the peer may not hold yet, from index `operationOffset` to `nextOperation` of the
    session, and for each local state the index where its operations end. -/
structure ClientHistory where
  operationOffset : Nat
  nextOperation : Nat
  operations : List ClientOperation
  checkpoints : OrderedMap Nat Nat
  deriving DecidableEq

namespace ClientHistory

def new : ClientHistory := ⟨0, 0, [], OrderedMap.empty.insert 0 0⟩

def append (operation : ClientOperation) : EStateM DriverError ClientHistory Unit := fun self =>
  if self.operations.length = maxClientOperationsAfterAck then .error (.instruction .tooManyClientOperations) self
  else
    match checkedAdd self.nextOperation 1 with
    | none => .error .operationIndexExhausted self
    | some nextOperation =>
      match encodeClientDifference (self.operations ++ [operation]) with
      | .error e => .error (.instruction e) self
      | .ok _ => .ok () { self with operations := self.operations ++ [operation], nextOperation := nextOperation }

def checkpoint (self : ClientHistory) (state : Nat) : ClientHistory :=
  { self with checkpoints := self.checkpoints.insert state self.nextOperation }

/-- The place of the end of `state` in `operations`. -/
def index (self : ClientHistory) (state : Nat) : Option Nat :=
  (self.checkpoints.get? state).bind fun count => checkedSub count self.operationOffset

def difference (self : ClientHistory) (base target : Nat) : Except DriverError Bytes :=
  match self.index base, self.index target with
  | some start, some stop =>
    if start ≤ stop ∧ stop ≤ self.operations.length then
      (encodeClientDifference ((self.operations.take stop).drop start)).mapError .instruction
    else .error .missingClientState
  | _, _ => .error .missingClientState

def acknowledge (state : Nat) : EStateM DriverError ClientHistory Unit := fun self =>
  match self.checkpoints.get? state with
  | none => .error .missingClientState self
  | some acknowledged =>
    match checkedSub acknowledged self.operationOffset with
    | none => .error .missingClientState self
    | some discard =>
      if discard > self.operations.length then .error (.panicked .operationDrain) self
      else .ok ()
        { self with
          operationOffset := acknowledged
          operations := self.operations.drop discard
          checkpoints := self.checkpoints.retain fun number => decide (number ≥ state) }

def removeCheckpoint (self : ClientHistory) (state : Nat) : ClientHistory :=
  { self with checkpoints := self.checkpoints.remove state }

end ClientHistory
end MoshClient
