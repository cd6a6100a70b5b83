import MoshClient.Synchronization

/-! Two endpoints that exchange instructions over a network which may lose, duplicate and reorder them.
    Each endpoint keeps every instruction it has sent and every plan it has made: a delivery names any of
    the peer's instructions, and a commit any of the endpoint's own plans. -/

namespace MoshClient
open Effect

/-- Receives an instruction: begins, and commits when there is a state to apply. -/
def SynchronizationState.receive (instruction : TransportInstruction) : Synchronizing Unit := do
  let transition ← SynchronizationState.beginReceive instruction
  match transition.remoteState with
  | .apply plan => do
    let _ ← SynchronizationState.commitReceive plan
    return ()
  | _ => return ()

/-- How an endpoint answers an instruction. -/
def SynchronizationState.answer (self : SynchronizationState) (instruction : TransportInstruction) :
    Except SynchronizationError RemoteStateDisposition :=
  match SynchronizationState.beginReceive instruction self with
  | .ok transition _ => .ok transition.remoteState
  | .error e _ => .error e

inductive Side where
  | left
  | right
  deriving DecidableEq, Repr

def Side.peer : Side → Side
  | .left => .right
  | .right => .left

structure Endpoint where
  state : SynchronizationState
  plans : List SendPlan
  sent : List TransportInstruction
  deriving DecidableEq, Repr

namespace Endpoint

def new : Endpoint := ⟨SynchronizationState.new, [], []⟩

def advance (self : Endpoint) : Endpoint := { self with state := exec SynchronizationState.advanceLocal self.state }

/-- Plans a send and sends its instruction, when there is something to send. -/
def plan (self : Endpoint) (nowMs timeoutMs : Nat) (difference chaff : Bytes) : Endpoint :=
  match self.state.planSend nowMs timeoutMs with
  | .error _ => self
  | .ok plan =>
    { self with plans := self.plans ++ [plan], sent := self.sent ++ [plan.instruction difference chaff] }

/-- Commits one of the plans made so far. -/
def commit (self : Endpoint) (index : Nat) : Endpoint :=
  match self.plans[index]? with
  | none => self
  | some plan => { self with state := exec (SynchronizationState.commitSend plan) self.state }

/-- Receives one of the instructions that the peer has sent so far. -/
def deliver (self peer : Endpoint) (index : Nat) : Endpoint :=
  match peer.sent[index]? with
  | none => self
  | some instruction => { self with state := exec (SynchronizationState.receive instruction) self.state }

end Endpoint

structure Network where
  left : Endpoint
  right : Endpoint
  deriving DecidableEq, Repr

inductive NetworkAction where
  | advance
  | plan (nowMs timeoutMs : Nat) (difference chaff : Bytes)
  | commit (index : Nat)
  | deliver (index : Nat)
  deriving DecidableEq, Repr

namespace Network

def new : Network := ⟨Endpoint.new, Endpoint.new⟩

def endpoint (self : Network) : Side → Endpoint
  | .left => self.left
  | .right => self.right

def setEndpoint (self : Network) (endpoint : Endpoint) : Side → Network
  | .left => { self with left := endpoint }
  | .right => { self with right := endpoint }

/-- What an action makes of the endpoint that takes it. -/
def act (self : Network) (side : Side) : NetworkAction → Endpoint
  | .advance => (self.endpoint side).advance
  | .plan nowMs timeoutMs difference chaff => (self.endpoint side).plan nowMs timeoutMs difference chaff
  | .commit index => (self.endpoint side).commit index
  | .deliver index => (self.endpoint side).deliver (self.endpoint side.peer) index

def step (self : Network) (side : Side) (action : NetworkAction) : Network :=
  self.setEndpoint (self.act side action) side

def run (actions : List (Side × NetworkAction)) : Network :=
  actions.foldl (fun network action => network.step action.1 action.2) new

end Network
end MoshClient
