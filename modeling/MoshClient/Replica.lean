import MoshClient.Synchronization

/-! One synchronization state over its whole life: its operations in any order, with any plan that an
    earlier operation answered, whether or not the plan still fits. -/

namespace MoshClient
open Effect

structure Replica where
  state : SynchronizationState
  sendPlans : List SendPlan
  applyPlans : List ApplyPlan
  deriving DecidableEq, Repr

inductive ReplicaAction where
  | advanceLocal
  | planSend (nowMs retransmissionTimeoutMs : Nat)
  | commitSend (plan : Nat)
  | beginReceive (instruction : TransportInstruction)
  | beginShutdownReceive (instruction : TransportInstruction)
  | commitReceive (plan : Nat)
  deriving DecidableEq, Repr

namespace Replica

def new : Replica := ⟨SynchronizationState.new, [], []⟩

/-- Plans a send, and keeps the plan. -/
def planSend (self : Replica) (nowMs retransmissionTimeoutMs : Nat) : Replica :=
  match self.state.planSend nowMs retransmissionTimeoutMs with
  | .error _ => self
  | .ok plan => { self with sendPlans := self.sendPlans ++ [plan] }

def commitSend (self : Replica) (plan : Nat) : Replica :=
  match self.sendPlans[plan]? with
  | none => self
  | some plan => { self with state := exec (SynchronizationState.commitSend plan) self.state }

/-- Begins to receive an instruction, and keeps the plan when there is a state to apply. -/
def beginReceive (self : Replica) (instruction : TransportInstruction) : Replica :=
  match SynchronizationState.beginReceive instruction self.state with
  | .error _ state => { self with state := state }
  | .ok transition state =>
    match transition.remoteState with
    | .apply plan => { self with state := state, applyPlans := self.applyPlans ++ [plan] }
    | _ => { self with state := state }

def commitReceive (self : Replica) (plan : Nat) : Replica :=
  match self.applyPlans[plan]? with
  | none => self
  | some plan => { self with state := exec (SynchronizationState.commitReceive plan) self.state }

def step (self : Replica) : ReplicaAction → Replica
  | .advanceLocal => { self with state := exec SynchronizationState.advanceLocal self.state }
  | .planSend nowMs retransmissionTimeoutMs => self.planSend nowMs retransmissionTimeoutMs
  | .commitSend plan => self.commitSend plan
  | .beginReceive instruction => self.beginReceive instruction
  | .beginShutdownReceive instruction =>
    { self with state := exec (SynchronizationState.beginShutdownReceive instruction) self.state }
  | .commitReceive plan => self.commitReceive plan

def run (actions : List ReplicaAction) : Replica := actions.foldl step new

end Replica

/-- The time at which an action plans a send. -/
def ReplicaAction.planTime : ReplicaAction → Option Nat
  | .planSend nowMs _ => some nowMs
  | _ => none

end MoshClient
