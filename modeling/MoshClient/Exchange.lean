import MoshClient.Endpoints
import MoshClient.Run

/-! A session and an honest peer, over a network that may lose, duplicate and reorder what they send. The
    peer sends ordinary instructions, and it closes with shutdown instructions from the base that a send at
    that time would have. A delivery names any instruction that was sent before. -/

namespace MoshClient
open Limits Effect SynchronizationState

/-- The shutdown instruction of an endpoint, from the base that `plan_send` would choose. -/
def Endpoint.shutdown (self : Endpoint) (nowMs timeoutMs : Nat) (difference chaff : Bytes) : Option TransportInstruction :=
  if ¬(minRetransmissionTimeoutMs ≤ timeoutMs ∧ timeoutMs ≤ maxRetransmissionTimeoutMs) then none
  else
    match selectBase nowMs timeoutMs self.state.knownReceiverState self.state.sentStates.reverse with
    | .error _ => none
    | .ok baseState => some
      { protocolVersion := protocolVersion
        baseState := baseState
        newState := shutdownState
        acknowledgedState := self.state.remoteLatest
        discardBeforeState := self.state.knownReceiverState
        stateDifference := difference
        chaff := chaff }

/-- The calls that the driver makes without an instruction of the peer. -/
def Call.isOwn : Call → Bool
  | .command _ _ | .pass _ _ | .receive _ _ | .localShutdown _ | .shutdownPass _ _ _ | .output => true
  | _ => false

structure Exchange (T : Type) where
  driver : SessionDriver T
  /-- The session has ended, with an error or by a shutdown. -/
  ended : Bool
  peer : Endpoint
  /-- The shutdown instructions that the peer has sent. -/
  shutdowns : List TransportInstruction

inductive ExchangeAction where
  | call (call : Call)
  /-- The session receives an ordinary instruction of the peer. -/
  | deliver (elapsedMs message : Nat)
  /-- The session receives a shutdown of the peer. -/
  | deliverShutdown (message : Nat)
  | advance
  | plan (nowMs timeoutMs : Nat) (difference chaff : Bytes)
  | commit (index : Nat)
  /-- The peer receives an ordinary instruction of the session. -/
  | hear (message : Nat)
  | close (nowMs timeoutMs : Nat) (difference chaff : Bytes)

namespace Exchange

variable {T : Type}

def start (driver : SessionDriver T) : Exchange T := ⟨driver, false, Endpoint.new, []⟩

/-- Runs a method of the driver; an error ends the session. -/
def perform (m : Driving T Unit) (self : Exchange T) : Exchange T :=
  if self.ended then self
  else
    match m self.driver with
    | .ok _ driver => { self with driver := driver }
    | .error _ driver => { self with driver := driver, ended := true }

def deliver (p : Platform T) (elapsedMs message : Nat) (self : Exchange T) : Exchange T :=
  match self.peer.sent[message]? with
  | none => self
  | some instruction => self.perform (SessionDriver.handleNormalInstruction p elapsedMs instruction)

def deliverShutdown (p : Platform T) (message : Nat) (self : Exchange T) : Exchange T :=
  match self.shutdowns[message]? with
  | none => self
  | some instruction => { self.perform (SessionDriver.handleRemoteShutdown p instruction) with ended := true }

def hear (message : Nat) (self : Exchange T) : Exchange T :=
  match self.driver.trace.transmitted[message]? with
  | none => self
  | some instruction =>
    if instruction.isShutdown then self
    else { self with peer := { self.peer with state := exec (receive instruction) self.peer.state } }

def step (p : Platform T) (self : Exchange T) : ExchangeAction → Exchange T
  | .call call => if call.isOwn then self.perform (SessionDriver.call p call) else self
  | .deliver elapsedMs message => self.deliver p elapsedMs message
  | .deliverShutdown message => self.deliverShutdown p message
  | .advance => { self with peer := self.peer.advance }
  | .plan nowMs timeoutMs difference chaff =>
    { self with peer := self.peer.plan nowMs timeoutMs difference chaff }
  | .commit index => { self with peer := self.peer.commit index }
  | .hear message => self.hear message
  | .close nowMs timeoutMs difference chaff =>
    { self with shutdowns := self.shutdowns ++ (self.peer.shutdown nowMs timeoutMs difference chaff).toList }

def run (p : Platform T) (self : Exchange T) (actions : List ExchangeAction) : Exchange T :=
  actions.foldl (step p) self

end Exchange
end MoshClient
