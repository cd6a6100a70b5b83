import MoshClient.Run

/-! A driver and the peer of its instructions. Every instruction that the driver transmitted may reach the
    peer at any time, in any order, more than once or never; the peer reads it against a state that it
    holds. What the peer sends back is among the calls of the driver. -/

namespace MoshClient

/-- The driver, the error that ended its session if one did, and the states that the peer holds, each with
    the operations that it has read for it. -/
structure Delivery (T : Type) where
  driver : SessionDriver T
  ended : Option DriverError
  held : List (Nat × List ClientOperation)

inductive DeliveryAction where
  | call (call : Call)
  | deliver (message held : Nat)

namespace Delivery

variable {T : Type}

/-- The peer starts from state 0, which has no operations. -/
def start (driver : SessionDriver T) : Delivery T := ⟨driver, none, [(0, [])]⟩

/-- The state that the peer builds when it reads an ordinary instruction against a state it holds. -/
def build (m : TransportInstruction) (held : Nat × List ClientOperation) : Option (Nat × List ClientOperation) :=
  if m.isShutdown ∨ m.baseState ≠ held.1 then none
  else (decodeClientDifference m.stateDifference).map fun operations => (m.newState, held.2 ++ operations)

def step (p : Platform T) (self : Delivery T) : DeliveryAction → Delivery T
  | .call call =>
    match self.ended with
    | some _ => self
    | none =>
      match SessionDriver.call p call self.driver with
      | .ok _ driver => { self with driver := driver }
      | .error e driver => { self with driver := driver, ended := some e }
  | .deliver message held =>
    match self.driver.trace.transmitted[message]?, self.held[held]? with
    | some m, some state => { self with held := self.held ++ (build m state).toList }
    | _, _ => self

def run (p : Platform T) (self : Delivery T) (actions : List DeliveryAction) : Delivery T :=
  actions.foldl (step p) self

end Delivery
end MoshClient
