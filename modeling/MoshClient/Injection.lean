import MoshClient.Run

/-! Datagrams at the driver, those of the peer and those that anyone else injects. A sequence of events is
    handled one after the other until an error ends the session; between two datagrams, the driver may make
    any of its other calls. -/

namespace MoshClient

/-- A datagram with its source, and the readings of the driver's clock that its handling makes: `now_ms` is
    a 64-bit number. -/
structure Arrival where
  datagram : Bytes
  source : SocketAddr
  decodedAtMs : UInt64
  handledAtMs : UInt64

inductive Event where
  | arrival (arrival : Arrival)
  | call (call : Call)

/-- An event of the session, or a datagram that was injected into it. -/
inductive TaggedEvent where
  | genuine (event : Event)
  | injected (arrival : Arrival)

namespace TaggedEvent

def event : TaggedEvent → Event
  | .genuine event => event
  | .injected arrival => .arrival arrival

def isGenuine : TaggedEvent → Bool
  | .genuine _ => true
  | .injected _ => false

end TaggedEvent

/-- How the driver answers an event. -/
abbrev EventOutcome := Except DriverError DatagramOutcome

namespace SessionDriver

variable {T : Type}

def handleEvent (p : Platform T) : Event → Driving T DatagramOutcome
  | .arrival arrival =>
    handleDatagram p arrival.decodedAtMs.toNat arrival.handledAtMs.toNat arrival.datagram arrival.source
  | .call c => do
    call p c
    return .continue

/-- Handles the events in order, and returns how each was answered and the driver at the end. -/
def runEvents (p : Platform T) : List Event → SessionDriver T → List EventOutcome × SessionDriver T
  | [], self => ([], self)
  | event :: events, self =>
    match handleEvent p event self with
    | .error e driver => ([.error e], driver)
    | .ok outcome driver =>
      (.ok outcome :: (runEvents p events driver).1, (runEvents p events driver).2)

/-- The events without the injected datagrams. -/
def genuineEvents (tagged : List TaggedEvent) : List Event := (tagged.filter TaggedEvent.isGenuine).map TaggedEvent.event

/-- The answers to the events without those to the injected datagrams. -/
def genuineOutcomes (tagged : List TaggedEvent) (outcomes : List EventOutcome) : List EventOutcome :=
  ((tagged.zip outcomes).filter fun answered => answered.1.isGenuine).map Prod.snd

end SessionDriver
end MoshClient
