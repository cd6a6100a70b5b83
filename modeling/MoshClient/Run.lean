import MoshClient.Driver

/-! Runs of the session driver: the calls that the loops of `run` and `run_local_shutdown` make, in any
    order and with anything that the clock, the socket, the peer and the owner may answer. -/

namespace MoshClient
open Effect

inductive Call where
  | command (elapsedMs : Nat) (command : SessionCommand)
  | pass (env : Transmission) (elapsedMs : Nat)
  | receive (elapsedMs : Nat) (result : Except ErrorKind (Bytes × SocketAddr))
  | datagram (decodedAtMs handledAtMs : Nat) (datagram : Bytes) (source : SocketAddr)
  | normalInstruction (elapsedMs : Nat) (instruction : TransportInstruction)
  | remoteShutdown (instruction : TransportInstruction)
  | shutdownAcknowledgement (env : Transmission) (nowMs : Nat)
  | localShutdown (elapsedMs : Nat)
  | shutdownPass (env : Transmission) (elapsedMs : Nat) (progress : SessionDriver.LocalShutdown)
  | shutdownDatagram (env : Transmission) (decodedAtMs handledAtMs : Nat) (datagram : Bytes) (source : SocketAddr)
  | output

namespace SessionDriver

variable {T α : Type}

/-- Runs a method for what it does to the driver. -/
def effect (m : Driving T α) : Driving T Unit := do
  let _ ← m
  return ()

def call (p : Platform T) : Call → Driving T Unit
  | .command elapsedMs command => handleCommand p elapsedMs command
  | .pass env elapsedMs => effect (pass p env elapsedMs)
  | .receive elapsedMs result => effect (classifyReceive elapsedMs result)
  | .datagram decodedAtMs handledAtMs datagram source =>
    effect (handleDatagram p decodedAtMs handledAtMs datagram source)
  | .normalInstruction elapsedMs instruction => handleNormalInstruction p elapsedMs instruction
  | .remoteShutdown instruction => handleRemoteShutdown p instruction
  | .shutdownAcknowledgement env nowMs => effect (sendShutdownAcknowledgement p env nowMs)
  | .localShutdown elapsedMs => effect (beginLocalShutdown elapsedMs)
  | .shutdownPass env elapsedMs progress => effect (shutdownPass p env elapsedMs progress)
  | .shutdownDatagram env decodedAtMs handledAtMs datagram source =>
    effect (handleShutdownDatagram p env decodedAtMs handledAtMs datagram source)
  | .output => emitOutput p

/-- The calls in order, until one ends the session with an error. -/
def calls (p : Platform T) : List Call → Driving T Unit := runAll (call p)

end SessionDriver

/-- A session that `connect` opened. -/
structure Connection {T : Type} (p : Platform T) where
  serverAddr : SocketAddrV4
  columns : Nat
  rows : Nat
  mode : PredictionMode
  driver : SessionDriver T
  opened : SessionDriver.connect p serverAddr columns rows mode = .ok driver

/-! ### A small platform -/

/-- Leaves every body as it is, with a tag of zeros. -/
def SessionCrypto.plain : SessionCrypto where
  sealBody _ body := some (body, List.replicate tagBytes 0)
  openBody _ body tag := if tag = List.replicate tagBytes 0 then some body else none
  sealBody_length _ body sealed tag h := by
    cases h
    exact ⟨rfl, List.length_replicate⟩
  openBody_length _ body tag opened h := by
    split at h
    · cases h
      rfl
    · cases h

/-- Two bytes of header, and then the bytes as they are. -/
def Zlib.stored : Zlib where
  compressToVecZlib bytes := 0x78 :: 0x01 :: bytes
  compressToVecZlib_ne_nil _ := List.cons_ne_nil _ _
  inflater :=
    { State := Bool
      start := false
      inflate headerRead input n :=
        if headerRead then
          ⟨true, min n input.length, input.take n, if input.length ≤ n then .streamEnd else .ok⟩
        else ⟨true, min 2 input.length, [], .ok⟩
      consumed_le headerRead input n := by
        cases headerRead <;> exact Nat.min_le_right _ _
      written_le headerRead input n := by
        cases headerRead
        · exact Nat.zero_le n
        · exact List.length_take_le n input }

/-- A terminal on which nothing shows. -/
def Terminal.blank : Terminal Unit where
  Difference := Unit
  new columns rows := if isValidSize columns rows then .ok () else .error .invalidTerminalSize
  decode _ := .ok ()
  apply _ _ := .ok ()
  withPredictedAscii _ _ := .ok ()
  displayEquivalent _ _ := true
  echoAcknowledgement _ := none
  full _ := .ok []
  incremental _ _ := .ok []

def Platform.small : Platform Unit := ⟨.plain, .stored, .blank⟩

/-- A session over the small platform, with a terminal of 80 columns and 24 rows. -/
def Connection.small : Connection Platform.small where
  serverAddr := ⟨0x7f000001, 60001⟩
  columns := 80
  rows := 24
  mode := .never
  driver :=
    match SessionDriver.connect Platform.small ⟨0x7f000001, 60001⟩ 80 24 .never with
    | .ok driver => driver
    | .error _ => SessionDriver.initial ⟨0x7f000001, 60001⟩ () .never
  opened := by decide +kernel

end MoshClient
