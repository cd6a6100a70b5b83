import MoshClient.Lib.Chunks
import MoshClient.ClientHistory

/-! The session driver (`session/driver.rs`), one method at a time. What happens outside the driver is
    an argument of the method that observes it: the time that the clock shows, the cancellation flag, and
    what the socket answers. -/

namespace MoshClient
open Machine Limits Effect

def initialChaff : Bytes := [0]

inductive SessionCommand where
  | input (bytes : Bytes)
  | resize (columns rows : Nat)
  | repaint
  deriving DecidableEq, Repr

inductive SessionState where
  | connecting
  | active
  | closed
  deriving DecidableEq, Repr

inductive SessionExit where
  | localClosed
  | remoteClosed
  | cancelled
  | ownerDropped
  deriving DecidableEq, Repr

inductive TransportSendOutcome where
  | sent
  | cancelled
  | deferred
  deriving DecidableEq, Repr

inductive DatagramOutcome where
  | continue
  | remoteShutdown
  deriving DecidableEq, Repr

/-- The libraries below the driver: the AEAD under the session key, zlib and the terminal. -/
structure Platform (T : Type) where
  crypto : SessionCrypto
  zlib : Zlib
  terminal : Terminal T

/-- What one transmission meets, fragment by fragment: the cancellation flag before the fragment and the
    answer of the socket; and the clock after a failed one. -/
structure Transmission where
  cancelled : Nat → Bool
  socket : Nat → Except ErrorKind Nat
  elapsedAfterMs : Nat

structure InstructionIdentifier where
  next : Option Nat
  deriving DecidableEq, Repr

namespace InstructionIdentifier

def new : InstructionIdentifier := ⟨some 0⟩

def take : EStateM DriverError InstructionIdentifier Nat := fun self =>
  match self.next with
  | none => .error .fragmentIdentifierExhausted self
  | some identifier => .ok identifier ⟨checkedAdd identifier 1⟩

end InstructionIdentifier

/-- What the session has done so far. The driver writes it and never reads it. -/
structure Trace where
  /-- The operations that the client history accepted. -/
  accepted : List ClientOperation
  /-- Each local state with the number of operations accepted when it was allocated. -/
  allocated : List (Nat × Nat)
  /-- The instructions handed to `sendTransportInstruction`. -/
  transmitted : List TransportInstruction
  /-- The nonces that the AEAD sealed with. -/
  nonces : List Bytes
  /-- The datagrams handed to the socket. -/
  datagrams : List Bytes
  /-- The chunks of output. -/
  emitted : List Bytes
  deriving DecidableEq, Repr

def Trace.empty : Trace := ⟨[], [(0, 0)], [], [], [], []⟩

structure SessionDriver (T : Type) where
  serverAddr : SocketAddrV4
  packetReceiver : PacketReceiver
  sendSequence : SendSequence
  fragmentIdentifier : InstructionIdentifier
  reassembler : FragmentReassembler
  synchronization : SynchronizationState
  scheduler : SendScheduler
  datagramTiming : DatagramTiming
  clientHistory : ClientHistory
  terminalStates : OrderedMap Nat T
  prediction : LocalPrediction T
  paintedState : Option T
  outputRequested : Bool
  forceFullRepaint : Bool
  receiveNotBeforeMs : Nat
  state : SessionState
  reachability : ReachabilityTracker
  publishedReachability : SessionReachability
  finalTerminal : Option T
  trace : Trace
  deriving DecidableEq

/-- A method of the driver. -/
abbrev Driving (T : Type) := EStateM DriverError (SessionDriver T)

def isRecoverableEstablishedIoError : ErrorKind → Bool
  | .networkDown | .networkUnreachable | .hostUnreachable | .addrNotAvailable | .permissionDenied => true
  | .other => false

namespace SessionDriver

variable {T α : Type}

/-! ### The parts of the driver -/

def onSynchronization (m : Synchronizing α) : Driving T α :=
  zoom synchronization (fun x self => { self with synchronization := x }) .synchronization m

def onScheduler (m : Scheduling α) : Driving T α :=
  zoom scheduler (fun x self => { self with scheduler := x }) .timing m

def onDatagramTiming (m : EStateM TimingError DatagramTiming α) : Driving T α :=
  zoom datagramTiming (fun x self => { self with datagramTiming := x }) .timing m

def onClientHistory (m : EStateM DriverError ClientHistory α) : Driving T α :=
  zoom clientHistory (fun x self => { self with clientHistory := x }) id m

def onFragmentIdentifier (m : EStateM DriverError InstructionIdentifier α) : Driving T α :=
  zoom fragmentIdentifier (fun x self => { self with fragmentIdentifier := x }) id m

def onSendSequence (m : EStateM PacketError SendSequence α) : Driving T α :=
  zoom sendSequence (fun x self => { self with sendSequence := x }) .packet m

def onReassembler (m : Reassembling α) : Driving T α :=
  zoom reassembler (fun x self => { self with reassembler := x }) .reassembly m

def onReachability (m : EStateM ReachabilityError ReachabilityTracker α) : Driving T α :=
  zoom reachability (fun x self => { self with reachability := x }) .reachability m

def onPrediction (m : EStateM PredictionError (LocalPrediction T) α) : Driving T α :=
  zoom prediction (fun x self => { self with prediction := x }) .ofPrediction m

/-- Runs a sealing method, which adds its nonces to those used before. -/
def onCrypto (m : Sealing α) : Driving T α :=
  zoom (fun self => self.trace.nonces) (fun x self => { self with trace := { self.trace with nonces := x } }) .packet m

/-- The driver's clock, in milliseconds. -/
def nowMs (elapsedMs : Nat) : Driving T Nat :=
  if elapsedMs < 2 ^ 64 then return elapsedMs else throw .clockExhausted

def requestOutput (requested : Bool) (self : SessionDriver T) : SessionDriver T :=
  if requested then { self with outputRequested := true } else self

def publishReachability (nowMs : Nat) : Driving T Unit := do
  match ← onReachability (ReachabilityTracker.update nowMs) with
  | some reachability => modify fun self => { self with publishedReachability := reachability }
  | none => return ()

/-! ### Commands -/

def appendOperation (operation : ClientOperation) : Driving T Unit := do
  onClientHistory (ClientHistory.append operation)
  modify fun self =>
    { self with trace := { self.trace with accepted := self.trace.accepted ++ [operation] } }

/-- Advances the local state and marks in the client history where its operations end. -/
def allocateState : Driving T Nat := do
  let state ← onSynchronization SynchronizationState.advanceLocal
  modify fun self =>
    { self with
      clientHistory := self.clientHistory.checkpoint state
      trace := { self.trace with allocated := self.trace.allocated ++ [(state, self.trace.accepted.length)] } }
  return state

def advanceClient (operation : ClientOperation) (nowMs : Nat) : Driving T Nat := do
  appendOperation operation
  let state ← allocateState
  onScheduler (SendScheduler.noteLocalChange nowMs)
  return state

/-- Lets the prediction see an input, over the latest remote state. -/
def predictInput (p : Platform T) (state : Nat) (bytes : Bytes) (nowMs : Nat) : Driving T Unit := do
  let self ← get
  let authoritative ← ofOption .missingTerminalState
    (self.terminalStates.get? self.synchronization.remoteLatest)
  let displayed ← onPrediction (LocalPrediction.observeInput p.terminal state bytes authoritative nowMs)
  modify (requestOutput displayed)

def handleCommand (p : Platform T) (elapsedMs : Nat) (command : SessionCommand) : Driving T Unit := do
  let now ← nowMs elapsedMs
  match command with
  | .input bytes =>
    if bytes.isEmpty then return ()
    else do
      let state ← advanceClient (.input bytes) now
      predictInput p state bytes now
  | .resize columns rows => do
    let _ ← advanceClient (.resize columns rows) now
    let self ← get
    predictInput p self.synchronization.localLatest [] now
  | .repaint =>
    modify fun self =>
      { self with prediction := self.prediction.reset.2, outputRequested := true, forceFullRepaint := true }

/-! ### Sending -/

/-- Sends the fragments from `number` on, each in its own datagram under its own sequence number, and
    stops at the first that is cancelled or fails. -/
def sendFragments (p : Platform T) (env : Transmission) (timestamps : OutgoingTimestamps)
    (identifier fragmentCount : Nat) : Nat → List Bytes → Driving T TransportSendOutcome
  | _, [] => return .sent
  | number, body :: rest =>
    if env.cancelled number then return .cancelled
    else if number ≥ 2 ^ 16 then throw .fragmentIdentifierExhausted
    else do
      let plaintext ← ofExcept .fragment (Fragment.encode
        { timestamp := timestamps.timestamp
          timestampReply := timestamps.timestampReply
          identifier := identifier
          number := number
          isFinal := number + 1 == fragmentCount
          body := body } (List.replicate maxDatagramBytes 0))
      let sequence ← onSendSequence SendSequence.take
      let datagram ← onCrypto (PacketCodec.sealPacket p.crypto .clientToServer sequence
        (plaintext.2.take plaintext.1) (List.replicate maxDatagramBytes 0))
      modify fun self =>
        { self with
          trace := { self.trace with datagrams := self.trace.datagrams ++ [datagram.2.take datagram.1] } }
      match env.socket number with
      | .error kind => do
        let self ← get
        if self.state = .active ∧ isRecoverableEstablishedIoError kind then return .deferred
        else throw (.io kind)
      | .ok sent =>
        if sent ≠ datagram.1 then throw .incompleteDatagramSend
        else sendFragments p env timestamps identifier fragmentCount (number + 1) rest

def sendTransportInstruction (p : Platform T) (env : Transmission) (instruction : TransportInstruction)
    (nowMs : Nat) : Driving T TransportSendOutcome := do
  modify fun self =>
    { self with trace := { self.trace with transmitted := self.trace.transmitted ++ [instruction] } }
  let compressed ← ofExcept .instruction (instruction.encodeZlib p.zlib)
  let timestamps ← onDatagramTiming (DatagramTiming.outgoing nowMs)
  let identifier ← onFragmentIdentifier InstructionIdentifier.take
  sendFragments p env timestamps identifier (Chunks.count maxFragmentBodyBytes compressed.length) 0
    (Chunks.chunks maxFragmentBodyBytes compressed)

def ioRetryMs (self : SessionDriver T) : Nat :=
  max self.datagramTiming.estimator.retransmissionTimeoutMs initialRetransmissionTimeoutMs

def deferTemporarySend (nowMs : Nat) : Driving T Unit := do
  let self ← get
  onScheduler (SendScheduler.deferSend nowMs self.ioRetryMs)

def planSend (nowMs : Nat) : Driving T SendPlan := do
  let self ← get
  ofExcept .synchronization
    (self.synchronization.planSend nowMs self.datagramTiming.estimator.retransmissionTimeoutMs)

/-- Plans a send, and allocates a state without operations when there is none to send. -/
def planOrAllocate (nowMs : Nat) : Driving T SendPlan := do
  let self ← get
  match self.synchronization.planSend nowMs self.datagramTiming.estimator.retransmissionTimeoutMs with
  | .ok plan => return plan
  | .error .noNewState => do
    let _ ← allocateState
    planSend nowMs
  | .error e => throw (.synchronization e)

def planDifference (base target : Nat) : Driving T Bytes := do
  let self ← get
  ofExcept id (self.clientHistory.difference base target)

/-- Commits a plan, and forgets the end of a state that the sent states had to drop for it. -/
def commitSend (plan : SendPlan) : Driving T Unit := do
  let commit ← onSynchronization (SynchronizationState.commitSend plan)
  match commit.capacityEvictedState with
  | some evicted => modify fun self => { self with clientHistory := self.clientHistory.removeCheckpoint evicted }
  | none => return ()

def sendInstruction (p : Platform T) (env : Transmission) (wakePlan : WakePlan) (now : Nat) : Driving T Unit := do
  let plan ← planOrAllocate now
  let difference ← planDifference plan.baseState plan.targetState
  match ← sendTransportInstruction p env (plan.instruction difference initialChaff) now with
  | .sent => do
    commitSend plan
    onScheduler (SendScheduler.commitSend wakePlan)
  | .cancelled => return ()
  | .deferred => do
    let failedAtMs ← nowMs env.elapsedAfterMs
    deferTemporarySend failedAtMs

/-! ### Receiving -/

def deferReceive (nowMs : Nat) : Driving T Unit := do
  let self ← get
  let notBefore ← ofOption .clockExhausted (checkedAdd nowMs self.ioRetryMs)
  modify fun self => { self with receiveNotBeforeMs := notBefore }

/-- Passes a received datagram on; a failure that the session survives only delays the next receive. -/
def classifyReceive (elapsedMs : Nat) (result : Except ErrorKind (Bytes × SocketAddr)) :
    Driving T (Option (Bytes × SocketAddr)) :=
  match result with
  | .ok received => do
    modify fun self => { self with receiveNotBeforeMs := 0 }
    return some received
  | .error kind => do
    let self ← get
    if self.state = .active ∧ isRecoverableEstablishedIoError kind then do
      let failedAtMs ← nowMs elapsedMs
      deferReceive failedAtMs
      return none
    else throw (.io kind)

/-- The packet errors of a datagram that is dropped without a trace. -/
def isDroppedPacketError : PacketError → Bool
  | .datagramTooShort | .datagramTooLarge | .wrongDirection | .authenticationFailed
  | .replay | .tooOld | .unexpectedSource => true
  | .plaintextTooLarge | .outputTooSmall | .invalidSequence | .sequenceExhausted => false

/-- Opens a datagram, or drops it. -/
def openDatagram (p : Platform T) (datagram : Bytes) (source : SocketAddr) :
    Driving T (Option OpenedPacket) := fun self =>
  match PacketReceiver.openFrom p.crypto self.serverAddr source datagram self.packetReceiver with
  | .ok opened receiver => .ok (some opened) { self with packetReceiver := receiver }
  | .error e receiver =>
    if isDroppedPacketError e then .ok none { self with packetReceiver := receiver }
    else .error (.packet e) { self with packetReceiver := receiver }

def decodeDatagram (p : Platform T) (elapsedMs : Nat) (datagram : Bytes) (source : SocketAddr) :
    Driving T (Option TransportInstruction) := do
  let now ← nowMs elapsedMs
  match ← openDatagram p datagram source with
  | none => return none
  | some opened => do
    let decoded ← ofExcept .fragment (Fragment.decode opened.plaintext)
    let _ ← onDatagramTiming
      (DatagramTiming.observeReceived opened.sequence decoded.timestamp decoded.timestampReply now)
    match ← onReassembler (FragmentReassembler.push now decoded) with
    | .complete compressed => do
      let instruction ← ofExcept .instruction (TransportInstruction.decodeZlib p.zlib compressed)
      return some instruction
    | _ => return none

def discardTerminalStates (floor : Nat) (capacityEvicted : Option Nat) (terminalStates : OrderedMap Nat T) :
    OrderedMap Nat T :=
  let retained := terminalStates.retain fun state => decide (state ≥ floor)
  match capacityEvicted with
  | some evicted => retained.remove evicted
  | none => retained

/-- The remote state that has just been constructed is the latest one. -/
def noteLatestState (p : Platform T) (nowMs targetState : Nat) : Driving T Unit := do
  modify fun self => { self with reachability := self.reachability.noteContact nowMs }
  let self ← get
  let authoritative ← ofOption .missingTerminalState (self.terminalStates.get? targetState)
  onPrediction (LocalPrediction.observeAuthoritative p.terminal authoritative)
  modify fun self =>
    { self with
      state := if self.state = .connecting then .active else self.state
      outputRequested := true }

/-- Constructs the target of an instruction from its base. -/
def applyRemoteState (p : Platform T) (nowMs : Nat) (plan : ApplyPlan) : Driving T Unit := do
  let self ← get
  let base ← ofOption .missingTerminalState (self.terminalStates.get? plan.baseState)
  let difference ← ofExcept .terminal (p.terminal.decode plan.difference)
  let next ← ofExcept .terminal (p.terminal.apply base difference)
  let commit ← onSynchronization (SynchronizationState.commitReceive plan)
  modify fun self =>
    { self with
      terminalStates := discardTerminalStates commit.discardBeforeState commit.capacityEvictedState
        (self.terminalStates.insert plan.targetState next) }
  let self ← get
  if plan.targetState = self.synchronization.remoteLatest then noteLatestState p nowMs plan.targetState
  else return ()

def settleRemoteState (p : Platform T) (nowMs : Nat) : RemoteStateDisposition → Driving T Unit
  | .apply plan => applyRemoteState p nowMs plan
  | .alreadyConstructed | .missingReference | .belowThrowawayFloor | .belowRetentionWindow => return ()

/-- An acknowledgement that advanced the known receiver state is a reply to the send it names. -/
def noteReply (acknowledgement : AcknowledgementDisposition) (sentAtMs : Option Nat)
    (self : SessionDriver T) : SessionDriver T :=
  match acknowledgement, sentAtMs with
  | .advanced _ _, some sentAtMs => { self with reachability := self.reachability.noteReply sentAtMs }
  | _, _ => self

/-- Drops the operations that the known receiver state holds. -/
def acknowledgeHistory : Driving T Unit := do
  let self ← get
  onClientHistory (ClientHistory.acknowledge self.synchronization.knownReceiverState)

def handleNormalInstruction (p : Platform T) (elapsedMs : Nat) (instruction : TransportInstruction) :
    Driving T Unit := do
  let now ← nowMs elapsedMs
  let self ← get
  let acknowledgedSentAtMs := self.synchronization.sentStateSentAtMs instruction.acknowledgedState
  let transition ← onSynchronization (SynchronizationState.beginReceive instruction)
  modify (noteReply transition.acknowledgement acknowledgedSentAtMs)
  acknowledgeHistory
  onScheduler (SendScheduler.noteAcknowledgementNeeded now)
  settleRemoteState p now transition.remoteState
  publishReachability now

def handleRemoteShutdown (p : Platform T) (instruction : TransportInstruction) : Driving T Unit := do
  let self ← get
  let shutdown :=
    if instruction.acknowledgedState = shutdownState then
      { instruction with acknowledgedState := self.synchronization.knownReceiverState }
    else instruction
  let transition ← onSynchronization (SynchronizationState.beginShutdownReceive shutdown)
  acknowledgeHistory
  let self ← get
  let base ← ofOption .missingTerminalState (self.terminalStates.get? transition.baseState)
  let difference ← ofExcept .terminal (p.terminal.decode transition.difference)
  let finalTerminal ← ofExcept .terminal (p.terminal.apply base difference)
  modify fun self =>
    { self with
      finalTerminal := some finalTerminal
      prediction := self.prediction.reset.2
      outputRequested := true }

/-- Handles a datagram; `decodedAtMs` and `handledAtMs` are the two readings of the clock. -/
def handleDatagram (p : Platform T) (decodedAtMs handledAtMs : Nat) (datagram : Bytes) (source : SocketAddr) :
    Driving T DatagramOutcome := do
  match ← decodeDatagram p decodedAtMs datagram source with
  | none => return .continue
  | some instruction =>
    if instruction.isShutdown then do
      handleRemoteShutdown p instruction
      return .remoteShutdown
    else do
      handleNormalInstruction p handledAtMs instruction
      return .continue

/-! ### Shutdown -/

/-- Acknowledges the peer's shutdown; the answer is `false` when the session was cancelled meanwhile. -/
def sendShutdownAcknowledgement (p : Platform T) (env : Transmission) (now : Nat) : Driving T Bool := do
  let _ ← allocateState
  let plan ← planSend now
  let difference ← planDifference plan.baseState plan.targetState
  let instruction := { plan.instruction difference initialChaff with acknowledgedState := shutdownState }
  match ← sendTransportInstruction p env instruction now with
  | .sent => do
    commitSend plan
    return true
  | .cancelled => return false
  | .deferred => return true

def shutdownRequest (self : SessionDriver T) (difference : Bytes) : TransportInstruction where
  protocolVersion := protocolVersion
  baseState := self.synchronization.knownReceiverState
  newState := shutdownState
  acknowledgedState := self.synchronization.remoteLatest
  discardBeforeState := self.synchronization.knownReceiverState
  stateDifference := difference
  chaff := initialChaff

def sendShutdownRequest (p : Platform T) (env : Transmission) (now : Nat) : Driving T TransportSendOutcome := do
  let self ← get
  let difference ← planDifference self.synchronization.knownReceiverState self.synchronization.localLatest
  sendTransportInstruction p env (self.shutdownRequest difference) now

/-! ### Output -/

def latestTerminalState (self : SessionDriver T) : Except DriverError T :=
  match self.finalTerminal with
  | some finalTerminal => .ok finalTerminal
  | none =>
    match self.terminalStates.get? self.synchronization.remoteLatest with
    | some terminal => .ok terminal
    | none => .error .missingTerminalState

/-- The output that brings the painted state to `current`. -/
def paint (p : Platform T) (self : SessionDriver T) (current : T) : Except PaintError Bytes :=
  if self.forceFullRepaint then p.terminal.full current
  else
    match self.paintedState with
    | some previous => p.terminal.incremental previous current
    | none => p.terminal.full current

def emitOutput (p : Platform T) : Driving T Unit := do
  let self ← get
  let authoritative ← ofExcept id self.latestTerminalState
  let current := self.prediction.display authoritative
  let output ← ofExcept .paint (self.paint p current)
  modify fun self =>
    { self with
      paintedState := some current
      outputRequested := false
      forceFullRepaint := false
      trace := { self.trace with emitted := self.trace.emitted ++ [output] } }

/-! ### The loop of `run` -/

/-- What the loop waits with: when to wake up, and whether it wants to emit output or to receive. -/
structure Wait where
  wakeAtMs : Nat
  needsOutput : Bool
  receiveEnabled : Bool
  deriving DecidableEq, Repr

inductive PassOutcome where
  | sendAttempted
  | wait (wait : Wait)
  deriving DecidableEq, Repr

/-- The earlier of a time and a deadline that may not be set. -/
def minDeadline (time : Nat) : Option Nat → Nat
  | none => time
  | some deadline => min time deadline

def expirePrediction (nowMs : Nat) (self : SessionDriver T) : SessionDriver T :=
  requestOutput (self.prediction.expire nowMs).1 { self with prediction := (self.prediction.expire nowMs).2 }

def updatePredictionPolicy (nowMs : Nat) (self : SessionDriver T) : SessionDriver T :=
  let estimator := self.datagramTiming.estimator
  let updated := self.prediction.updatePolicy nowMs (estimator.smoothedRttMs.map fun _ => estimator.frameIntervalMs)
  requestOutput updated.1 { self with prediction := updated.2 }

def pollScheduler (nowMs : Nat) : Driving T SchedulerPoll := do
  let self ← get
  onScheduler (SendScheduler.poll nowMs self.datagramTiming.estimator
    self.synchronization.latestUnacknowledgedSentAtMs)

/-- When `run` wakes up next, if nothing happens before. -/
def runWait (nowMs wakeAtMs : Nat) : Driving T Wait := do
  let self ← get
  let reachabilityDeadline ← ofExcept .reachability self.reachability.nextDeadlineMs
  let wakeAtMs := minDeadline (minDeadline wakeAtMs self.prediction.nextDeadlineMs) reachabilityDeadline
  let receiveEnabled := decide (nowMs ≥ self.receiveNotBeforeMs)
  let wakeAtMs := if receiveEnabled then wakeAtMs else min wakeAtMs self.receiveNotBeforeMs
  return ⟨wakeAtMs, self.outputRequested, receiveEnabled⟩

/-- One pass of the loop, up to the end of a send or to the wait. -/
def pass (p : Platform T) (env : Transmission) (elapsedMs : Nat) : Driving T PassOutcome := do
  let now ← nowMs elapsedMs
  publishReachability now
  let self ← get
  if self.reachability.attachmentTimedOut now then throw .connectionTimeout
  else do
    let _ ← onReassembler (FragmentReassembler.expire now)
    modify (expirePrediction now)
    modify (updatePredictionPolicy now)
    match ← pollScheduler now with
    | .send plan => do
      sendInstruction p env plan now
      return .sendAttempted
    | .pending wakeAtMs => do
      let wait ← runWait now wakeAtMs
      return .wait wait

/-! ### The loop of `run_local_shutdown` -/

/-- Until when a local shutdown waits for its acknowledgement, and when it sends its next request. -/
structure LocalShutdown where
  deadlineMs : Nat
  nextSendMs : Nat
  deriving DecidableEq, Repr

inductive ShutdownPassOutcome where
  | exit (exit : SessionExit)
  | wait (progress : LocalShutdown) (wait : Wait)
  deriving DecidableEq, Repr

def beginLocalShutdown (elapsedMs : Nat) : Driving T LocalShutdown := do
  let startedMs ← nowMs elapsedMs
  let deadlineMs ← ofOption .clockExhausted (checkedAdd startedMs gracefulCloseAckTimeoutMs)
  return ⟨deadlineMs, startedMs⟩

def shutdownWait (nowMs : Nat) (progress : LocalShutdown) (self : SessionDriver T) : Wait :=
  let wakeAtMs := min progress.nextSendMs progress.deadlineMs
  let receiveEnabled := decide (nowMs ≥ self.receiveNotBeforeMs)
  ⟨if receiveEnabled then wakeAtMs else min wakeAtMs self.receiveNotBeforeMs, self.outputRequested, receiveEnabled⟩

/-- Sends a shutdown request and returns when to send the next, or nothing when the session was
    cancelled meanwhile. -/
def requestShutdown (p : Platform T) (env : Transmission) (now : Nat) : Driving T (Option Nat) := do
  match ← sendShutdownRequest p env now with
  | .sent => do
    let self ← get
    let next ← ofOption .clockExhausted
      (checkedAdd now self.datagramTiming.estimator.retransmissionTimeoutMs)
    return some next
  | .cancelled => return none
  | .deferred => do
    let failedAtMs ← nowMs env.elapsedAfterMs
    let self ← get
    let next ← ofOption .clockExhausted (checkedAdd failedAtMs self.ioRetryMs)
    return some next

/-- One pass of the shutdown loop, up to the wait. -/
def shutdownPass (p : Platform T) (env : Transmission) (elapsedMs : Nat) (progress : LocalShutdown) :
    Driving T ShutdownPassOutcome := do
  let now ← nowMs elapsedMs
  if now ≥ progress.deadlineMs then return .exit .localClosed
  else if now ≥ progress.nextSendMs then do
    match ← requestShutdown p env now with
    | none => return .exit .cancelled
    | some nextSendMs => do
      let self ← get
      let progress := { progress with nextSendMs := nextSendMs }
      return .wait progress (self.shutdownWait now progress)
  else do
    let self ← get
    return .wait progress (self.shutdownWait now progress)

/-- Handles a datagram while the session is closing, and says whether the close is complete or was
    cancelled. -/
def handleShutdownDatagram (p : Platform T) (env : Transmission) (decodedAtMs handledAtMs : Nat)
    (datagram : Bytes) (source : SocketAddr) : Driving T (Option SessionExit) := do
  match ← decodeDatagram p decodedAtMs datagram source with
  | none => return none
  | some instruction =>
    let acknowledged := instruction.acknowledgedState == shutdownState
    if instruction.isShutdown then do
      handleRemoteShutdown p instruction
      let now ← nowMs handledAtMs
      if ← sendShutdownAcknowledgement p env now then return some .localClosed
      else return some .cancelled
    else do
      let self ← get
      let ordinary :=
        if acknowledged then
          { instruction with acknowledgedState := self.synchronization.knownReceiverState }
        else instruction
      handleNormalInstruction p handledAtMs ordinary
      let self ← get
      if acknowledged ∨ self.finalTerminal.isSome then return some .localClosed else return none

/-! ### Connecting -/

/-- The driver before its first operation. -/
def initial (serverAddr : SocketAddrV4) (initialTerminal : T) (mode : PredictionMode) : SessionDriver T where
  serverAddr := serverAddr
  packetReceiver := PacketReceiver.new .serverToClient
  sendSequence := SendSequence.new
  fragmentIdentifier := InstructionIdentifier.new
  reassembler := FragmentReassembler.new 0
  synchronization := SynchronizationState.new
  scheduler := SendScheduler.new 0
  datagramTiming := DatagramTiming.new 0
  clientHistory := ClientHistory.new
  terminalStates := OrderedMap.empty.insert 0 initialTerminal
  prediction := LocalPrediction.new mode
  paintedState := none
  outputRequested := false
  forceFullRepaint := false
  receiveNotBeforeMs := 0
  state := .connecting
  reachability := ReachabilityTracker.new
  publishedReachability := ReachabilityTracker.new.current
  finalTerminal := none
  trace := Trace.empty

/-- A driver whose first local state holds the size of the terminal. -/
def connect (p : Platform T) (serverAddr : SocketAddrV4) (columns rows : Nat) (mode : PredictionMode) :
    Except DriverError (SessionDriver T) :=
  match p.terminal.new columns rows with
  | .error e => .error (.terminal e)
  | .ok initialTerminal =>
    match advanceClient (.resize columns rows) 0 (initial serverAddr initialTerminal mode) with
    | .error e _ => .error e
    | .ok _ driver => .ok driver

end SessionDriver
end MoshClient
