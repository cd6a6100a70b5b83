import MoshClient.Theorems.Driver

/-! What the methods of the driver leave alone. Sending, in either loop, changes only the sender's side of the
    driver; a datagram that arrives changes, until it is handled, only the receiver's side of the transport. -/

namespace MoshClient
open Limits Effect SynchronizationState Simulation

variable {T α : Type}

namespace SynchronizationState

/-- The receiver's numbers. -/
def receiver (s : SynchronizationState) : SynchronizationState :=
  { new with
    remoteLatest := s.remoteLatest
    remoteThrowawayFloor := s.remoteThrowawayFloor
    receivedStates := s.receivedStates
    receiverGeneration := s.receiverGeneration }

theorem SameReceiver.receiver_eq {s t : SynchronizationState} (h : SameReceiver s t) : t.receiver = s.receiver := by
  unfold receiver
  rw [h.latest, h.floor, h.received, h.generation]

end SynchronizationState

namespace SessionDriver

/-- The driver apart from the sender: from its numbers, its plans and the transport below it. -/
def apartFromSender (s : SessionDriver T) : SessionDriver T :=
  { s with
    sendSequence := SendSequence.new
    fragmentIdentifier := InstructionIdentifier.new
    synchronization := s.synchronization.receiver
    scheduler := SendScheduler.new 0
    datagramTiming := { s.datagramTiming with lastObservedMs := 0 }
    clientHistory := ClientHistory.new
    trace := { Trace.empty with emitted := s.trace.emitted } }

/-- The driver apart from what a datagram changes before its instruction is handled. -/
def apartFromArrival (s : SessionDriver T) : SessionDriver T :=
  { s with
    packetReceiver := PacketReceiver.new .serverToClient
    datagramTiming := DatagramTiming.new 0
    reassembler := FragmentReassembler.new 0 }

/-- The driver apart from what an instruction of the peer changes. -/
def apartFromInstruction (s : SessionDriver T) : SessionDriver T :=
  { s with
    synchronization := SynchronizationState.new
    scheduler := SendScheduler.new 0
    clientHistory := ClientHistory.new
    terminalStates := OrderedMap.empty
    prediction := LocalPrediction.new .never
    outputRequested := false
    state := .connecting
    reachability := ReachabilityTracker.new
    publishedReachability := .awaitingPeer
    finalTerminal := none }

/-! ### The clock -/

theorem frame_nowMs {τ : Type} {view : SessionDriver T → τ} (elapsedMs : Nat) : (frame view).Unseen (nowMs elapsedMs) :=
  .ite (unseen_pure _) (unseen_throw trivial)

theorem preserves_nowMs {I : SessionDriver T → Prop} (elapsedMs : Nat) : Preserves I (nowMs elapsedMs) :=
  .ite (preserves_pure _) (preserves_throw _)

theorem wp_nowMs (elapsedMs : Nat) (s : SessionDriver T) :
    wp (nowMs elapsedMs) (fun now t => now = elapsedMs ∧ elapsedMs < 2 ^ 64 ∧ t = s) (fun _ t => t = s) s := by
  rw [nowMs, wp_ite]
  exact ⟨fun h => ⟨rfl, h, rfl⟩, fun _ => rfl⟩

/-! ### Sending -/

theorem frame_onSynchronization {m : Synchronizing α}
    (hm : ∀ s, wp m (fun _ t => SameReceiver s t) (fun _ t => SameReceiver s t) s) :
    (frame apartFromSender).Unseen (onSynchronization m : Driving T α) := by
  refine frame_zoom_of_wp (R := SameReceiver) (fun t s h => ?_) hm
  simp only [apartFromSender, h.receiver_eq]

theorem frame_onScheduler (m : Scheduling α) : (frame apartFromSender).Unseen (onScheduler m : Driving T α) :=
  frame_zoom fun _ _ => rfl

theorem frame_onClientHistory (m : EStateM DriverError ClientHistory α) :
    (frame apartFromSender).Unseen (onClientHistory m : Driving T α) :=
  frame_zoom fun _ _ => rfl

theorem frame_acknowledgeHistory : (frame apartFromSender).Unseen (acknowledgeHistory : Driving T Unit) :=
  unseen_get.bind fun _ => frame_onClientHistory _

theorem frame_allocateState : (frame apartFromSender).Unseen (allocateState : Driving T Nat) := by
  refine Unseen.bind (frame_onSynchronization fun s => ?_) fun state => Unseen.bind (unseen_modify fun _ => by rfl) fun _ =>
    unseen_pure _
  refine (wp_advanceLocal s).mono (fun _ t h => ?_) fun _ t h => h.1 ▸ SameReceiver.refl t
  obtain ⟨-, -, rfl⟩ := h
  exact ⟨rfl, rfl, rfl, rfl⟩

theorem frame_advanceClient (operation : ClientOperation) (nowMs : Nat) :
    (frame apartFromSender).Unseen (advanceClient operation nowMs : Driving T Nat) := by
  have happend : (frame apartFromSender).Unseen (appendOperation operation : Driving T Unit) :=
    (frame_onClientHistory _).bind fun _ => unseen_modify fun _ => by rfl
  exact happend.bind fun _ => frame_allocateState.bind fun _ => (frame_onScheduler _).bind fun _ => unseen_pure _

theorem frame_transmit (p : Platform T) (env : Transmission) (m : TransportInstruction) (nowMs : Nat) :
    (frame apartFromSender).Unseen (sendTransportInstruction p env m nowMs) := by
  intro s
  exact (wp_transmit p env m nowMs s).mono (fun _ _ h => (congrArg apartFromSender h :))
    fun _ _ h => ⟨(congrArg apartFromSender h :), trivial⟩

theorem frame_planSend {τ : Type} {view : SessionDriver T → τ} (nowMs : Nat) : (frame view).Unseen (planSend nowMs) :=
  unseen_get.bind fun _ => unseen_ofExcept fun _ => trivial

theorem frame_planDifference {τ : Type} {view : SessionDriver T → τ} (base target : Nat) :
    (frame view).Unseen (planDifference base target) :=
  unseen_get.bind fun _ => unseen_ofExcept fun _ => trivial

theorem frame_planOrAllocate (nowMs : Nat) : (frame apartFromSender).Unseen (planOrAllocate nowMs : Driving T SendPlan) := by
  refine unseen_get.bind fun s => ?_
  split
  · exact unseen_pure _
  · exact frame_allocateState.bind fun _ => frame_planSend nowMs
  · exact unseen_throw trivial

theorem frame_commitSend (plan : SendPlan) : (frame apartFromSender).Unseen (commitSend plan : Driving T Unit) := by
  refine Unseen.bind (frame_onSynchronization fun s => ?_) fun commit => ?_
  · exact (SynchronizationState.wp_commitSend s plan).mono (fun _ _ h => h.receiver) fun _ t h => h.1 ▸ SameReceiver.refl t
  · split
    · exact unseen_modify fun _ => by rfl
    · exact unseen_pure _

theorem frame_sendInstruction (p : Platform T) (env : Transmission) (wakePlan : WakePlan) (now : Nat) :
    (frame apartFromSender).Unseen (sendInstruction p env wakePlan now) := by
  refine (frame_planOrAllocate now).bind fun plan => (frame_planDifference _ _).bind fun difference => ?_
  refine (frame_transmit p env _ now).bind fun outcome => ?_
  cases outcome with
  | sent => exact (frame_commitSend plan).bind fun _ => frame_onScheduler _
  | cancelled => exact unseen_pure _
  | deferred => exact (frame_nowMs _).bind fun _ => unseen_get.bind fun _ => frame_onScheduler _

theorem frame_pollScheduler (nowMs : Nat) : (frame apartFromSender).Unseen (pollScheduler nowMs : Driving T SchedulerPoll) :=
  unseen_get.bind fun _ => frame_onScheduler _

theorem frame_sendShutdownAcknowledgement (p : Platform T) (env : Transmission) (now : Nat) :
    (frame apartFromSender).Unseen (sendShutdownAcknowledgement p env now) := by
  refine frame_allocateState.bind fun _ => (frame_planSend now).bind fun plan => (frame_planDifference _ _).bind fun _ => ?_
  refine (frame_transmit p env _ now).bind fun outcome => ?_
  cases outcome with
  | sent => exact (frame_commitSend plan).bind fun _ => unseen_pure _
  | cancelled => exact unseen_pure _
  | deferred => exact unseen_pure _

theorem frame_sendShutdownRequest (p : Platform T) (env : Transmission) (now : Nat) :
    (frame apartFromSender).Unseen (sendShutdownRequest p env now) :=
  unseen_get.bind fun _ => (frame_planDifference _ _).bind fun _ => frame_transmit p env _ now

theorem frame_shutdownPass (p : Platform T) (env : Transmission) (elapsedMs : Nat) (progress : LocalShutdown) :
    (frame apartFromSender).Unseen (shutdownPass p env elapsedMs progress) :=
  unseen_of_follows
    (follows_shutdownPass_of trivial (fun now => (frame_sendShutdownRequest p env now).follows) elapsedMs progress)

theorem frame_beginLocalShutdown {τ : Type} {view : SessionDriver T → τ} (elapsedMs : Nat) :
    (frame view).Unseen (beginLocalShutdown elapsedMs) := by
  refine (frame_nowMs _).bind fun startedMs s => ?_
  simp only [wp_bind, wp_ofOption, wp_pure]
  exact ⟨fun _ _ => trivial, fun _ => ⟨trivial, trivial⟩⟩

/-! ### Receiving -/

theorem frame_classifyReceive {τ : Type} {view : SessionDriver T → τ}
    (hview : ∀ s notBefore, view { s with receiveNotBeforeMs := notBefore } = view s) (elapsedMs : Nat)
    (result : Except ErrorKind (Bytes × SocketAddr)) : (frame view).Unseen (classifyReceive elapsedMs result) := by
  cases result with
  | ok received => exact Unseen.bind (unseen_modify fun s => hview s 0) fun _ => unseen_pure _
  | error kind =>
    refine unseen_get.bind fun _ => .ite ?_ (unseen_throw trivial)
    refine (frame_nowMs _).bind fun failedAtMs => Unseen.bind ?_ fun _ => unseen_pure _
    exact unseen_get.bind fun _ => (unseen_ofOption trivial).bind fun notBefore => unseen_modify fun s => hview s notBefore

theorem frame_openDatagram {τ : Type} {view : SessionDriver T → τ}
    (hview : ∀ s receiver, view { s with packetReceiver := receiver } = view s) (p : Platform T) (datagram : Bytes)
    (source : SocketAddr) : (frame view).Unseen (openDatagram p datagram source) := by
  intro s
  unfold wp openDatagram
  cases PacketReceiver.openFrom p.crypto s.serverAddr source datagram s.packetReceiver with
  | ok opened receiver => exact hview s receiver
  | error e receiver =>
    by_cases he : isDroppedPacketError e = true
    · simp only [he, if_true]
      exact hview s receiver
    · simp only [he]
      exact ⟨hview s receiver, trivial⟩

theorem frame_decodeDatagram (p : Platform T) (elapsedMs : Nat) (datagram : Bytes) (source : SocketAddr) :
    (frame apartFromArrival).Unseen (decodeDatagram p elapsedMs datagram source) := by
  refine (frame_nowMs _).bind fun now => (frame_openDatagram (fun _ _ => rfl) p datagram source).bind fun opened => ?_
  cases opened with
  | none => exact unseen_pure _
  | some opened =>
    refine (unseen_ofExcept fun _ => trivial).bind fun decoded => Unseen.bind (frame_zoom fun _ _ => rfl) fun _ => ?_
    refine Unseen.bind (frame_zoom fun _ _ => rfl) fun result => ?_
    cases result with
    | complete compressed => exact (unseen_ofExcept fun _ => trivial).bind fun _ => unseen_pure _
    | pending => exact unseen_pure _
    | duplicate => exact unseen_pure _

theorem frame_publishReachability {τ : Type} {view : SessionDriver T → τ}
    (hview : ∀ s r published, view { s with reachability := r, publishedReachability := published } = view s)
    (nowMs : Nat) : (frame view).Unseen (publishReachability nowMs : Driving T Unit) := by
  refine Unseen.bind (frame_zoom fun r s => hview s r s.publishedReachability) fun published => ?_
  cases published with
  | none => exact unseen_pure _
  | some reachability => exact unseen_modify fun s => hview s s.reachability reachability

theorem frame_noteReply {τ : Type} {view : SessionDriver T → τ}
    (hview : ∀ s r, view { s with reachability := r } = view s) (acknowledgement : AcknowledgementDisposition)
    (sentAtMs : Option Nat) : (frame view).Unseen (modify (noteReply acknowledgement sentAtMs) : Driving T PUnit) := by
  refine unseen_modify fun s => ?_
  unfold noteReply
  split
  · exact hview s _
  · rfl

theorem frame_noteLatestState {τ : Type} {view : SessionDriver T → τ}
    (hreachability : ∀ s r, view { s with reachability := r } = view s)
    (hprediction : ∀ s prediction, view { s with prediction := prediction } = view s)
    (hstate : ∀ s state, view { s with state := state, outputRequested := true } = view s) (p : Platform T)
    (nowMs targetState : Nat) : (frame view).Unseen (noteLatestState p nowMs targetState) := by
  refine Unseen.bind (unseen_modify fun s => hreachability s _) fun _ => unseen_get.bind fun _ => ?_
  refine (unseen_ofOption trivial).bind fun _ => Unseen.bind (frame_zoom fun prediction s => hprediction s prediction) fun _ => ?_
  exact unseen_modify fun s => hstate s _

theorem frame_settleRemoteState (p : Platform T) (nowMs : Nat) (disposition : RemoteStateDisposition) :
    (frame apartFromInstruction).Unseen (settleRemoteState p nowMs disposition) := by
  cases disposition with
  | apply plan =>
    refine unseen_get.bind fun _ => (unseen_ofOption trivial).bind fun _ => (unseen_ofExcept fun _ => trivial).bind fun _ => ?_
    refine (unseen_ofExcept fun _ => trivial).bind fun next => Unseen.bind (frame_zoom fun _ _ => by rfl) fun commit => ?_
    refine Unseen.bind (unseen_modify fun _ => by rfl) fun _ => unseen_get.bind fun _ => ?_
    refine .ite ?_ (unseen_pure _)
    exact frame_noteLatestState (fun _ _ => by rfl) (fun _ _ => by rfl) (fun _ _ => by rfl) p nowMs _
  | alreadyConstructed => exact unseen_pure _
  | missingReference => exact unseen_pure _
  | belowThrowawayFloor => exact unseen_pure _
  | belowRetentionWindow => exact unseen_pure _

theorem frame_handleNormalInstruction (p : Platform T) (elapsedMs : Nat) (instruction : TransportInstruction) :
    (frame apartFromInstruction).Unseen (handleNormalInstruction p elapsedMs instruction) := by
  refine (frame_nowMs _).bind fun now => unseen_get.bind fun _ => Unseen.bind (frame_zoom fun _ _ => by rfl) fun transition => ?_
  refine (frame_noteReply (fun _ _ => by rfl) _ _).bind fun _ => ?_
  refine Unseen.bind (unseen_get.bind fun _ => frame_zoom fun _ _ => by rfl) fun _ => ?_
  refine Unseen.bind (frame_zoom fun _ _ => by rfl) fun _ => (frame_settleRemoteState p now _).bind fun _ => ?_
  exact frame_publishReachability (fun _ _ _ => by rfl) now

theorem frame_handleRemoteShutdown (p : Platform T) (instruction : TransportInstruction) :
    (frame apartFromInstruction).Unseen (handleRemoteShutdown p instruction) := by
  refine unseen_get.bind fun _ => Unseen.bind (frame_zoom fun _ _ => by rfl) fun transition => ?_
  refine Unseen.bind (unseen_get.bind fun _ => frame_zoom fun _ _ => by rfl) fun _ => unseen_get.bind fun _ => ?_
  refine (unseen_ofOption trivial).bind fun _ => (unseen_ofExcept fun _ => trivial).bind fun _ => ?_
  exact (unseen_ofExcept fun _ => trivial).bind fun _ => unseen_modify fun _ => by rfl

/-! ### Output -/

theorem frame_emitOutput {τ : Type} {view : SessionDriver T → τ}
    (hview : ∀ s current output, view { s with
      paintedState := some current
      outputRequested := false
      forceFullRepaint := false
      trace := { s.trace with emitted := s.trace.emitted ++ [output] } } = view s)
    (p : Platform T) : (frame view).Unseen (emitOutput p) := by
  refine unseen_get.bind fun _ => (unseen_ofExcept fun _ => trivial).bind fun _ => ?_
  exact (unseen_ofExcept fun _ => trivial).bind fun _ => unseen_modify fun s => hview s _ _

end SessionDriver

theorem Connection.apartFromSender_eq {p : Platform T} (c : Connection p) :
    ∃ initialTerminal, c.driver.apartFromSender =
      (SessionDriver.initial c.serverAddr initialTerminal c.mode).apartFromSender := by
  have hopened := c.opened
  unfold SessionDriver.connect at hopened
  split at hopened
  · cases hopened
  · rename_i initialTerminal _
    have hadvance := SessionDriver.frame_advanceClient (.resize c.columns c.rows) 0
      (SessionDriver.initial c.serverAddr initialTerminal c.mode)
    split at hopened
    · cases hopened
    · rename_i h
      cases hopened
      exact ⟨initialTerminal, hadvance.ok h⟩

end MoshClient
