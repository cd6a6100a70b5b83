import MoshClient.Attempts
import MoshClient.Theorems.Frames
import MoshClient.Theorems.Task

/-! A pass of `run`, cut at the poll of the scheduler, and `send_instruction`, cut at the end of the
    transmission: what has to be shown of the parts to know it of the whole. -/

namespace MoshClient
open Effect SessionDriver Simulation

variable {T α : Type} {p : Platform T}

namespace SessionDriver

theorem wp_pass_iff (env : Transmission) (elapsedMs : Nat) {Q : PassOutcome → SessionDriver T → Prop}
    {E : DriverError → SessionDriver T → Prop} {s : SessionDriver T} :
    wp (pass p env elapsedMs) Q E s ↔
      wp (beginPass elapsedMs) (fun now t =>
        wp (pollScheduler now) (fun answer u => wp (finishPass p env now answer) Q E u) E t) E s := by
  simp only [pass, beginPass, wp_bind, wp_get, wp_ite, wp_throw, wp_modify, wp_pure]
  exact Iff.rfl

theorem wp_sendInstruction_iff (env : Transmission) (wakePlan : WakePlan) (now : Nat) {Q : Unit → SessionDriver T → Prop}
    {E : DriverError → SessionDriver T → Prop} {s : SessionDriver T} :
    wp (sendInstruction p env wakePlan now) Q E s ↔
      wp (attemptSend p env now) (fun sent t => wp (settleSend env wakePlan sent.1 sent.2) Q E t) E s := by
  simp only [sendInstruction, attemptSend, wp_bind, wp_pure]
  exact Iff.rfl

/-- The driver apart from what the timers of a pass change. -/
def apartFromTimers (s : SessionDriver T) : SessionDriver T :=
  { s with
    reassembler := FragmentReassembler.new 0
    reachability := ReachabilityTracker.new
    publishedReachability := .awaitingPeer }

/-- What neither the timers nor the prediction change is the same at the poll. -/
theorem frame_beginPass {τ : Type} {view : SessionDriver T → τ}
    (hreachability : ∀ s r published, view { s with reachability := r, publishedReachability := published } = view s)
    (hreassembler : ∀ s r, view { s with reassembler := r } = view s)
    (hprediction : ∀ requested s prediction, view (requestOutput requested { s with prediction := prediction }) = view s)
    (elapsedMs : Nat) : (frame view).Unseen (beginPass elapsedMs) := by
  refine (frame_nowMs elapsedMs).bind fun now => (frame_publishReachability hreachability now).bind fun _ => ?_
  refine unseen_get.bind fun _ => .ite (unseen_throw trivial) ?_
  refine Unseen.bind (frame_zoom fun r s => hreassembler s r) fun _ => ?_
  refine Unseen.bind (unseen_modify fun s => hprediction _ s _) fun _ => ?_
  exact Unseen.bind (unseen_modify fun s => hprediction _ s _) fun _ => unseen_pure _

section Pass
variable {I : SessionDriver T → Prop} (htimers : ∀ {s t : SessionDriver T}, t.apartFromTimers = s.apartFromTimers → I s → I t)
  (hexpire : ∀ now s, I s → I (s.expirePrediction now)) (hpolicy : ∀ now s, I s → I (s.updatePredictionPolicy now))
include htimers hexpire hpolicy

theorem preserves_beginPass (elapsedMs : Nat) : Preserves I (beginPass elapsedMs) := by
  refine (preserves_nowMs elapsedMs).bind fun now => ((frame_publishReachability (fun _ _ _ => by rfl) now).preserves htimers).bind
    fun _ => preserves_get.bind fun _ => .ite (preserves_throw _) ?_
  refine Preserves.bind (Unseen.preserves (frame_zoom fun _ _ => by rfl) htimers) fun _ => ?_
  exact (preserves_modify (hexpire now)).bind fun _ => (preserves_modify (hpolicy now)).bind fun _ => preserves_pure _

/-- What the timers, the poll and a send preserve, a pass preserves. -/
theorem preserves_pass_of (hpoll : ∀ now, Preserves I (pollScheduler now))
    (hsend : ∀ env plan now, Preserves I (sendInstruction p env plan now)) (env : Transmission) (elapsedMs : Nat) :
    Preserves I (pass p env elapsedMs) := by
  intro s hs
  rw [wp_pass_iff]
  refine (preserves_beginPass htimers hexpire hpolicy elapsedMs s hs).mono (fun now t ht => ?_) fun _ _ h => h
  refine (hpoll now t ht).mono (fun answer u hu => ?_) fun _ _ h => h
  cases answer with
  | send plan => exact ((hsend env plan now).bind fun _ => preserves_pure _) u hu
  | pending wakeAtMs =>
    refine Preserves.bind (Unseen.preserves ?_ htimers) (fun _ => preserves_pure _) u hu
    exact unseen_get.bind fun _ => (unseen_ofExcept fun _ => trivial).bind fun _ => unseen_pure _

end Pass

/-- What an operation, its prediction and a repaint preserve, a command preserves. -/
theorem preserves_handleCommand_of {I : SessionDriver T → Prop}
    (hadvance : ∀ operation now, Preserves I (advanceClient operation now))
    (hpredict : ∀ state bytes now, Preserves I (predictInput p state bytes now))
    (hrepaint : ∀ s : SessionDriver T, I s →
      I { s with prediction := s.prediction.reset.2, outputRequested := true, forceFullRepaint := true })
    (elapsedMs : Nat) (command : SessionCommand) : Preserves I (handleCommand p elapsedMs command) := by
  refine (preserves_nowMs elapsedMs).bind fun now => ?_
  cases command with
  | input bytes => exact .ite (preserves_pure _) ((hadvance _ now).bind fun state => hpredict state bytes now)
  | resize columns rows =>
    refine (hadvance _ now).bind fun _ => preserves_get.bind fun _ => ?_
    exact hpredict _ [] now
  | repaint => exact preserves_modify hrepaint

/-! ### What the loops change around a datagram and an output -/

/-- The driver apart from its timers, its prediction and its requests for output. -/
def apartFromLoop (s : SessionDriver T) : SessionDriver T :=
  { s.apartFromTimers with
    prediction := LocalPrediction.new .never
    outputRequested := false
    forceFullRepaint := false
    receiveNotBeforeMs := 0 }

theorem apartFromLoop_requestOutput (requested : Bool) (s : SessionDriver T) :
    (requestOutput requested s).apartFromLoop = s.apartFromLoop := by
  cases requested <;> rfl

/-- `I` does not depend on what the sender, an instruction of the peer or the loop changes. -/
structure Indifferent (I : SessionDriver T → Prop) : Prop where
  sender : ∀ {s t : SessionDriver T}, t.apartFromSender = s.apartFromSender → I s → I t
  instruction : ∀ {s t : SessionDriver T}, t.apartFromInstruction = s.apartFromInstruction → I s → I t
  loop : ∀ {s t : SessionDriver T}, t.apartFromLoop = s.apartFromLoop → I s → I t

namespace Indifferent

variable {I : SessionDriver T → Prop} (h : Indifferent I)
include h

theorem pass (env : Transmission) (elapsedMs : Nat) : Preserves I (SessionDriver.pass p env elapsedMs) :=
  preserves_pass_of (I := I) (fun heq => h.loop (congrArg apartFromLoop heq :))
    (fun _ _ => h.loop (apartFromLoop_requestOutput _ _)) (fun _ _ => h.loop (apartFromLoop_requestOutput _ _))
    (fun now => (frame_pollScheduler now).preserves h.sender)
    (fun env plan now => (frame_sendInstruction p env plan now).preserves h.sender) env elapsedMs

theorem handleCommand (elapsedMs : Nat) (command : SessionCommand) :
    Preserves I (SessionDriver.handleCommand p elapsedMs command) := by
  refine preserves_handleCommand_of (fun operation now => (frame_advanceClient operation now).preserves h.sender)
    (fun state bytes now => ?_) (fun _ => h.loop rfl) elapsedMs command
  exact (frame_predictInput (fun requested _ _ => apartFromLoop_requestOutput requested _) p state bytes now).preserves h.loop

theorem acknowledge (env : Transmission) (elapsedMs : Nat) {next : Bool → Driving T α}
    (hnext : ∀ sent, Preserves I (next sent)) :
    Preserves I (do next (← sendShutdownAcknowledgement p env (← nowMs elapsedMs))) :=
  (preserves_nowMs elapsedMs).bind fun now =>
    ((frame_sendShutdownAcknowledgement p env now).preserves h.sender).bind hnext

variable (hdecode : ∀ elapsedMs datagram source, Preserves I (decodeDatagram p elapsedMs datagram source))
include hdecode

theorem handleDatagram (decodedAtMs handledAtMs : Nat) (datagram : Bytes) (source : SocketAddr) :
    Preserves I (SessionDriver.handleDatagram p decodedAtMs handledAtMs datagram source) := by
  refine (hdecode decodedAtMs datagram source).bind fun decoded => ?_
  cases decoded with
  | none => exact preserves_pure _
  | some instruction =>
    refine .ite ?_ ?_
    · exact ((frame_handleRemoteShutdown p instruction).preserves h.instruction).bind fun _ => preserves_pure _
    · exact ((frame_handleNormalInstruction p handledAtMs instruction).preserves h.instruction).bind fun _ => preserves_pure _

theorem handleShutdownDatagram (env : Transmission) (decodedAtMs handledAtMs : Nat) (datagram : Bytes) (source : SocketAddr) :
    Preserves I (SessionDriver.handleShutdownDatagram p env decodedAtMs handledAtMs datagram source) := by
  refine (hdecode decodedAtMs datagram source).bind fun decoded => ?_
  cases decoded with
  | none => exact preserves_pure _
  | some instruction =>
    refine .ite ?_ ?_
    · refine ((frame_handleRemoteShutdown p instruction).preserves h.instruction).bind fun _ => ?_
      exact h.acknowledge env handledAtMs fun _ => .ite (preserves_pure _) (preserves_pure _)
    · refine preserves_get.bind fun _ => ?_
      refine ((frame_handleNormalInstruction p handledAtMs _).preserves h.instruction).bind fun _ => ?_
      exact preserves_get.bind fun _ => .ite (preserves_pure _) (preserves_pure _)

theorem receive (env : Transmission) (elapsedMs decodedAtMs handledAtMs repliedAtMs : Nat)
    (received : Except ErrorKind (Bytes × SocketAddr)) (loop : TaskLoop) :
    Preserves I (SessionDriver.receive p env elapsedMs decodedAtMs handledAtMs repliedAtMs received loop) := by
  refine ((frame_classifyReceive (fun _ _ => by rfl) elapsedMs received).preserves h.loop).bind fun classified => ?_
  cases classified with
  | none => exact preserves_pure _
  | some datagram =>
    cases loop with
    | run =>
      refine (h.handleDatagram hdecode decodedAtMs handledAtMs _ _).bind fun outcome => ?_
      cases outcome with
      | «continue» => exact preserves_pure _
      | remoteShutdown => exact h.acknowledge env repliedAtMs fun _ => .ite (preserves_pure _) (preserves_pure _)
    | localShutdown progress =>
      refine (h.handleShutdownDatagram hdecode env decodedAtMs handledAtMs _ _).bind fun exit => ?_
      split <;> exact preserves_pure _

/-- Only the decoding of a datagram and an output are left to show. -/
theorem methodsKeep (houtput : Preserves I (emitOutput p)) : Session.MethodsKeep p I where
  pass := h.pass
  shutdownPass env elapsedMs progress := (frame_shutdownPass p env elapsedMs progress).preserves h.sender
  command := h.handleCommand
  begin elapsedMs := (frame_beginLocalShutdown elapsedMs).preserves h.loop
  output := houtput
  receive := h.receive hdecode

end Indifferent
end SessionDriver
end MoshClient
