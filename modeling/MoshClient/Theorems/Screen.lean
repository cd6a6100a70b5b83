import Mathlib.Data.List.Induction
import MoshClient.Theorems.Exchange
import MoshClient.Theorems.Pass
import MoshClient.Theorems.Prediction

/-! The screen. Whatever changes what should be visible requests output, until it is emitted. A session that
    the peer has closed ends with the output of the terminal that the shutdown left. -/

namespace MoshClient
open Limits Effect SynchronizationState SessionDriver Simulation

variable {T α : Type} {p : Platform T}

namespace SessionDriver

variable {s t : SessionDriver T}

/-- What should be visible. -/
def shown (s : SessionDriver T) : Except DriverError T := s.latestTerminalState.map s.prediction.display

/-- What is painted is what should be visible, unless output is requested. -/
def UpToDate (s : SessionDriver T) : Prop :=
  ∀ painted, s.paintedState = some painted → s.outputRequested = false → s.shown = .ok painted

/-- The parts of the driver that decide about the screen. -/
def presentation (s : SessionDriver T) :=
  (s.prediction, s.paintedState, s.outputRequested, s.finalTerminal, s.terminalStates, s.synchronization.remoteLatest)

theorem upToDate_of_requested (h : s.outputRequested = true) : UpToDate s := by
  intro _ _ hrequested
  rw [h] at hrequested
  cases hrequested

theorem UpToDate.of_shown (hs : UpToDate s) (hpainted : t.paintedState = s.paintedState)
    (hrequested : t.outputRequested = s.outputRequested) (hshown : t.shown = s.shown) : UpToDate t := by
  unfold UpToDate
  rw [hpainted, hrequested, hshown]
  exact hs

theorem UpToDate.of_presentation (h : t.presentation = s.presentation) (hs : UpToDate s) : UpToDate t := by
  simp only [presentation, Prod.mk.injEq] at h
  obtain ⟨hprediction, hpainted, hrequested, hfinal, hterminals, hlatest⟩ := h
  refine hs.of_shown hpainted hrequested ?_
  unfold shown latestTerminalState
  rw [hprediction, hfinal, hterminals, hlatest]

theorem preserves_presentation {m : Driving T α} (h : (frame presentation).Unseen m) : Preserves UpToDate m :=
  h.preserves UpToDate.of_presentation

theorem preserves_sender {m : Driving T α} (h : (frame apartFromSender).Unseen m) : Preserves UpToDate m :=
  h.preserves fun heq => UpToDate.of_presentation (congrArg presentation heq :)

/-! ### The prediction -/

/-- A prediction that changes what is displayed says so. -/
theorem UpToDate.predict (hs : UpToDate s) {requested : Bool} {prediction : LocalPrediction T}
    (h : requested = false → ∀ authoritative, prediction.display authoritative = s.prediction.display authoritative) :
    UpToDate (requestOutput requested { s with prediction := prediction }) := by
  cases requested with
  | true => exact upToDate_of_requested rfl
  | false =>
    refine hs.of_shown rfl rfl ?_
    show s.latestTerminalState.map prediction.display = s.latestTerminalState.map s.prediction.display
    exact congrArg s.latestTerminalState.map (funext (h rfl))

theorem preserves_predictInput (state : Nat) (bytes : Bytes) (nowMs : Nat) :
    Preserves UpToDate (predictInput p state bytes nowMs) := by
  intro s hs
  rw [predictInput, wp_bind, wp_get, wp_bind, wp_ofOption]
  refine ⟨fun authoritative _ => ?_, fun _ => trivial⟩
  rw [wp_bind, onPrediction, wp_zoom]
  refine (LocalPrediction.wp_observeInput_display state bytes authoritative nowMs s.prediction).mono ?_ fun _ _ _ => trivial
  intro displayed next hnext
  exact hs.predict hnext

theorem preserves_handleCommand (elapsedMs : Nat) (command : SessionCommand) :
    Preserves UpToDate (handleCommand p elapsedMs command) :=
  preserves_handleCommand_of (fun operation now => preserves_sender (frame_advanceClient operation now))
    preserves_predictInput (fun _ _ => upToDate_of_requested rfl) elapsedMs command

/-! ### The pass of `run` -/

theorem UpToDate.of_timers (h : t.apartFromTimers = s.apartFromTimers) (hs : UpToDate s) : UpToDate t :=
  .of_presentation (congrArg presentation h :) hs

theorem preserves_publishReachability (nowMs : Nat) : Preserves UpToDate (publishReachability nowMs : Driving T Unit) :=
  preserves_presentation (frame_publishReachability (fun _ _ _ => by rfl) nowMs)

theorem preserves_pass (env : Transmission) (elapsedMs : Nat) : Preserves UpToDate (pass p env elapsedMs) :=
  preserves_pass_of UpToDate.of_timers (fun _ _ hs => hs.predict LocalPrediction.display_expire)
    (fun _ _ hs => hs.predict LocalPrediction.display_updatePolicy) (fun now => preserves_sender (frame_pollScheduler now))
    (fun env plan now => preserves_sender (frame_sendInstruction p env plan now)) env elapsedMs

/-! ### Datagrams -/

theorem preserves_classifyReceive (elapsedMs : Nat) (result : Except ErrorKind (Bytes × SocketAddr)) :
    Preserves UpToDate (classifyReceive elapsedMs result : Driving T _) :=
  preserves_presentation (frame_classifyReceive (fun _ _ => by rfl) elapsedMs result)

theorem wp_noteLatestState_requested (nowMs targetState : Nat) (s : SessionDriver T) :
    wp (noteLatestState p nowMs targetState) (fun _ t => t.outputRequested = true) (fun _ _ => True) s := by
  rw [noteLatestState, wp_bind, wp_modify, wp_bind, wp_get, wp_bind, wp_ofOption]
  refine ⟨fun authoritative _ => ?_, fun _ => trivial⟩
  exact wp_bind_of_forall (fun _ _ => rfl) fun _ _ => trivial

theorem get?_discardTerminalStates {m : OrderedMap Nat T} {floor n : Nat} {evicted : Option Nat} (hfloor : floor ≤ n)
    (hevicted : evicted ≠ some n) : (discardTerminalStates floor evicted m).get? n = m.get? n := by
  unfold discardTerminalStates
  cases evicted with
  | none => simp [hfloor]
  | some number =>
    have hne : n ≠ number := fun h => hevicted (by rw [h])
    simp [hfloor, hne]

/-- A state that does not become the latest leaves what should be visible. -/
theorem shown_construct {plan : ApplyPlan} {commit : ReceiveCommit} {u : SynchronizationState} {next : T}
    (hc : Constructed s.synchronization plan commit u) (hlatest : plan.targetState ≠ u.remoteLatest) :
    shown { s with
      synchronization := u
      terminalStates := discardTerminalStates commit.discardBeforeState commit.capacityEvictedState
        (s.terminalStates.insert plan.targetState next) } = s.shown := by
  have hsame : u.remoteLatest = s.synchronization.remoteLatest := by
    have := hc.latest
    omega
  obtain htarget | ⟨-, hfloor, hevicted⟩ := (hc.mem_iff _).mp hc.sound.latest_mem
  · exact absurd htarget.symm hlatest
  · have hget : (discardTerminalStates commit.discardBeforeState commit.capacityEvictedState
        (s.terminalStates.insert plan.targetState next)).get? u.remoteLatest =
          s.terminalStates.get? s.synchronization.remoteLatest := by
      rw [get?_discardTerminalStates (hc.discard ▸ hfloor) hevicted, OrderedMap.get?_insert, if_neg hlatest, hsame]
    unfold shown latestTerminalState
    dsimp only
    rw [hget]

theorem wp_applyRemoteState_upToDate (nowMs : Nat) {plan : ApplyPlan} (hs : UpToDate s) (hsound : s.ledger.Sound)
    (hplan : Applicable s.synchronization plan) :
    wp (applyRemoteState p nowMs plan) (fun _ t => UpToDate t) (fun _ _ => True) s := by
  rw [applyRemoteState, wp_bind, wp_get, wp_bind, wp_ofOption]
  refine ⟨fun base _ => ?_, fun _ => trivial⟩
  rw [wp_bind, wp_ofExcept]
  refine ⟨fun difference _ => ?_, fun _ _ => trivial⟩
  rw [wp_bind, wp_ofExcept]
  refine ⟨fun next _ => ?_, fun _ _ => trivial⟩
  rw [wp_bind, onSynchronization, wp_zoom]
  refine (wp_commitReceive hsound.receiver hplan).mono (fun commit u hc => ?_) fun _ _ _ => trivial
  rw [wp_bind, wp_modify, wp_bind, wp_get, wp_ite]
  refine ⟨fun _ => ?_, fun hlatest => ?_⟩
  · exact (wp_noteLatestState_requested nowMs _ _).mono (fun _ _ h => upToDate_of_requested h) fun _ _ h => h
  · exact hs.of_shown rfl rfl (shown_construct hc hlatest)

theorem wp_settleRemoteState_upToDate (nowMs : Nat) {disposition : RemoteStateDisposition} (hs : UpToDate s)
    (hsound : s.ledger.Sound) (h : ∀ plan, disposition = .apply plan → Applicable s.synchronization plan) :
    wp (settleRemoteState p nowMs disposition) (fun _ t => UpToDate t) (fun _ _ => True) s := by
  cases disposition with
  | apply plan => exact wp_applyRemoteState_upToDate nowMs hs hsound (h plan rfl)
  | alreadyConstructed => exact hs
  | missingReference => exact hs
  | belowThrowawayFloor => exact hs
  | belowRetentionWindow => exact hs

theorem wp_handleNormalInstruction_upToDate (elapsedMs : Nat) (instruction : TransportInstruction) (hs : UpToDate s)
    (hsound : s.ledger.Sound) :
    wp (handleNormalInstruction p elapsedMs instruction) (fun _ t => UpToDate t) (fun _ _ => True) s := by
  rw [handleNormalInstruction, wp_bind]
  refine (wp_nowMs elapsedMs s).mono (fun now s' h => ?_) fun _ _ _ => trivial
  obtain ⟨-, -, rfl⟩ := h
  rw [wp_bind, wp_get, wp_bind, onSynchronization, wp_zoom]
  refine (wp_beginReceive instruction s'.synchronization).mono (fun transition u h => ?_) fun _ _ _ => trivial
  obtain ⟨hvalid, hack, hremote⟩ := h
  have hbegun : UpToDate { s' with synchronization := u } := by
    refine UpToDate.of_presentation ?_ hs
    simp only [presentation, hack.sameReceiver.latest]
  rw [wp_bind, wp_modify, wp_bind]
  have hnoted := preserves_presentation (frame_noteReply (fun _ _ => rfl) transition.acknowledgement
    (s'.synchronization.sentStateSentAtMs instruction.acknowledgedState)) _ hbegun
  refine ((wp_acknowledgeHistory (s := s') hsound hack (ledger_noteReply _ _ _)).and
    (preserves_sender frame_acknowledgeHistory _ hnoted)).mono (fun _ v hv => ?_) fun _ _ _ => trivial
  obtain ⟨⟨hreach, rfl⟩, hupToDate⟩ := hv
  have hvsound : v.ledger.Sound := invariant_reaches hsound hreach
  rw [wp_bind]
  refine ((unseen_onScheduler (SendScheduler.neverStale_noteAcknowledgementNeeded now) v).and
    (preserves_sender (frame_onScheduler _) v hupToDate)).mono (fun _ w hw => ?_) fun _ _ _ => trivial
  obtain ⟨hledger, hw⟩ := hw
  have hledger : w.ledger = v.ledger := hledger
  have hsync : w.synchronization = v.synchronization := congrArg Ledger.synchronization hledger
  rw [wp_bind]
  refine (wp_settleRemoteState_upToDate now hw (hledger ▸ hvsound) fun plan hplan => ?_).mono
    (fun _ x hx => preserves_publishReachability now x hx) fun _ _ _ => trivial
  rw [hsync]
  exact (applicable_of_disposition (hvalid.of_localLatest hack.localLatest_eq) (hremote ▸ hplan)).1

/-! ### The shutdown of the peer -/

/-- The driver has taken the peer's shutdown: the final terminal waits to be painted. -/
structure Finishing (terminal : T) (s : SessionDriver T) : Prop where
  final : s.finalTerminal = some terminal
  hidden : s.prediction.displayingPrediction = false
  requested : s.outputRequested = true

theorem Finishing.shown {terminal : T} (hs : Finishing terminal s) : s.shown = .ok terminal := by
  unfold SessionDriver.shown latestTerminalState
  rw [hs.final]
  exact congrArg Except.ok (LocalPrediction.display_of_not_displaying hs.hidden terminal)

theorem Finishing.of_presentation {terminal : T} (h : t.presentation = s.presentation) (hs : Finishing terminal s) :
    Finishing terminal t := by
  simp only [presentation, Prod.mk.injEq] at h
  obtain ⟨hprediction, -, hrequested, hfinal, -, -⟩ := h
  exact ⟨hfinal ▸ hs.final, hprediction ▸ hs.hidden, hrequested ▸ hs.requested⟩

theorem wp_handleRemoteShutdown_final (m : TransportInstruction) (s : SessionDriver T) :
    wp (handleRemoteShutdown p m) (fun _ t => ∃ terminal, FinalTerminal p s m terminal ∧ Finishing terminal t)
      (fun _ _ => True) s := by
  obtain ⟨hread, hdifference⟩ := readShutdown_eq s m
  rw [handleRemoteShutdown, wp_bind, wp_get, wp_bind, onSynchronization, wp_zoom]
  refine (wp_beginShutdownReceive (s.readShutdown m) s.synchronization).mono (fun transition u h => ?_) fun _ _ _ => trivial
  obtain ⟨⟨rfl, -⟩, -⟩ := h
  rw [wp_bind]
  refine (frame_acknowledgeHistory _).mono (fun _ v hv => ?_) fun _ _ _ => trivial
  have hterminals : v.terminalStates = s.terminalStates := (congrArg terminalStates hv :)
  rw [wp_bind, wp_get, wp_bind, wp_ofOption, hterminals, hread, hdifference]
  refine ⟨fun base hget => ?_, fun _ => trivial⟩
  rw [wp_bind, wp_ofExcept]
  refine ⟨fun difference hdecode => ?_, fun _ _ => trivial⟩
  rw [wp_bind, wp_ofExcept]
  refine ⟨fun terminal happly => ?_, fun _ _ => trivial⟩
  exact ⟨terminal, ⟨base, difference, hget, hdecode, happly⟩, rfl, rfl, rfl⟩

/-- The instruction that a datagram completes. -/
def Decodes (p : Platform T) (decodedAtMs : Nat) (datagram : Bytes) (source : SocketAddr) (s : SessionDriver T)
    (m : TransportInstruction) : Prop :=
  ∃ d, decodeDatagram p decodedAtMs datagram source s = .ok (some m) d

theorem wp_handleDatagram_screen (decodedAtMs handledAtMs : Nat) (datagram : Bytes) (source : SocketAddr)
    (hs : UpToDate s) (hsound : s.ledger.Sound) :
    wp (handleDatagram p decodedAtMs handledAtMs datagram source)
      (fun outcome t => UpToDate t ∧ (outcome = .remoteShutdown → ∃ m terminal,
        Decodes p decodedAtMs datagram source s m ∧ m.isShutdown = true ∧ FinalTerminal p s m terminal ∧ Finishing terminal t))
      (fun _ _ => True) s := by
  rw [handleDatagram, wp_bind]
  refine wp_intro (fun decoded t hdecoded => ?_) fun _ _ _ => trivial
  have harrival : t.apartFromArrival = s.apartFromArrival := (frame_decodeDatagram p decodedAtMs datagram source s).ok hdecoded
  have hledger : t.ledger = s.ledger := (congrArg ledger harrival :)
  have ht : UpToDate t := UpToDate.of_presentation (congrArg presentation harrival :) hs
  cases decoded with
  | none => exact ⟨ht, by rintro ⟨⟩⟩
  | some m =>
    rw [wp_ite]
    refine ⟨fun hshutdown => ?_, fun _ => ?_⟩
    · rw [wp_bind]
      refine (wp_handleRemoteShutdown_final m t).mono (fun _ u hu => ?_) fun _ _ h => h
      obtain ⟨terminal, hfinal, hfinishing⟩ := hu
      have hterminals : t.terminalStates = s.terminalStates := (congrArg terminalStates harrival :)
      unfold FinalTerminal at hfinal
      rw [hterminals] at hfinal
      exact ⟨upToDate_of_requested hfinishing.requested, fun _ => ⟨m, terminal, ⟨t, hdecoded⟩, hshutdown, hfinal, hfinishing⟩⟩
    · rw [wp_bind]
      refine (wp_handleNormalInstruction_upToDate handledAtMs m ht (hledger ▸ hsound)).mono (fun _ u hu => ?_) fun _ _ h => h
      exact ⟨hu, by rintro ⟨⟩⟩

/-! ### What the socket answers -/

/-- Only a received datagram is passed on. -/
theorem wp_classifyReceive (elapsedMs : Nat) (result : Except ErrorKind (Bytes × SocketAddr)) (s : SessionDriver T) :
    wp (classifyReceive elapsedMs result)
      (fun classified t => ∀ received, classified = some received →
        result = .ok received ∧ t = { s with receiveNotBeforeMs := 0 })
      (fun _ _ => True) s := by
  cases result with
  | ok received =>
    rw [classifyReceive, wp_bind, wp_modify, wp_pure]
    rintro _ ⟨⟩
    exact ⟨rfl, rfl⟩
  | error kind =>
    rw [classifyReceive, wp_bind, wp_get, wp_ite]
    refine ⟨fun _ => ?_, fun _ => trivial⟩
    refine wp_bind_of_forall (fun _ _ => wp_bind_of_forall (fun _ _ => ?_) fun _ _ => trivial) fun _ _ => trivial
    rintro _ ⟨⟩

/-- What `run` receives: it ends with a last output only for the peer's shutdown. -/
theorem wp_receive_run (env : Transmission) (elapsedMs decodedAtMs handledAtMs repliedAtMs : Nat)
    (received : Except ErrorKind (Bytes × SocketAddr)) (hs : UpToDate s) (hsound : s.ledger.Sound) :
    wp (receive p env elapsedMs decodedAtMs handledAtMs repliedAtMs received .run)
      (fun next t => UpToDate t ∧ next ≠ .exit .remoteClosed ∧ (next = .finish .remoteClosed →
        ∃ datagram source m terminal, received = .ok (datagram, source) ∧
          Decodes p decodedAtMs datagram source { s with receiveNotBeforeMs := 0 } m ∧ m.isShutdown = true ∧
          FinalTerminal p s m terminal ∧ Finishing terminal t))
      (fun _ _ => True) s := by
  rw [receive, wp_bind]
  refine ((preserves_classifyReceive elapsedMs received s hs).and (wp_classifyReceive elapsedMs received s)).mono
    (fun classified t ht => ?_) fun _ _ _ => trivial
  obtain ⟨ht, hclassified⟩ := ht
  cases classified with
  | none => exact ⟨ht, by rintro ⟨⟩, by rintro ⟨⟩⟩
  | some classified =>
    obtain ⟨datagram, source⟩ := classified
    obtain ⟨hreceived, rfl⟩ := hclassified _ rfl
    rw [wp_bind]
    refine (wp_handleDatagram_screen decodedAtMs handledAtMs datagram source ht hsound).mono (fun outcome u hu => ?_)
      fun _ _ h => h
    obtain ⟨hu, hshutdown⟩ := hu
    cases outcome with
    | «continue» => exact ⟨hu, by rintro ⟨⟩, by rintro ⟨⟩⟩
    | remoteShutdown =>
      obtain ⟨m, terminal, hdecodes, hisShutdown, hfinal, hfinishing⟩ := hshutdown rfl
      rw [wp_bind]
      refine (wp_nowMs repliedAtMs u).mono (fun now v hv => ?_) fun _ _ _ => trivial
      obtain ⟨-, -, rfl⟩ := hv
      rw [wp_bind]
      refine (frame_sendShutdownAcknowledgement p env now v).mono (fun sent w hw => ?_) fun _ _ _ => trivial
      have hpresentation : w.presentation = v.presentation := (congrArg presentation hw :)
      rw [wp_ite]
      refine ⟨fun _ => ⟨.of_presentation hpresentation hu, by rintro ⟨⟩, fun _ => ?_⟩,
        fun _ => ⟨.of_presentation hpresentation hu, by rintro ⟨⟩, by rintro ⟨⟩⟩⟩
      exact ⟨datagram, source, m, terminal, hreceived, hdecodes, hisShutdown, hfinal, hfinishing.of_presentation hpresentation⟩

theorem wp_handleShutdownDatagram_screen (env : Transmission) (decodedAtMs handledAtMs : Nat) (datagram : Bytes)
    (source : SocketAddr) (hs : UpToDate s) (hsound : s.ledger.Sound) :
    wp (handleShutdownDatagram p env decodedAtMs handledAtMs datagram source)
      (fun exit t => UpToDate t ∧ exit ≠ some .remoteClosed) (fun _ _ => True) s := by
  rw [handleShutdownDatagram, wp_bind]
  refine (frame_decodeDatagram p decodedAtMs datagram source s).mono (fun decoded t ht => ?_) fun _ _ _ => trivial
  have hledger : t.ledger = s.ledger := (congrArg ledger ht :)
  have ht : UpToDate t := UpToDate.of_presentation (congrArg presentation ht :) hs
  cases decoded with
  | none => exact ⟨ht, by rintro ⟨⟩⟩
  | some m =>
    rw [wp_ite]
    refine ⟨fun _ => ?_, fun _ => ?_⟩
    · rw [wp_bind]
      refine (wp_handleRemoteShutdown_final m t).mono (fun _ u hu => ?_) fun _ _ h => h
      obtain ⟨terminal, -, hfinishing⟩ := hu
      have hu : UpToDate u := upToDate_of_requested hfinishing.requested
      rw [wp_bind]
      refine (preserves_nowMs handledAtMs u hu).mono (fun now v hv => ?_) fun _ _ h => h
      rw [wp_bind]
      refine (preserves_sender (frame_sendShutdownAcknowledgement p env now) v hv).mono (fun sent w hw => ?_) fun _ _ h => h
      rw [wp_ite]
      exact ⟨fun _ => ⟨hw, by rintro ⟨⟩⟩, fun _ => ⟨hw, by rintro ⟨⟩⟩⟩
    · rw [wp_bind, wp_get, wp_bind]
      refine (wp_handleNormalInstruction_upToDate handledAtMs _ ht (hledger ▸ hsound)).mono (fun _ u hu => ?_) fun _ _ h => h
      rw [wp_bind, wp_get, wp_ite]
      exact ⟨fun _ => ⟨hu, by rintro ⟨⟩⟩, fun _ => ⟨hu, by rintro ⟨⟩⟩⟩

theorem wp_receive_localShutdown (env : Transmission) (elapsedMs decodedAtMs handledAtMs repliedAtMs : Nat)
    (received : Except ErrorKind (Bytes × SocketAddr)) (progress : LocalShutdown) (hs : UpToDate s)
    (hsound : s.ledger.Sound) :
    wp (receive p env elapsedMs decodedAtMs handledAtMs repliedAtMs received (.localShutdown progress))
      (fun next t => UpToDate t ∧ next ≠ .exit .remoteClosed ∧ next ≠ .finish .remoteClosed) (fun _ _ => True) s := by
  rw [receive, wp_bind]
  refine ((preserves_classifyReceive elapsedMs received s hs).and (wp_classifyReceive elapsedMs received s)).mono
    (fun classified t ht => ?_) fun _ _ _ => trivial
  obtain ⟨ht, hclassified⟩ := ht
  cases classified with
  | none => exact ⟨ht, by rintro ⟨⟩, by rintro ⟨⟩⟩
  | some classified =>
    obtain ⟨-, rfl⟩ := hclassified _ rfl
    rw [wp_bind]
    refine (wp_handleShutdownDatagram_screen env decodedAtMs handledAtMs _ _ ht hsound).mono (fun exit u hu => ?_)
      fun _ _ h => h
    obtain ⟨hu, hexit⟩ := hu
    split
    · exact ⟨hu, by rintro ⟨⟩, by rintro ⟨⟩⟩
    · exact ⟨hu, by rintro ⟨⟩, by rintro ⟨⟩⟩
    · rename_i exit _
      refine ⟨hu, by rintro ⟨⟩, ?_⟩
      intro h
      cases h
      exact hexit rfl

/-! ### Output -/

/-- The output brings the screen up to date, with the paint of what should be visible. -/
theorem wp_emitOutput (s : SessionDriver T) :
    wp (emitOutput p)
      (fun _ t => UpToDate t ∧ ∃ current chunk, s.shown = .ok current ∧ s.paint p current = .ok chunk ∧
        t.trace.emitted = s.trace.emitted ++ [chunk])
      (fun _ _ => True) s := by
  rw [emitOutput, wp_bind, wp_get, wp_bind, wp_ofExcept]
  refine ⟨fun authoritative hlatest => ?_, fun _ _ => trivial⟩
  have hshown : s.shown = .ok (s.prediction.display authoritative) := by
    rw [SessionDriver.shown, hlatest]
    rfl
  rw [wp_bind, wp_ofExcept]
  refine ⟨fun chunk hpaint => ?_, fun _ _ => trivial⟩
  refine ⟨?_, _, chunk, hshown, hpaint, rfl⟩
  rintro _ ⟨⟩ _
  exact hshown

theorem wp_shutdownPass_exit (env : Transmission) (elapsedMs : Nat) (progress : LocalShutdown) (s : SessionDriver T) :
    wp (shutdownPass p env elapsedMs progress) (fun outcome _ => outcome ≠ .exit .remoteClosed) (fun _ _ => True) s := by
  refine wp_bind_of_forall (fun now t => ?_) fun _ _ => trivial
  rw [wp_ite, wp_ite]
  refine ⟨fun _ => by rintro ⟨⟩, fun _ => ⟨fun _ => ?_, fun _ => by rintro ⟨⟩⟩⟩
  refine wp_bind_of_forall (fun next u => ?_) fun _ _ => trivial
  cases next with
  | none => rintro ⟨⟩
  | some nextSendMs => rintro ⟨⟩

end SessionDriver

namespace Session

variable {c : Connection p} {actions : List SessionAction}

/-! ### Every run -/

/-- With this input, the task reads a shutdown of the peer in `run`, which leaves `terminal`: that of its base,
    with its difference. -/
def ReadsShutdown (p : Platform T) (s : Session T) (input : TaskInput) (terminal : T) : Prop :=
  ∃ wait datagram source decodedAtMs handledAtMs repliedAtMs m,
    s.task = .waiting .run wait .rest ∧
    input.ready = .datagram (.ok (datagram, source)) decodedAtMs handledAtMs repliedAtMs ∧
    Decodes p decodedAtMs datagram source { s.driver with receiveNotBeforeMs := 0 } m ∧ m.isShutdown = true ∧
    FinalTerminal p s.driver m terminal

/-- In the run, the peer's shutdown was read, and left `terminal`. -/
def ClosedWith (c : Connection p) (actions : List SessionAction) (terminal : T) : Prop :=
  ∃ before input rest, actions = before ++ .drive input :: rest ∧
    ReadsShutdown p ((start c.driver).run p before) input terminal

/-- The last chunk that was emitted in the run is the paint of `terminal`. -/
def LastPainted (c : Connection p) (actions : List SessionAction) (terminal : T) (driver : SessionDriver T) : Prop :=
  ∃ before input rest chunk, actions = before ++ .drive input :: rest ∧
    ((start c.driver).run p before).driver.paint p terminal = .ok chunk ∧
    driver.trace.emitted = ((start c.driver).run p before).driver.trace.emitted ++ [chunk]

/-- What holds of the screen after every action. -/
structure Watched (c : Connection p) (actions : List SessionAction) (task : TaskState) (driver : SessionDriver T) :
    Prop where
  fresh : (∀ e, task ≠ .ended (.error e)) → UpToDate driver
  finishing : task = .finishing .remoteClosed → ∃ terminal, ClosedWith c actions terminal ∧ Finishing terminal driver
  closed : task = .ended (.ok .remoteClosed) →
    ∃ terminal, ClosedWith c actions terminal ∧ LastPainted c actions terminal driver

theorem ClosedWith.append {terminal : T} (h : ClosedWith c actions terminal) (action : SessionAction) :
    ClosedWith c (actions ++ [action]) terminal := by
  obtain ⟨before, input, rest, rfl, hreads⟩ := h
  exact ⟨before, input, rest ++ [action], by simp, hreads⟩

theorem LastPainted.append {terminal : T} {driver : SessionDriver T} (h : LastPainted c actions terminal driver)
    (action : SessionAction) : LastPainted c (actions ++ [action]) terminal driver := by
  obtain ⟨before, input, rest, chunk, rfl, hpaint, hemitted⟩ := h
  exact ⟨before, input, rest ++ [action], chunk, by simp, hpaint, hemitted⟩

theorem Watched.append {task : TaskState} {driver : SessionDriver T} (h : Watched c actions task driver)
    (action : SessionAction) : Watched c (actions ++ [action]) task driver where
  fresh := h.fresh
  finishing htask := by
    obtain ⟨terminal, hclosed, hfinishing⟩ := h.finishing htask
    exact ⟨terminal, hclosed.append action, hfinishing⟩
  closed htask := by
    obtain ⟨terminal, hclosed, hpainted⟩ := h.closed htask
    exact ⟨terminal, hclosed.append action, hpainted.append action⟩

/-- The task goes on, or ends without the peer's shutdown. -/
theorem watched_of_upToDate {task : TaskState} {driver : SessionDriver T} (h : UpToDate driver)
    (hfinishing : task ≠ .finishing .remoteClosed) (hclosed : task ≠ .ended (.ok .remoteClosed)) :
    Watched c actions task driver :=
  ⟨fun _ => h, fun htask => absurd htask hfinishing, fun htask => absurd htask hclosed⟩

theorem watched_error (e : DriverError) (driver : SessionDriver T) : Watched c actions (.ended (.error e)) driver :=
  ⟨fun h => absurd rfl (h e), by rintro ⟨⟩, by rintro ⟨⟩⟩

theorem watched_perform {s : Session T} {m : Driving T α} {next : α → TaskState}
    (h : wp m (fun a d => Watched c actions (next a) d) (fun _ _ => True) s.driver) :
    Watched c actions (s.perform m next).task (s.perform m next).driver :=
  perform_of_wp (h.mono (fun _ _ ha => ha) fun e d _ => watched_error e d)

/-- A method that keeps the screen up to date, and ends nothing. -/
theorem watched_method {s : Session T} {m : Driving T α} {next : α → TaskState} (hm : Preserves UpToDate m)
    (hs : UpToDate s.driver) (hnext : ∀ a, next a ≠ .finishing .remoteClosed ∧ next a ≠ .ended (.ok .remoteClosed)) :
    Watched c actions (s.perform m next).task (s.perform m next).driver :=
  watched_perform ((hm s.driver hs).mono (fun a _ hd => watched_of_upToDate hd (hnext a).1 (hnext a).2) fun _ _ h => h)

theorem watched_shutdownPass {s : Session T} (env : Transmission) (elapsedMs : Nat) (progress : LocalShutdown)
    (hs : UpToDate s.driver) :
    Watched c actions (s.perform (shutdownPass p env elapsedMs progress) ShutdownPassOutcome.next).task
      (s.perform (shutdownPass p env elapsedMs progress) ShutdownPassOutcome.next).driver := by
  have hpass := preserves_sender (frame_shutdownPass p env elapsedMs progress) s.driver hs
  refine watched_perform ((hpass.and (wp_shutdownPass_exit env elapsedMs progress s.driver)).mono (fun outcome d hd => ?_)
    fun _ _ _ => trivial)
  obtain ⟨hd, hexit⟩ := hd
  cases outcome with
  | exit reason => exact watched_of_upToDate hd (by rintro ⟨⟩) (fun h => hexit (by cases h; rfl))
  | wait progress wait => exact watched_of_upToDate hd (by rintro ⟨⟩) (by rintro ⟨⟩)

theorem Watched.drives {input : TaskInput} {t : Session T}
    (hs : Watched c actions ((start c.driver).run p actions).task ((start c.driver).run p actions).driver)
    (h : Drives p input ((start c.driver).run p actions) t) :
    Watched c (actions ++ [.drive input]) t.task t.driver := by
  have hsound := sound_run c actions
  generalize hrun : (start c.driver).run p actions = s at hs h hsound
  have hfresh : ∀ {task : TaskState}, s.task = task → task.isEnded = false → UpToDate s.driver := by
    intro task htask halive
    refine hs.fresh fun e he => ?_
    rw [← htask, he] at halive
    cases halive
  cases h with
  | rest => exact hs.append _
  | leave exit hexit halive =>
    refine watched_of_upToDate (hfresh rfl halive) (by rintro ⟨⟩) ?_
    rcases hexit with rfl | rfl <;> rintro ⟨⟩
  | poll loop wait stage stage' htask => exact watched_of_upToDate (hfresh htask rfl) (by rintro ⟨⟩) (by rintro ⟨⟩)
  | wake loop wait htask => exact watched_of_upToDate (hfresh htask rfl) (by rintro ⟨⟩) (by rintro ⟨⟩)
  | pass htask =>
    refine watched_method (preserves_pass _ _) (hfresh htask rfl) fun outcome => ?_
    cases outcome <;> exact ⟨by rintro ⟨⟩, by rintro ⟨⟩⟩
  | shutdownPass progress htask => exact watched_shutdownPass _ _ progress (hfresh htask rfl)
  | command loop wait command queue htask hqueue =>
    exact watched_method (preserves_handleCommand _ command) (hfresh htask rfl) fun _ => ⟨by rintro ⟨⟩, by rintro ⟨⟩⟩
  | begin wait htask hsignal =>
    exact watched_method (preserves_presentation (frame_beginLocalShutdown _)) (hfresh htask rfl)
      fun _ => ⟨by rintro ⟨⟩, by rintro ⟨⟩⟩
  | output loop wait htask =>
    refine watched_perform ((wp_emitOutput _).mono (fun _ d hd => ?_) fun _ _ h => h)
    exact watched_of_upToDate hd.1 (by rintro ⟨⟩) (by rintro ⟨⟩)
  | receive loop wait received decodedAtMs handledAtMs repliedAtMs htask hready =>
    have hupToDate := hfresh htask rfl
    cases loop with
    | run =>
      refine watched_perform ((wp_receive_run _ _ _ _ _ _ hupToDate hsound).mono (fun next d hd => ?_) fun _ _ h => h)
      obtain ⟨hd, hexit, hfinish⟩ := hd
      refine ⟨fun _ => hd, fun hnext => ?_, fun hnext => ?_⟩
      · obtain ⟨datagram, source, m, terminal, rfl, hdecodes, hshutdown, hfinal, hfinishing⟩ :=
          hfinish (by cases next <;> cases hnext; rfl)
        refine ⟨terminal, ⟨actions, input, [], rfl, ?_⟩, hfinishing⟩
        rw [hrun]
        exact ⟨wait, datagram, source, _, _, _, m, htask, hready, hdecodes, hshutdown, hfinal⟩
      · exact absurd (by cases next <;> cases hnext; rfl) hexit
    | localShutdown progress =>
      refine watched_perform ((wp_receive_localShutdown _ _ _ _ _ _ progress hupToDate hsound).mono (fun next d hd => ?_)
        fun _ _ h => h)
      obtain ⟨hd, hexit, hfinish⟩ := hd
      refine watched_of_upToDate hd (fun hnext => ?_) fun hnext => ?_
      · exact hfinish (by cases next <;> cases hnext; rfl)
      · exact hexit (by cases next <;> cases hnext; rfl)
  | finish exit htask hpainted =>
    refine watched_of_upToDate (hfresh htask rfl) (by rintro ⟨⟩) ?_
    rintro ⟨⟩
    -- The peer's shutdown leaves an output to emit.
    obtain ⟨terminal, -, hfinishing⟩ := hs.finishing htask
    rw [hfinishing.requested] at hpainted
    cases hpainted
  | lastOutput exit htask hrequested =>
    refine watched_perform ((wp_emitOutput _).mono (fun _ d hd => ?_) fun _ _ h => h)
    obtain ⟨hd, current, chunk, hshown, hpaint, hemitted⟩ := hd
    refine ⟨fun _ => hd, by rintro ⟨⟩, ?_⟩
    rintro ⟨⟩
    obtain ⟨terminal, hclosed, hfinishing⟩ := hs.finishing htask
    rw [hfinishing.shown] at hshown
    obtain rfl := Except.ok.inj hshown
    refine ⟨_, hclosed.append _, actions, input, [], chunk, rfl, ?_, ?_⟩
    · rw [hrun]
      exact hpaint
    · rw [hrun]
      exact hemitted

theorem watched_run (c : Connection p) (actions : List SessionAction) :
    Watched c actions ((start c.driver).run p actions).task ((start c.driver).run p actions).driver := by
  induction actions using List.reverseRecOn with
  | nil =>
    refine watched_of_upToDate (fun painted hpainted _ => ?_) (by rintro ⟨⟩) (by rintro ⟨⟩)
    obtain ⟨initialTerminal, h⟩ := c.apartFromSender_eq
    rw [show ((start c.driver).run p []).driver.paintedState = none from (congrArg paintedState h :)] at hpainted
    cases hpainted
  | append_singleton actions action ih =>
    have hstep : (start c.driver).run p (actions ++ [action]) = ((start c.driver).run p actions).step p action :=
      List.foldl_append
    rw [hstep]
    refine invariant_step (I := fun s => Watched c (actions ++ [action]) s.task s.driver) (fun {s t} hwork hs => ?_)
      (fun input t haction h => ?_) (ih.append action)
    · simp only [work, Prod.mk.injEq] at hwork
      rw [hwork.1, hwork.2.1]
      exact hs
    · rw [haction]
      exact ih.drives h

/-- The screen of a session: it is never out of date while the session has not failed, and a session that the
    peer has closed has emitted the final terminal last. -/
structure NeverStale (c : Connection p) (actions : List SessionAction) : Prop where
  fresh : (∀ e, ((start c.driver).run p actions).task ≠ .ended (.error e)) →
    ∀ painted, ((start c.driver).run p actions).driver.paintedState = some painted →
      ((start c.driver).run p actions).driver.outputRequested = false →
      ∃ latest, ((start c.driver).run p actions).driver.latestTerminalState = .ok latest ∧
        painted = ((start c.driver).run p actions).driver.prediction.display latest
  closed : ((start c.driver).run p actions).task = .ended (.ok .remoteClosed) →
    ∃ terminal, ClosedWith c actions terminal ∧ LastPainted c actions terminal ((start c.driver).run p actions).driver

/-- In every run, whatever changes what should be visible requests output until it is emitted, and the last
    output of a session that the peer closed is the paint of the terminal that the shutdown left. -/
theorem screen_never_stale (c : Connection p) (actions : List SessionAction) : NeverStale c actions where
  fresh hlive painted hpainted hrequested := by
    have hshown := (watched_run c actions).fresh hlive painted hpainted hrequested
    unfold SessionDriver.shown at hshown
    cases hlatest : ((start c.driver).run p actions).driver.latestTerminalState with
    | error e =>
      rw [hlatest] at hshown
      cases hshown
    | ok latest =>
      rw [hlatest] at hshown
      exact ⟨latest, rfl, (Except.ok.inj hshown).symm⟩
  closed := (watched_run c actions).closed

end Session
end MoshClient
