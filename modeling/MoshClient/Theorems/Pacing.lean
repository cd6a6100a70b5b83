import MoshClient.Theorems.Pass

/-! The pace of sends. Each of the four timers of the scheduler runs from the last send or later, and a send that
    had to be deferred is not tried again before its time. So two attempts of `run` are at least a frame apart,
    and more after one that was deferred. -/

namespace MoshClient
open Limits Effect SynchronizationState SessionDriver SendScheduler Simulation

variable {T α : Type} {p : Platform T}

namespace SessionDriver

variable {s t : SessionDriver T} {attempt : SendAttempt}

/-! ### What decides when to send -/

def pacing (s : SessionDriver T) := (s.scheduler, s.synchronization, s.datagramTiming.estimator)

theorem pacing_requestOutput (requested : Bool) (s : SessionDriver T) : (requestOutput requested s).pacing = s.pacing := by
  cases requested <;> rfl

theorem pacing_beginPass (elapsedMs : Nat) : (frame pacing).Unseen (beginPass elapsedMs : Driving T Nat) :=
  frame_beginPass (fun _ _ _ => by rfl) (fun _ _ => by rfl) (fun requested _ _ => pacing_requestOutput requested _) elapsedMs

theorem ledger_beginPass (elapsedMs : Nat) : (frame ledger).Unseen (beginPass elapsedMs : Driving T Nat) :=
  frame_beginPass (fun _ _ _ => by rfl) (fun _ _ => by rfl) (fun requested _ _ => by cases requested <;> rfl) elapsedMs

theorem ledger_pollScheduler (nowMs : Nat) : (frame ledger).Unseen (pollScheduler nowMs : Driving T SchedulerPoll) :=
  unseen_get.bind fun _ => frame_zoom fun _ _ => by rfl

theorem pacing_predictInput (state : Nat) (bytes : Bytes) (nowMs : Nat) :
    (frame pacing).Unseen (predictInput p state bytes nowMs) :=
  frame_predictInput (fun requested _ _ => pacing_requestOutput requested _) p state bytes nowMs

theorem pacing_emitOutput : (frame pacing).Unseen (emitOutput p) :=
  frame_emitOutput (fun _ _ _ => by rfl) p

theorem pacing_classifyReceive (elapsedMs : Nat) (result : Except ErrorKind (Bytes × SocketAddr)) :
    (frame pacing).Unseen (classifyReceive elapsedMs result : Driving T _) :=
  frame_classifyReceive (fun _ _ => by rfl) elapsedMs result

/-! ### The retransmission timeout -/

/-- The estimated timeout stays above its bound. -/
def Timely (s : SessionDriver T) : Prop := s.datagramTiming.estimator.Bounded

theorem Timely.of_pacing (h : t.pacing = s.pacing) (hs : Timely s) : Timely t := by
  have hestimator : t.datagramTiming.estimator = s.datagramTiming.estimator := congrArg (fun x => x.2.2) h
  unfold Timely
  rw [hestimator]
  exact hs

theorem Timely.of_estimator (h : t.datagramTiming.estimator = s.datagramTiming.estimator) (hs : Timely s) : Timely t := by
  unfold Timely
  rw [h]
  exact hs

theorem timely_pacing {m : Driving T α} (h : (frame pacing).Unseen m) : Preserves Timely m :=
  h.preserves Timely.of_pacing

theorem timely_sender {m : Driving T α} (h : (frame apartFromSender).Unseen m) : Preserves Timely m :=
  h.preserves fun heq => Timely.of_estimator (congrArg (fun d => d.datagramTiming.estimator) heq :)

theorem timely_decodeDatagram (elapsedMs : Nat) (datagram : Bytes) (source : SocketAddr) :
    Preserves Timely (decodeDatagram p elapsedMs datagram source) := by
  refine (preserves_nowMs elapsedMs).bind fun now => ?_
  refine (timely_pacing (frame_openDatagram (fun _ _ => by rfl) p datagram source)).bind fun opened => ?_
  cases opened with
  | none => exact preserves_pure _
  | some opened =>
    refine (timely_pacing (unseen_ofExcept fun _ => trivial)).bind fun decoded => Preserves.bind (fun s hs => ?_) fun _ => ?_
    · rw [onDatagramTiming, wp_zoom]
      exact DatagramTiming.preserves_observeReceived _ _ _ _ s.datagramTiming hs
    · refine (timely_pacing (frame_zoom fun _ _ => by rfl)).bind fun result => ?_
      cases result with
      | complete compressed => exact (timely_pacing (unseen_ofExcept fun _ => trivial)).bind fun _ => preserves_pure _
      | pending => exact preserves_pure _
      | duplicate => exact preserves_pure _

theorem indifferent_timely : Indifferent (Timely : SessionDriver T → Prop) where
  sender heq := Timely.of_estimator (congrArg (fun d => d.datagramTiming.estimator) heq :)
  instruction heq := Timely.of_estimator (congrArg (fun d => d.datagramTiming.estimator) heq :)
  loop heq := Timely.of_estimator (congrArg (fun d => d.datagramTiming.estimator) heq :)

theorem methodsKeep_timely (p : Platform T) : Session.MethodsKeep p Timely :=
  indifferent_timely.methodsKeep timely_decodeDatagram (timely_pacing pacing_emitOutput)

/-! ### The distance to an attempt -/

/-- The scheduler keeps its distance to an attempt that was sent or deferred. -/
inductive Paced (s : SessionDriver T) : SendAttempt → Prop where
  | sent (atMs : Nat) (hsent : SentAt atMs s.scheduler)
      (hunacknowledged : ∀ sentAtMs, s.synchronization.latestUnacknowledgedSentAtMs = some sentAtMs → atMs ≤ sentAtMs) :
      Paced s ⟨atMs, some .sent⟩
  | deferred (atMs notBefore : Nat) (hnotBefore : s.scheduler.sendNotBeforeMs = some notBefore)
      (hle : atMs + initialRetransmissionTimeoutMs ≤ notBefore) : Paced s ⟨atMs, some .deferred⟩

/-- Time passes, and the latest sent state is the same unless it is acknowledged. -/
theorem Paced.later (hs : Paced s attempt) (hscheduler : Later s.scheduler t.scheduler)
    (hlatest : ∀ sentAtMs, t.synchronization.latestUnacknowledgedSentAtMs = some sentAtMs →
      s.synchronization.latestUnacknowledgedSentAtMs = some sentAtMs) : Paced t attempt := by
  cases hs with
  | sent atMs hsent hunacknowledged =>
    exact .sent atMs (hsent.later hscheduler) fun sentAtMs h => hunacknowledged sentAtMs (hlatest sentAtMs h)
  | deferred atMs notBefore hnotBefore hle => exact .deferred atMs notBefore (hscheduler.notBefore.trans hnotBefore) hle

theorem Paced.of_scheduler (hs : Paced s attempt) (hscheduler : Later s.scheduler t.scheduler)
    (hsynchronization : t.synchronization = s.synchronization) : Paced t attempt :=
  hs.later hscheduler fun _ h => hsynchronization ▸ h

theorem Paced.of_sent (hs : Paced s attempt) (hscheduler : t.scheduler = s.scheduler)
    (hsent : t.synchronization.sentStates = s.synchronization.sentStates) : Paced t attempt := by
  refine hs.later (hscheduler ▸ Later.refl _) fun sentAtMs h => ?_
  unfold latestUnacknowledgedSentAtMs at h ⊢
  rw [← hsent]
  exact h

theorem Paced.of_pacing (h : t.pacing = s.pacing) (hs : Paced s attempt) : Paced t attempt := by
  have hsynchronization : t.synchronization = s.synchronization := congrArg (fun x => x.2.1) h
  exact hs.of_sent (congrArg Prod.fst h) (by rw [hsynchronization])

theorem paced_pacing {m : Driving T α} (h : (frame pacing).Unseen m) : Preserves (fun s => Paced s attempt) m :=
  h.preserves Paced.of_pacing

theorem paced_onScheduler {m : Scheduling α} (hm : ∀ s, wp m (fun _ t => Later s t) (fun _ _ => True) s) :
    Preserves (fun s : SessionDriver T => Paced s attempt) (onScheduler m) := by
  intro s hs
  rw [onScheduler, wp_zoom]
  exact (hm s.scheduler).mono (fun _ _ h => hs.of_scheduler h rfl) fun _ _ h => h

theorem paced_pollScheduler (nowMs : Nat) :
    Preserves (fun s : SessionDriver T => Paced s attempt) (pollScheduler nowMs) := by
  refine preserves_get.bind fun _ => paced_onScheduler fun scheduler => ?_
  refine (wp_poll_answer nowMs _ _ scheduler).mono (fun _ t h => ?_) fun _ _ _ => trivial
  obtain ⟨hle, rfl, -⟩ := h
  exact ⟨rfl, rfl, hle, Or.inl rfl⟩

theorem paced_advanceClient (operation : ClientOperation) (nowMs : Nat) :
    Preserves (fun s : SessionDriver T => Paced s attempt) (advanceClient operation nowMs) := by
  refine Preserves.bind (paced_pacing (Unseen.bind (frame_zoom fun _ _ => by rfl) fun _ => unseen_modify fun _ => by rfl))
    fun _ => Preserves.bind (Preserves.bind (fun s hs => ?_) fun _ => ?_) fun _ => ?_
  · rw [onSynchronization, wp_zoom]
    refine (wp_advanceLocal s.synchronization).mono (fun _ t h => ?_) fun _ _ _ => trivial
    obtain ⟨-, -, rfl⟩ := h
    exact hs.of_sent rfl rfl
  · exact Preserves.bind (paced_pacing (unseen_modify fun _ => by rfl)) fun _ => preserves_pure _
  · exact (paced_onScheduler (wp_noteLocalChange nowMs)).bind fun _ => preserves_pure _

theorem paced_handleCommand (elapsedMs : Nat) (command : SessionCommand) :
    Preserves (fun s => Paced s attempt) (handleCommand p elapsedMs command) :=
  preserves_handleCommand_of paced_advanceClient (fun state bytes now => paced_pacing (pacing_predictInput state bytes now))
    (fun s hs => hs.of_sent (s := s) rfl rfl) elapsedMs command

theorem paced_settleRemoteState (nowMs : Nat) (disposition : RemoteStateDisposition) :
    Preserves (fun s => Paced s attempt) (settleRemoteState p nowMs disposition) := by
  cases disposition with
  | apply plan =>
    refine preserves_get.bind fun _ => (paced_pacing (unseen_ofOption trivial)).bind fun _ => ?_
    refine (paced_pacing (unseen_ofExcept fun _ => trivial)).bind fun _ => ?_
    refine (paced_pacing (unseen_ofExcept fun _ => trivial)).bind fun next => Preserves.bind (fun s hs => ?_) fun _ => ?_
    · rw [onSynchronization, wp_zoom]
      refine wp_intro (fun commit u h => ?_) fun _ _ _ => trivial
      exact hs.of_sent rfl (commitReceive_mem h).1.sent
    · refine (paced_pacing (unseen_modify fun _ => by rfl)).bind fun _ => preserves_get.bind fun _ => ?_
      refine .ite (paced_pacing ?_) (preserves_pure _)
      exact frame_noteLatestState (fun _ _ => by rfl) (fun _ _ => by rfl) (fun _ _ => by rfl) p nowMs _
  | alreadyConstructed => exact preserves_pure _
  | missingReference => exact preserves_pure _
  | belowThrowawayFloor => exact preserves_pure _
  | belowRetentionWindow => exact preserves_pure _

theorem wp_handleNormalInstruction_paced (elapsedMs : Nat) (instruction : TransportInstruction)
    (hsender : SenderSound s.synchronization) (hs : Paced s attempt) :
    wp (handleNormalInstruction p elapsedMs instruction) (fun _ t => Paced t attempt) (fun _ _ => True) s := by
  rw [handleNormalInstruction, wp_bind]
  refine (wp_nowMs elapsedMs s).mono (fun now s' h => ?_) fun _ _ _ => trivial
  obtain ⟨-, -, rfl⟩ := h
  rw [wp_bind, wp_get, wp_bind, onSynchronization, wp_zoom]
  refine (wp_beginReceive instruction s'.synchronization).mono (fun transition u h => ?_) fun _ _ _ => trivial
  have hbegun : Paced { s' with synchronization := u } attempt :=
    hs.later (Later.refl _) fun _ => h.2.1.latestUnacknowledged hsender
  refine Preserves.bind (paced_pacing (frame_noteReply (fun _ _ => by rfl) _ _)) (fun _ => ?_) _ hbegun
  refine (paced_pacing (unseen_get.bind fun _ => frame_zoom fun _ _ => by rfl)).bind fun _ => ?_
  refine (paced_onScheduler (wp_noteAcknowledgementNeeded now)).bind fun _ => (paced_settleRemoteState now _).bind fun _ => ?_
  exact paced_pacing (frame_publishReachability (fun _ _ _ => by rfl) now)

theorem wp_receive_paced (env : Transmission) (elapsedMs decodedAtMs handledAtMs repliedAtMs : Nat)
    (received : Except ErrorKind (Bytes × SocketAddr)) (hsender : SenderSound s.synchronization) (hs : Paced s attempt) :
    wp (receive p env elapsedMs decodedAtMs handledAtMs repliedAtMs received .run)
      (fun after t => after = .again → Paced t attempt) (fun _ _ => True) s := by
  rw [receive, wp_bind]
  refine (pacing_classifyReceive elapsedMs received s).mono (fun classified t ht => ?_) fun _ _ _ => trivial
  have hpaced := hs.of_pacing ht
  have hsynchronization : t.synchronization = s.synchronization := congrArg (fun x => x.2.1) ht
  cases classified with
  | none => exact fun _ => hpaced
  | some datagram =>
    show wp (handleDatagram p decodedAtMs handledAtMs _ _ >>= _) _ _ t
    rw [wp_bind, handleDatagram, wp_bind]
    refine (frame_decodeDatagram p decodedAtMs _ _ t).mono (fun decoded u hu => ?_) fun _ _ _ => trivial
    have hkept : u.synchronization = t.synchronization := (congrArg synchronization hu :)
    have hdecoded : Paced u attempt := hpaced.of_sent (congrArg scheduler hu :) (by rw [hkept])
    cases decoded with
    | none => exact fun _ => hdecoded
    | some instruction =>
      rw [wp_ite]
      refine ⟨fun _ => ?_, fun _ => ?_⟩
      · -- The peer has shut down: the loop is left.
        refine wp_bind_of_forall (fun _ v => ?_) fun _ _ => trivial
        refine wp_bind_of_forall (fun now _ => wp_bind_of_forall (fun acknowledged _ => ?_) fun _ _ => trivial) fun _ _ => trivial
        cases acknowledged <;> rintro ⟨⟩
      · rw [wp_bind]
        rw [← hsynchronization, ← hkept] at hsender
        exact (wp_handleNormalInstruction_paced handledAtMs instruction hsender hdecoded).mono (fun _ _ h _ => h) fun _ _ h => h

/-! ### Attempts -/

/-- The second attempt keeps its distance to the first. -/
structure SpacedFrom (a b : SendAttempt) : Prop where
  frame : a.atMs + minFrameIntervalMs ≤ b.atMs
  deferred : a.outcome = some .deferred → a.atMs + initialRetransmissionTimeoutMs ≤ b.atMs

/-- A poll that answers with a send keeps its distance to the last attempt. -/
theorem wp_pollScheduler_send (nowMs : Nat) (htimely : Timely s) :
    wp (pollScheduler nowMs)
      (fun answer t => t.synchronization = s.synchronization ∧ ∀ plan, answer = .send plan →
        plan.plannedAtMs = nowMs ∧ t.scheduler.lastObservedMs = nowMs ∧
          ∀ attempt outcome, Paced s attempt → SpacedFrom attempt ⟨nowMs, outcome⟩)
      (fun _ _ => True) s := by
  rw [pollScheduler, wp_bind, wp_get, onScheduler, wp_zoom]
  refine (wp_poll_answer nowMs s.datagramTiming.estimator s.synchronization.latestUnacknowledgedSentAtMs s.scheduler).mono
    (fun answer scheduler h => ?_) fun _ _ _ => trivial
  obtain ⟨hle, rfl, hanswer⟩ := h
  refine ⟨rfl, fun plan hplan => ?_⟩
  subst hplan
  obtain ⟨_, _, _, _, -, -, -, -, hanswers⟩ := pollAt_ok hanswer
  refine ⟨?_, rfl, fun attempt outcome hpaced => ?_⟩
  · cases hanswers with
    | send _ _ hplanned => exact hplanned
  · have hlater : Later s.scheduler { s.scheduler with lastObservedMs := nowMs } := ⟨rfl, rfl, hle, Or.inl rfl⟩
    cases hpaced with
    | sent atMs hsent hunacknowledged =>
      refine ⟨(hsent.later hlater).le_of_send htimely hunacknowledged hanswer, ?_⟩
      rintro ⟨⟩
    | deferred atMs notBefore hnotBefore hafter =>
      have hreached : atMs + initialRetransmissionTimeoutMs ≤ nowMs := hafter.trans (le_of_send hnotBefore hanswer)
      refine ⟨?_, fun _ => hreached⟩
      simp only [initialRetransmissionTimeoutMs, minFrameIntervalMs] at *
      omega

theorem wp_attemptSend (env : Transmission) (now : Nat) (hsound : s.ledger.Sound) :
    wp (attemptSend p env now)
      (fun sent t => Planned t.synchronization now sent.1 ∧ SenderSound t.synchronization ∧ t.scheduler = s.scheduler)
      (fun _ _ => True) s := by
  rw [attemptSend, wp_bind]
  refine (wp_planOrAllocate now s).mono (fun plan t ht => ?_) fun _ _ _ => trivial
  obtain ⟨hreach, hplanned, hscheduler⟩ := ht
  have hsender : SenderSound t.synchronization := (invariant_reaches (V := bookkeeping) hsound hreach).sender
  rw [wp_bind, planDifference, wp_bind, wp_get, wp_ofExcept]
  refine ⟨fun difference _ => ?_, fun _ _ => trivial⟩
  rw [wp_bind]
  refine (wp_transmit p env _ now t).mono (fun outcome v hv => ?_) fun _ _ _ => trivial
  have hsynchronization : v.synchronization = t.synchronization := (congrArg synchronization hv :)
  have hkept : v.scheduler = t.scheduler := (congrArg scheduler hv :)
  rw [wp_pure, hsynchronization, hkept]
  exact ⟨hplanned, hsender, hscheduler⟩

/-- An attempt that is neither cancelled nor fails keeps the next one away. -/
theorem wp_sendInstruction_paced (env : Transmission) (wakePlan : WakePlan) (now : Nat) (hsound : s.ledger.Sound)
    (hplanned : wakePlan.plannedAtMs = now) (hobserved : s.scheduler.lastObservedMs = now) :
    wp (sendInstruction p env wakePlan now)
      (fun _ t => outcomeOf p env now s ≠ some .cancelled → Paced t ⟨now, outcomeOf p env now s⟩) (fun _ _ => True) s := by
  rw [wp_sendInstruction_iff]
  refine wp_intro (fun sent t h => ?_) fun _ _ _ => trivial
  obtain ⟨plan, outcome⟩ := sent
  obtain ⟨hplan, hsender, hscheduler⟩ := (wp_attemptSend env now hsound).ok h
  have houtcome : outcomeOf p env now s = some outcome := by
    unfold outcomeOf
    rw [h]
  rw [houtcome]
  cases outcome with
  | sent =>
    rw [settleSend, wp_bind, SessionDriver.commitSend, wp_bind, onSynchronization, wp_zoom]
    refine wp_intro (fun commit u hcommit => ?_) fun _ _ _ => trivial
    have hlatest := latestUnacknowledged_commitSend hsender hplan hcommit
    have hscheduled : ∀ d : SessionDriver T, d.synchronization = u →
        wp (onScheduler (SendScheduler.commitSend wakePlan)) (fun _ t => some TransportSendOutcome.sent ≠ some .cancelled →
          Paced t ⟨now, some .sent⟩) (fun _ _ => True) d := by
      intro d hd
      rw [onScheduler, wp_zoom]
      refine (wp_commitSend_sentAt wakePlan d.scheduler).mono (fun _ x hx _ => ?_) fun _ _ h => h
      refine .sent now (hplanned ▸ hx) fun sentAtMs hsentAt => ?_
      rw [show (d.synchronization).latestUnacknowledgedSentAtMs = some now from hd ▸ hlatest] at hsentAt
      exact Nat.le_of_eq (Option.some.inj hsentAt)
    cases hevicted : commit.capacityEvictedState with
    | none => exact hscheduled _ rfl
    | some evicted => exact hscheduled _ rfl
  | cancelled => exact fun h => absurd rfl h
  | deferred =>
    rw [settleSend, wp_bind]
    refine (wp_nowMs env.elapsedAfterMs t).mono (fun failedAtMs u hu => ?_) fun _ _ _ => trivial
    obtain ⟨-, -, rfl⟩ := hu
    rw [deferTemporarySend, wp_bind, wp_get, onScheduler, wp_zoom]
    refine (wp_deferSend failedAtMs u.ioRetryMs u.scheduler).mono (fun _ x hx _ => ?_) fun _ _ h => h
    obtain ⟨hle, hnotBefore⟩ := hx
    rw [hscheduler, hobserved] at hle
    exact .deferred now _ hnotBefore (Nat.add_le_add hle (Nat.le_max_right _ _))

/-! ### Passes -/

/-- A pass that does not attempt a send. -/
theorem wp_pass_waiting {input : TaskInput} (h : s.attempt p input = none) (hs : Paced s attempt) :
    wp (pass p input.env input.elapsedMs) (fun _ t => Paced t attempt) (fun _ _ => True) s := by
  rw [wp_pass_iff]
  refine wp_intro (fun now begun hbegin => ?_) fun _ _ _ => trivial
  refine wp_intro (fun answer polled hpoll => ?_) fun _ _ _ => trivial
  unfold SessionDriver.attempt at h
  simp only [hbegin, hpoll] at h
  have hbegun : Paced begun attempt := hs.of_pacing ((pacing_beginPass input.elapsedMs s).ok hbegin)
  cases answer with
  | send plan => cases h
  | pending wakeAtMs =>
    have hpolled : Paced polled attempt := (paced_pollScheduler now begun hbegun).ok hpoll
    refine Preserves.bind (paced_pacing ?_) (fun _ => preserves_pure _) polled hpolled
    exact unseen_get.bind fun _ => (unseen_ofExcept fun _ => trivial).bind fun _ => unseen_pure _

/-- A pass that attempts a send keeps its distance to the last attempt, and keeps the next one away. -/
theorem pass_attempting {input : TaskInput} {next : SendAttempt} (h : s.attempt p input = some next)
    (hsound : s.ledger.Sound) (htimely : Timely s) :
    (∀ attempt, Paced s attempt → SpacedFrom attempt next) ∧ (next.outcome ≠ some .cancelled →
      wp (pass p input.env input.elapsedMs) (fun _ t => Paced t next) (fun _ _ => True) s) := by
  unfold SessionDriver.attempt at h
  cases hbegin : beginPass input.elapsedMs s with
  | error e begun =>
    simp only [hbegin] at h
    cases h
  | ok now begun =>
    simp only [hbegin] at h
    cases hpoll : pollScheduler now begun with
    | error e polled =>
      simp only [hpoll] at h
      cases h
    | ok answer polled =>
      simp only [hpoll] at h
      cases answer with
      | pending wakeAtMs => cases h
      | send plan =>
        cases h
        have hpacing := (pacing_beginPass input.elapsedMs s).ok hbegin
        have hpolled := (wp_pollScheduler_send now (htimely.of_pacing hpacing)).ok hpoll
        obtain ⟨hplanned, hobserved, hspaced⟩ := hpolled.2 plan rfl
        refine ⟨fun attempt hs => hspaced attempt _ (hs.of_pacing hpacing), fun hcancelled => ?_⟩
        have hledger : polled.ledger = s.ledger :=
          ((ledger_pollScheduler now begun).ok hpoll).trans ((ledger_beginPass input.elapsedMs s).ok hbegin)
        rw [wp_pass_iff, wp_of_ok hbegin, wp_of_ok hpoll, finishPass, wp_bind]
        exact (wp_sendInstruction_paced input.env plan now (hledger ▸ hsound) hplanned hobserved).mono
          (fun _ _ ht => ht hcancelled) fun _ _ h => h

end SessionDriver

/-! ### Runs -/

namespace Session

variable {s t : Session T} {last : Option SendAttempt}

/-- The task is in the loop of `run`. -/
def InRun : TaskState → Prop
  | .pass .run | .waiting .run _ _ => True
  | .pass (.localShutdown _) | .waiting (.localShutdown _) _ _ | .finishing _ | .ended _ => False

/-- While the task is in the loop of `run`, the scheduler keeps its distance to the last attempt. -/
def PacedAfter (last : Option SendAttempt) (s : Session T) : Prop :=
  InRun s.task → ∀ attempt, last = some attempt → Paced s.driver attempt

theorem timely_run (c : Connection p) (actions : List SessionAction)
    (hlive : ∀ e, ((start c.driver).run p actions).task ≠ .ended (.error e)) :
    Timely ((start c.driver).run p actions).driver := by
  refine (methodsKeep_timely p).run ?_ actions hlive
  obtain ⟨initialTerminal, hinitial⟩ := c.apartFromSender_eq
  refine Timely.of_estimator (congrArg (fun d => d.datagramTiming.estimator) hinitial :) ?_
  show 50 ≤ initialRetransmissionTimeoutMs
  decide

theorem inRun_waiting_iff {loop : TaskLoop} {wait : Wait} {stage : PollStage} :
    InRun (.waiting loop wait stage) ↔ InRun (.pass loop) := by
  cases loop <;> rfl

theorem InRun.live {task : TaskState} (h : InRun task) (e : DriverError) : task ≠ .ended (.error e) := by
  rintro rfl
  exact h

/-- A method that leads to the loop of `run` only when it keeps the distance. -/
theorem PacedAfter.perform {m : Driving T α} {next : α → TaskState}
    (h : ∀ attempt, last = some attempt →
      wp m (fun a d => InRun (next a) → Paced d attempt) (fun _ _ => True) s.driver) :
    PacedAfter last (s.perform m next) := by
  intro hrun attempt hlast
  refine perform_of_wp (I := fun task d => InRun task → Paced d attempt) ?_ hrun
  exact (h attempt hlast).mono (fun _ _ ht => ht) fun _ _ _ => False.elim

/-- A method that leaves the loop of `run`. -/
theorem PacedAfter.leaving {m : Driving T α} {next : α → TaskState} (hnext : ∀ a, ¬InRun (next a)) :
    PacedAfter last (s.perform m next) :=
  .perform fun _ _ => wp_intro (fun a _ _ hrun => absurd hrun (hnext a)) fun _ _ _ => trivial

/-- A method that keeps the distance, and does not lead into the loop of `run` from outside. -/
theorem PacedAfter.method {m : Driving T α} {next : α → TaskState} (hs : PacedAfter last s)
    (hm : ∀ attempt, Preserves (fun d => Paced d attempt) m) (hnext : ∀ a, InRun (next a) → InRun s.task) :
    PacedAfter last (s.perform m next) := by
  by_cases hrun : InRun s.task
  · exact .perform fun attempt hlast => (hm attempt s.driver (hs hrun attempt hlast)).mono (fun _ _ ht _ => ht) fun _ _ h => h
  · exact .leaving fun a ha => hrun (hnext a ha)

theorem PacedAfter.of_task (hs : PacedAfter last s) (hdriver : t.driver = s.driver) (hrun : InRun t.task → InRun s.task) :
    PacedAfter last t := by
  intro ht
  rw [hdriver]
  exact hs (hrun ht)

/-- A step that attempts no send. -/
theorem PacedAfter.drives {input : TaskInput} (hs : PacedAfter last s) (hsound : s.driver.ledger.Sound)
    (hattempt : s.task = .pass .run → s.driver.attempt p input = none) (h : Drives p input s t) : PacedAfter last t := by
  cases h with
  | rest => exact hs
  | leave => exact False.elim
  | poll loop wait stage stage' htask =>
    refine hs.of_task rfl fun hrun => ?_
    rw [htask]
    exact inRun_waiting_iff.mpr (inRun_waiting_iff.mp hrun)
  | wake loop wait htask =>
    refine hs.of_task rfl fun hrun => ?_
    rw [htask]
    exact inRun_waiting_iff.mpr hrun
  | pass htask =>
    refine .perform fun attempt hlast => ?_
    have hpaced : Paced s.driver attempt := hs (htask ▸ trivial) attempt hlast
    exact (wp_pass_waiting (hattempt htask) hpaced).mono (fun _ _ ht _ => ht) fun _ _ h => h
  | shutdownPass progress htask =>
    refine .leaving fun outcome => ?_
    cases outcome <;> exact id
  | command loop wait command queue htask =>
    have hdequeued : PacedAfter last { s with queue := queue, handled := s.handled ++ [command] } := hs
    exact hdequeued.method (fun _ => paced_handleCommand _ command) fun _ hrun => htask ▸ inRun_waiting_iff.mpr hrun
  | begin wait htask => exact .leaving fun _ => id
  | output loop wait htask =>
    exact hs.method (fun _ => paced_pacing pacing_emitOutput) fun _ hrun => htask ▸ inRun_waiting_iff.mpr hrun
  | receive loop wait received _ _ _ htask =>
    cases loop with
    | run =>
      refine .perform fun attempt hlast => ?_
      have hpaced : Paced s.driver attempt := hs (htask ▸ trivial) attempt hlast
      refine (wp_receive_paced _ _ _ _ _ received hsound.sender hpaced).mono (fun after d hd hrun => hd ?_) fun _ _ h => h
      cases after with
      | again => rfl
      | finish reason => exact hrun.elim
      | exit reason => exact hrun.elim
    | localShutdown progress =>
      refine .leaving fun after => ?_
      cases after <;> exact id
  | finish => exact False.elim
  | lastOutput => exact .leaving fun _ => id

theorem PacedAfter.step {action : SessionAction} (hs : PacedAfter last s) (hsound : s.driver.ledger.Sound)
    (hattempt : s.attemptAt p action = none) : PacedAfter last (s.step p action) := by
  rcases work_step (p := p) action s with ⟨input, rfl⟩ | hwork
  · by_cases hcancelled : s.cancellation = true ∧ s.task = .pass .run
    · simp only [Session.step, drive, hcancelled.1, hcancelled.2, if_true]
      exact False.elim
    · refine hs.drives hsound (fun htask => ?_) (drives_drive input s)
      simpa [attemptAt, htask, show s.cancellation = false by simpa [htask] using hcancelled] using hattempt
  · simp only [work, Prod.mk.injEq] at hwork
    exact hs.of_task hwork.1 fun hrun => hwork.2.1 ▸ hrun

/-- A step that attempts a send. -/
theorem attempting_step {action : SessionAction} {next : SendAttempt} (hattempt : s.attemptAt p action = some next)
    (hsound : s.driver.ledger.Sound) (htimely : InRun s.task → Timely s.driver) (hs : PacedAfter last s) :
    (∀ attempt, last = some attempt → SpacedFrom attempt next) ∧
      (next.outcome ≠ some .cancelled → PacedAfter (some next) (s.step p action)) := by
  unfold attemptAt at hattempt
  split at hattempt
  · rename_i input
    split at hattempt
    · rename_i htask
      split at hattempt
      · cases hattempt
      · rename_i hcancelled
        have hrun : InRun s.task := htask ▸ trivial
        refine ⟨fun attempt hlast => ?_, fun hnext => ?_⟩
        · exact (pass_attempting hattempt hsound (htimely hrun)).1 attempt (hs hrun attempt hlast)
        · simp only [Session.step, drive, htask, if_neg hcancelled]
          refine PacedAfter.perform fun attempt hlast => ?_
          cases hlast
          exact ((pass_attempting hattempt hsound (htimely hrun)).2 hnext).mono (fun _ _ ht _ => ht)
            fun _ _ h => h
    · cases hattempt
  · cases hattempt

/-- From wherever a run has come, its next attempts keep their distance to the last. -/
theorem isChain_attempts (c : Connection p) (actions before : List SessionAction) (last : Option SendAttempt)
    (hlast : PacedAfter last ((start c.driver).run p before)) :
    (last.toList ++ ((start c.driver).run p before).attempts p actions).IsChain SpacedFrom := by
  induction actions generalizing before last with
  | nil => cases last <;> simp [attempts]
  | cons action actions ih =>
    have hstep : ((start c.driver).run p before).step p action = (start c.driver).run p (before ++ [action]) := by
      simp only [Session.run, List.foldl_append, List.foldl_cons, List.foldl_nil]
    unfold attempts
    cases hattempt : ((start c.driver).run p before).attemptAt p action with
    | none =>
      simp only [hstep]
      exact ih _ last (hstep ▸ hlast.step (sound_run c before) hattempt)
    | some next =>
      obtain ⟨hspaced, hpaced⟩ := attempting_step hattempt (sound_run c before)
        (fun hrun => timely_run c before hrun.live) hlast
      have hrest : (next :: if next.outcome = some .cancelled then [] else
          (((start c.driver).run p before).step p action).attempts p actions).IsChain SpacedFrom := by
        split
        · exact .singleton next
        · rw [hstep]
          exact ih _ (some next) (hstep ▸ hpaced ‹_›)
      cases last with
      | none => exact hrest
      | some attempt => exact List.isChain_cons_cons.mpr ⟨hspaced attempt rfl, hrest⟩

/-- Any two successive attempts of `run` to send are at least a frame apart, and more after one that was deferred. -/
theorem attempts_spaced (c : Connection p) (actions : List SessionAction) :
    ((start c.driver).attempts p actions).IsChain SpacedFrom := by
  refine isChain_attempts c actions [] none ?_
  rintro _ _ ⟨⟩

-- The first state is sent once it is collected, and again when the retransmission timeout has passed.
example : (start Connection.small.driver).attempts Platform.small ([15, 1014, 1015, 1015, 1015, 1015, 1015].map
      fun elapsedMs => .drive ⟨elapsedMs, ⟨fun _ => false, fun _ => .ok 57, elapsedMs⟩, .timer⟩) =
    [⟨15, some .sent⟩, ⟨1015, some .sent⟩] := by
  decide +kernel

end Session
end MoshClient
