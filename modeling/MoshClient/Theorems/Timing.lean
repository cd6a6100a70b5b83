import MoshClient.Lib.Simulation
import MoshClient.Timing

/-! Plans of the send scheduler. A plan is current from the poll that answered it until the scheduler is
    polled or told of a change again, and a current plan is never refused as stale. -/

namespace MoshClient
open Machine Limits Effect Simulation

variable {σ α : Type}

/-- Watches nothing of the state, and allows every error but that of a stale plan. -/
def staleness : Simulation TimingError σ Unit where
  view _ := ()
  Step _ _ := False
  Invariant _ := True
  invariant_step _ _ := trivial
  Allowed e := e ≠ .stalePlan

/-- The method refuses no plan as stale. -/
def NeverStale (m : EStateM TimingError σ α) : Prop := staleness.Unseen m

theorem neverStale_of_wp {m : EStateM TimingError σ α} (h : ∀ s, wp m (fun _ _ => True) (fun e _ => e ≠ .stalePlan) s) :
    NeverStale m := fun s => (h s).mono (fun _ _ _ => rfl) fun _ _ he => ⟨rfl, he⟩

/-! ### Wire timestamps -/

theorem DatagramTiming.wp_observeTime (nowMs : Nat) (s : DatagramTiming) :
    wp (observeTime nowMs) (fun _ t => t = { s with lastObservedMs := nowMs })
      (fun e t => t = s ∧ e = .timeMovedBackwards ∧ nowMs < s.lastObservedMs) s := by
  unfold wp observeTime
  split_ifs with h
  · exact ⟨rfl, rfl, h⟩
  · rfl

theorem DatagramTiming.neverStale_observeTime (nowMs : Nat) : NeverStale (observeTime nowMs) :=
  neverStale_of_wp fun s => (wp_observeTime nowMs s).mono (fun _ _ _ => trivial) fun e _ h => by
    obtain ⟨-, rfl, -⟩ := h
    nofun

theorem DatagramTiming.neverStale_outgoing (nowMs : Nat) : NeverStale (outgoing nowMs) :=
  (neverStale_observeTime nowMs).bind fun _ => unseen_get.bind fun _ => unseen_pure _

theorem RttEstimator.neverStale_smooth (sampleMs sampleEighths : Nat) : NeverStale (smooth sampleMs sampleEighths) := by
  refine unseen_get.bind fun self => ?_
  cases self.smoothedRttEighths with
  | none =>
    exact Unseen.bind (unseen_modify fun _ => rfl) fun _ => (unseen_ofOption (by simp [staleness])).bind fun _ =>
      Unseen.bind (unseen_modify fun _ => rfl) fun _ => unseen_pure _
  | some smoothed =>
    exact (unseen_ofOption (by simp [staleness])).bind fun _ => Unseen.bind (unseen_modify fun _ => rfl) fun _ =>
      (unseen_ofOption (by simp [staleness])).bind fun _ => Unseen.bind (unseen_modify fun _ => rfl) fun _ => unseen_pure _

theorem RttEstimator.neverStale_observeSample (sampleMs : Nat) : NeverStale (observeSample sampleMs) := by
  refine .ite (unseen_throw (by simp [staleness])) ?_
  exact (unseen_ofOption (by simp [staleness])).bind fun _ => (neverStale_smooth _ _).bind fun _ => unseen_get.bind fun _ =>
    (unseen_ofOption (by simp [staleness])).bind fun _ => unseen_modify fun _ => rfl

theorem DatagramTiming.neverStale_observeReceived (sequence timestamp : Nat) (timestampReply : Option Nat)
    (nowMs : Nat) : NeverStale (observeReceived sequence timestamp timestampReply nowMs) := by
  refine (neverStale_observeTime nowMs).bind fun _ => unseen_get.bind fun _ => .ite (unseen_pure _) ?_
  refine Unseen.bind (unseen_modify fun _ => rfl) fun _ => ?_
  cases timestampReply with
  | none => exact unseen_pure _
  | some reply =>
    refine .ite (unseen_pure _) ?_
    have hsample : staleness.Unseen (zoom estimator (fun x self => { self with estimator := x }) id
        (RttEstimator.observeSample ((wireMilliseconds nowMs + timestampModulus - reply) % timestampModulus))) :=
      unseen_zoom (fun _ _ => rfl) fun r =>
        (RttEstimator.neverStale_observeSample _ r).mono (fun _ _ _ => trivial) fun _ _ he => he.2
    exact hsample.bind fun _ => unseen_pure _

/-! ### The bounds of the estimates -/

theorem RttEstimator.le_frameIntervalMs (timing : RttEstimator) : 20 ≤ timing.frameIntervalMs := Nat.le_max_left _ _

theorem RttEstimator.le_calculateRtoMs {smoothed variation timeout : Nat} (h : calculateRtoMs smoothed variation = some timeout) :
    50 ≤ timeout := by
  unfold calculateRtoMs at h
  simp only [Option.bind_eq_bind, Option.bind_eq_some_iff, Option.some.injEq] at h
  obtain ⟨_, -, _, -, rfl⟩ := h
  exact Nat.le_max_left _ _

/-- The timeout of an estimate stays above its bound. -/
def RttEstimator.Bounded (timing : RttEstimator) : Prop := 50 ≤ timing.retransmissionTimeoutMs

theorem RttEstimator.preserves_observeSample (sampleMs : Nat) : Preserves Bounded (observeSample sampleMs) := by
  refine .ite (preserves_throw _) fun s _ => ?_
  -- Only the last step sets the timeout.
  rw [wp_bind, wp_ofOption]
  refine ⟨fun sampleEighths _ => wp_bind_of_forall (fun smoothed t => ?_) fun _ _ => trivial, fun _ => trivial⟩
  simp only [wp_bind, wp_get, wp_ofOption, wp_modify]
  exact ⟨fun timeout htimeout => le_calculateRtoMs htimeout, fun _ => trivial⟩

theorem DatagramTiming.preserves_observeReceived (sequence timestamp : Nat) (timestampReply : Option Nat) (nowMs : Nat) :
    Preserves (fun s => s.estimator.Bounded) (observeReceived sequence timestamp timestampReply nowMs) := by
  have hobserve : Preserves (fun s : DatagramTiming => s.estimator.Bounded) (observeTime nowMs) := by
    intro s hs
    refine (wp_observeTime nowMs s).mono (fun _ t h => ?_) fun _ _ _ => trivial
    rw [h]
    exact hs
  refine hobserve.bind fun _ s hs => ?_
  simp only [wp_bind, wp_get, wp_ite, wp_pure, wp_modify]
  refine ⟨fun _ => hs, fun _ => ?_⟩
  cases timestampReply with
  | none => exact hs
  | some reply =>
    rw [wp_ite]
    refine ⟨fun _ => hs, fun _ => ?_⟩
    rw [wp_bind, wp_zoom]
    exact (RttEstimator.preserves_observeSample _ s.estimator hs).mono (fun _ _ h => h) fun _ _ h => h

/-! ### The send scheduler -/

namespace SendScheduler

theorem wp_observeTime (nowMs : Nat) (s : SendScheduler) :
    wp (observeTime nowMs) (fun _ t => s.lastObservedMs ≤ nowMs ∧ t = { s with lastObservedMs := nowMs })
      (fun e t => t = s ∧ e = .timeMovedBackwards) s := by
  unfold wp observeTime
  split_ifs with h
  · exact ⟨rfl, rfl⟩
  · exact ⟨Nat.le_of_not_lt h, rfl⟩

theorem wp_nextGeneration (s : SendScheduler) :
    wp nextGeneration (fun g t => t = s ∧ g = s.generation + 1) (fun e t => t = s ∧ e = .generationExhausted) s := by
  unfold wp nextGeneration
  cases h : checkedAdd s.generation 1 with
  | none => exact ⟨rfl, rfl⟩
  | some g =>
    obtain ⟨rfl, -⟩ := checkedAdd_eq_some.mp h
    exact ⟨rfl, rfl⟩

theorem neverStale_observeTime (nowMs : Nat) : NeverStale (observeTime nowMs) :=
  neverStale_of_wp fun s => (wp_observeTime nowMs s).mono (fun _ _ _ => trivial) fun e _ h => by
    obtain ⟨-, rfl⟩ := h
    nofun

theorem neverStale_nextGeneration : NeverStale nextGeneration :=
  neverStale_of_wp fun s => (wp_nextGeneration s).mono (fun _ _ _ => trivial) fun e _ h => by
    obtain ⟨-, rfl⟩ := h
    nofun

theorem neverStale_noteLocalChange (nowMs : Nat) : NeverStale (noteLocalChange nowMs) := by
  refine (neverStale_observeTime nowMs).bind fun _ => unseen_get.bind fun _ => .ite ?_ (unseen_pure _)
  exact neverStale_nextGeneration.bind fun _ => unseen_modify fun _ => rfl

theorem neverStale_noteAcknowledgementNeeded (nowMs : Nat) : NeverStale (noteAcknowledgementNeeded nowMs) := by
  refine (neverStale_observeTime nowMs).bind fun _ => unseen_get.bind fun _ => .ite ?_ (unseen_pure _)
  exact neverStale_nextGeneration.bind fun _ => unseen_modify fun _ => rfl

theorem checkedDeadline_error {startMs delayMs : Nat} {e : TimingError} (h : checkedDeadline startMs delayMs = .error e) :
    e = .timerExhausted := by
  unfold checkedDeadline at h
  split at h
  · exact (Except.error.inj h).symm
  · cases h

theorem neverStale_deferSend (nowMs delayMs : Nat) : NeverStale (deferSend nowMs delayMs) := by
  have hdeadline : NeverStale (ofExcept id (checkedDeadline nowMs delayMs) : Scheduling Nat) := by
    refine neverStale_of_wp fun s => ?_
    rw [wp_ofExcept]
    refine ⟨fun _ _ => trivial, fun e he => ?_⟩
    rw [checkedDeadline_error he]
    nofun
  exact hdeadline.bind fun _ => (neverStale_observeTime nowMs).bind fun _ => unseen_modify fun _ => rfl

/-- The plan fits the scheduler as it is. -/
structure Current (plan : WakePlan) (s : SendScheduler) : Prop where
  generation : plan.generation = s.generation
  plannedAt : plan.plannedAtMs = s.lastObservedMs

theorem deadlineAfter_error {startMs : Option Nat} {delayMs : Nat} {e : TimingError}
    (h : deadlineAfter startMs delayMs = .error e) : e = .timerExhausted := by
  cases startMs with
  | none => cases h
  | some startMs =>
    simp only [deadlineAfter] at h
    cases hd : checkedDeadline startMs delayMs with
    | ok d => rw [hd] at h; cases h
    | error e' =>
      rw [hd] at h
      cases h
      exact checkedDeadline_error hd

theorem localChangeDue_error {s : SendScheduler} {frameIntervalMs : Nat} {e : TimingError}
    (h : s.localChangeDue frameIntervalMs = .error e) : e = .timerExhausted := by
  unfold localChangeDue at h
  split at h
  · cases h
  obtain hcollection | ⟨collectionDue, -, h⟩ := exists_of_bind_error h
  · exact checkedDeadline_error hcollection
  obtain hframe | ⟨frameDue, -, h⟩ := exists_of_bind_error h
  · exact deadlineAfter_error hframe
  cases h

/-! ### What a poll answers -/

theorem checkedDeadline_ok {startMs delayMs deadline : Nat} (h : checkedDeadline startMs delayMs = .ok deadline) :
    deadline = startMs + delayMs := by
  unfold checkedDeadline at h
  split at h
  · cases h
  · rename_i hadd
    cases h
    exact (checkedAdd_eq_some.mp hadd).1

theorem deadlineAfter_ok {startMs : Option Nat} {delayMs : Nat} {deadline : Option Nat}
    (h : deadlineAfter startMs delayMs = .ok deadline) : deadline = startMs.map (· + delayMs) := by
  cases startMs with
  | none =>
    cases h
    rfl
  | some startMs =>
    simp only [deadlineAfter] at h
    cases hd : checkedDeadline startMs delayMs with
    | error e =>
      rw [hd] at h
      cases h
    | ok due =>
      rw [hd] at h
      cases h
      exact congrArg some (checkedDeadline_ok hd)

/-- A local change waits for the frame after the last send. -/
theorem localChangeDue_ok {s : SendScheduler} {frameIntervalMs due sentAt : Nat}
    (h : s.localChangeDue frameIntervalMs = .ok (some due)) (hsent : s.lastSendMs = some sentAt) :
    sentAt + frameIntervalMs ≤ due := by
  unfold localChangeDue at h
  split at h
  · cases h
  obtain ⟨collectionDue, -, h⟩ := exists_of_bind_ok h
  obtain ⟨frameDue, hframe, h⟩ := exists_of_bind_ok h
  cases h
  rw [deadlineAfter_ok hframe, hsent]
  exact Nat.le_max_right _ _

theorem dueBy_iff {nowMs : Nat} {deadline : Option Nat} :
    dueBy nowMs deadline = true ↔ ∃ due, deadline = some due ∧ due ≤ nowMs := by
  cases deadline <;> simp [dueBy]

/-- What a poll answers, from its four deadlines. -/
inductive Answers (s : SendScheduler) (nowMs : Nat) (stateDue acknowledgementDue retransmissionDue : Option Nat)
    (heartbeatDue : Nat) : SchedulerPoll → Prop where
  | send (plan : WakePlan) (hgeneration : plan.generation = s.generation) (hplanned : plan.plannedAtMs = nowMs)
      (hdue : dueBy nowMs stateDue = true ∨ dueBy nowMs retransmissionDue = true ∨
        dueBy nowMs acknowledgementDue = true ∨ heartbeatDue ≤ nowMs)
      (hallowed : ∀ notBefore, s.sendNotBeforeMs = some notBefore → notBefore ≤ nowMs) :
      Answers s nowMs stateDue acknowledgementDue retransmissionDue heartbeatDue (.send plan)
  | deferred (notBefore : Nat) (hlater : nowMs < notBefore) :
      Answers s nowMs stateDue acknowledgementDue retransmissionDue heartbeatDue (.pending notBefore)
  | pending (hstate : dueBy nowMs stateDue ≠ true) (hretransmission : dueBy nowMs retransmissionDue ≠ true)
      (hacknowledgement : dueBy nowMs acknowledgementDue ≠ true) (hheartbeat : nowMs < heartbeatDue) :
      Answers s nowMs stateDue acknowledgementDue retransmissionDue heartbeatDue
        (.pending (([stateDue, acknowledgementDue, retransmissionDue].filterMap id).foldl min heartbeatDue))

/-- There is a reason to send exactly when one of the four deadlines has come. -/
theorem reasons_eq_none_iff (b₁ b₂ b₃ b₄ : Bool) :
    (SendReasons.none |> SendReasons.insertIf b₁ .stateChange |> SendReasons.insertIf b₂ .retransmission
      |> SendReasons.insertIf b₃ .acknowledgement |> SendReasons.insertIf b₄ .heartbeat) = SendReasons.none ↔
      b₁ ≠ true ∧ b₂ ≠ true ∧ b₃ ≠ true ∧ b₄ ≠ true := by
  revert b₁ b₂ b₃ b₄
  decide

theorem pollAt_ok {s : SendScheduler} {nowMs : Nat} {timing : RttEstimator} {sentAtMs : Option Nat}
    {answer : SchedulerPoll} (h : s.pollAt nowMs timing sentAtMs = .ok answer) :
    ∃ stateDue acknowledgementDue retransmissionDue heartbeatDue,
      s.localChangeDue timing.frameIntervalMs = .ok stateDue ∧
      deadlineAfter s.acknowledgementAtMs maxAcknowledgementDelayMs = .ok acknowledgementDue ∧
      deadlineAfter sentAtMs timing.retransmissionTimeoutMs = .ok retransmissionDue ∧
      checkedDeadline (s.lastSendMs.getD s.startedAtMs) heartbeatIntervalMs = .ok heartbeatDue ∧
      Answers s nowMs stateDue acknowledgementDue retransmissionDue heartbeatDue answer := by
  unfold pollAt at h
  split at h
  · cases h
  obtain ⟨stateDue, hstate, h⟩ := exists_of_bind_ok h
  obtain ⟨acknowledgementDue, hacknowledgement, h⟩ := exists_of_bind_ok h
  obtain ⟨retransmissionDue, hretransmission, h⟩ := exists_of_bind_ok h
  obtain ⟨heartbeatDue, hheartbeat, h⟩ := exists_of_bind_ok h
  refine ⟨stateDue, acknowledgementDue, retransmissionDue, heartbeatDue, hstate, hacknowledgement, hretransmission, hheartbeat, ?_⟩
  have hreasons := reasons_eq_none_iff (dueBy nowMs stateDue) (dueBy nowMs retransmissionDue)
    (dueBy nowMs acknowledgementDue) (decide (heartbeatDue ≤ nowMs))
  dsimp only at h
  split at h
  · rename_i hsome
    have hdue := mt hreasons.mpr hsome
    simp only [not_and_or, not_not, decide_eq_true_eq] at hdue
    split at h
    · rename_i notBefore hnotBefore
      split at h
      · cases h
        exact .deferred notBefore ‹_›
      · rename_i hreached
        cases h
        refine .send _ rfl rfl hdue fun notBefore' h' => ?_
        obtain rfl := Option.some.inj (hnotBefore.symm.trans h')
        exact Nat.le_of_not_lt hreached
    · rename_i hnone
      cases h
      refine .send _ rfl rfl hdue fun notBefore' h' => ?_
      rw [hnone] at h'
      cases h'
  · rename_i hnone
    obtain ⟨hstate, hretransmission, hacknowledgement, hheartbeat⟩ := hreasons.mp (not_not.mp hnone)
    cases h
    exact .pending hstate hretransmission hacknowledgement (Nat.lt_of_not_le (by simpa using hheartbeat))

theorem pollAt_error {s : SendScheduler} {nowMs : Nat} {timing : RttEstimator} {sentAtMs : Option Nat} {e : TimingError}
    (h : s.pollAt nowMs timing sentAtMs = .error e) : e ≠ .stalePlan := by
  unfold pollAt at h
  split at h
  · cases h
    simp
  obtain hstate | ⟨stateDue, -, h⟩ := exists_of_bind_error h
  · simp [localChangeDue_error hstate]
  obtain hacknowledgement | ⟨acknowledgementDue, -, h⟩ := exists_of_bind_error h
  · simp [deadlineAfter_error hacknowledgement]
  obtain hretransmission | ⟨retransmissionDue, -, h⟩ := exists_of_bind_error h
  · simp [deadlineAfter_error hretransmission]
  obtain hheartbeat | ⟨heartbeatDue, -, h⟩ := exists_of_bind_error h
  · simp [checkedDeadline_error hheartbeat]
  dsimp only at h
  split at h
  · split at h
    · split at h <;> cases h
    · cases h
  · cases h

theorem lt_foldl_min {n a : Nat} {l : List Nat} (ha : n < a) (hl : ∀ b ∈ l, n < b) : n < l.foldl min a :=
  List.foldlRecOn l min ha fun _ hc _ hb => Nat.lt_min.mpr ⟨hc, hl _ hb⟩

/-- A poll that does not answer with a send answers with a later time. -/
theorem lt_of_pending {s : SendScheduler} {nowMs wakeAtMs : Nat} {timing : RttEstimator} {sentAtMs : Option Nat}
    (h : s.pollAt nowMs timing sentAtMs = .ok (.pending wakeAtMs)) : nowMs < wakeAtMs := by
  obtain ⟨stateDue, acknowledgementDue, retransmissionDue, heartbeatDue, -, -, -, -, hanswers⟩ := pollAt_ok h
  have hlater : ∀ {deadline : Option Nat} {due : Nat}, dueBy nowMs deadline ≠ true → deadline = some due → nowMs < due := by
    intro deadline due hdue hdeadline
    exact Nat.lt_of_not_le fun hle => hdue (dueBy_iff.mpr ⟨due, hdeadline, hle⟩)
  cases hanswers with
  | deferred _ hlater => exact hlater
  | pending hstate hretransmission hacknowledgement hheartbeat =>
    refine lt_foldl_min hheartbeat fun due hdue => ?_
    simp only [List.mem_filterMap, List.mem_cons, List.not_mem_nil, or_false, id_eq, exists_eq_right] at hdue
    rcases hdue with hdue | hdue | hdue
    · exact hlater hstate hdue.symm
    · exact hlater hacknowledgement hdue.symm
    · exact hlater hretransmission hdue.symm

theorem wp_poll (nowMs : Nat) (timing : RttEstimator) (sentAtMs : Option Nat) (s : SendScheduler) :
    wp (poll nowMs timing sentAtMs) (fun answer t => ∀ plan, answer = .send plan → Current plan t)
      (fun e _ => e ≠ .stalePlan) s := by
  simp only [poll, wp_bind]
  refine (wp_observeTime nowMs s).mono ?_ ?_
  · rintro _ t ⟨-, rfl⟩
    simp only [wp_get, wp_ofExcept]
    refine ⟨fun answer hanswer plan hp => ?_, fun _ => pollAt_error⟩
    subst hp
    obtain ⟨_, _, _, _, -, -, -, -, hanswers⟩ := pollAt_ok hanswer
    cases hanswers with
    | send _ hgeneration hplanned => exact ⟨hgeneration, hplanned⟩
  · rintro e t ⟨-, rfl⟩
    simp

/-- A current plan is committed, unless the generations are exhausted. -/
theorem wp_commitSend {plan : WakePlan} {s : SendScheduler} (h : Current plan s) :
    wp (commitSend plan) (fun _ _ => True) (fun e _ => e ≠ .stalePlan) s := by
  simp only [commitSend, wp_bind, wp_get, wp_ite, wp_modify, wp_throw]
  refine ⟨fun hstale => ?_, fun _ => ?_⟩
  · rcases hstale with hg | ht
    · exact absurd h.generation hg
    · exact absurd h.plannedAt ht
  · refine (wp_nextGeneration s).mono (fun _ _ _ => trivial) ?_
    rintro e _ ⟨-, rfl⟩
    simp

/-! ### The pace of sends -/

/-- The last send was made at `sentAtMs`, and every acknowledgement that is still needed came after it. -/
structure SentAt (sentAtMs : Nat) (s : SendScheduler) : Prop where
  last : s.lastSendMs = some sentAtMs
  observed : sentAtMs ≤ s.lastObservedMs
  acknowledged : ∀ neededAtMs, s.acknowledgementAtMs = some neededAtMs → sentAtMs ≤ neededAtMs

/-- What may happen to the scheduler between two sends. -/
structure Later (s t : SendScheduler) : Prop where
  last : t.lastSendMs = s.lastSendMs
  notBefore : t.sendNotBeforeMs = s.sendNotBeforeMs
  observed : s.lastObservedMs ≤ t.lastObservedMs
  acknowledged : t.acknowledgementAtMs = s.acknowledgementAtMs ∨
    ∃ neededAtMs, t.acknowledgementAtMs = some neededAtMs ∧ s.lastObservedMs ≤ neededAtMs

theorem Later.refl (s : SendScheduler) : Later s s := ⟨rfl, rfl, Nat.le_refl _, Or.inl rfl⟩

theorem SentAt.later {sentAtMs : Nat} {s t : SendScheduler} (hs : SentAt sentAtMs s) (h : Later s t) : SentAt sentAtMs t := by
  refine ⟨h.last.trans hs.last, hs.observed.trans h.observed, fun neededAtMs hneeded => ?_⟩
  rcases h.acknowledged with hsame | ⟨neededAtMs', hnew, hle⟩
  · exact hs.acknowledged neededAtMs (hsame ▸ hneeded)
  · obtain rfl := Option.some.inj (hnew.symm.trans hneeded)
    exact hs.observed.trans hle

/-- A note is made once, at the time that it observes. -/
theorem wp_note {isDue : SendScheduler → Bool} {note : Nat → SendScheduler → SendScheduler} {nowMs : Nat} {s : SendScheduler}
    (hnote : s.lastObservedMs ≤ nowMs → ∀ generation, Later s (note generation { s with lastObservedMs := nowMs })) :
    wp (do
        observeTime nowMs
        let self ← get
        if isDue self then do
          let generation ← nextGeneration
          modify (note generation)
        else return ())
      (fun _ t => Later s t) (fun _ _ => True) s := by
  simp only [wp_bind, wp_get, wp_ite, wp_modify, wp_pure]
  refine (wp_observeTime nowMs s).mono (fun _ t h => ?_) fun _ _ _ => trivial
  obtain ⟨hle, rfl⟩ := h
  refine ⟨fun _ => (wp_nextGeneration _).mono (fun generation u hu => ?_) fun _ _ _ => trivial, fun _ => ?_⟩
  · obtain ⟨rfl, -⟩ := hu
    exact hnote hle generation
  · exact ⟨rfl, rfl, hle, Or.inl rfl⟩

theorem wp_noteLocalChange (nowMs : Nat) (s : SendScheduler) :
    wp (noteLocalChange nowMs) (fun _ t => Later s t) (fun _ _ => True) s :=
  wp_note fun hle _ => ⟨rfl, rfl, hle, Or.inl rfl⟩

theorem wp_noteAcknowledgementNeeded (nowMs : Nat) (s : SendScheduler) :
    wp (noteAcknowledgementNeeded nowMs) (fun _ t => Later s t) (fun _ _ => True) s :=
  wp_note fun hle _ => ⟨rfl, rfl, hle, Or.inr ⟨nowMs, rfl, hle⟩⟩

/-- A poll only observes the time. -/
theorem wp_poll_answer (nowMs : Nat) (timing : RttEstimator) (sentAtMs : Option Nat) (s : SendScheduler) :
    wp (poll nowMs timing sentAtMs)
      (fun answer t => s.lastObservedMs ≤ nowMs ∧ t = { s with lastObservedMs := nowMs } ∧
        t.pollAt nowMs timing sentAtMs = .ok answer)
      (fun _ _ => True) s := by
  simp only [poll, wp_bind, wp_get, wp_ofExcept]
  refine (wp_observeTime nowMs s).mono (fun _ t h => ?_) fun _ _ _ => trivial
  obtain ⟨hle, rfl⟩ := h
  exact ⟨fun answer hanswer => ⟨hle, rfl, hanswer⟩, fun _ _ => trivial⟩

/-- Each of the four deadlines is at least a frame after the last send. -/
theorem SentAt.le_of_send {sentAtMs nowMs : Nat} {timing : RttEstimator} {unacknowledgedMs : Option Nat} {plan : WakePlan}
    {s : SendScheduler} (hs : SentAt sentAtMs s) (htimeout : 50 ≤ timing.retransmissionTimeoutMs)
    (hunacknowledged : ∀ lastMs, unacknowledgedMs = some lastMs → sentAtMs ≤ lastMs)
    (h : s.pollAt nowMs timing unacknowledgedMs = .ok (.send plan)) : sentAtMs + 20 ≤ nowMs := by
  obtain ⟨stateDue, acknowledgementDue, retransmissionDue, heartbeatDue, hstate, hack, hretransmission, hheartbeat, hanswers⟩ :=
    pollAt_ok h
  have hframe := timing.le_frameIntervalMs
  cases hanswers with
  | send _ _ _ hdue =>
    rw [dueBy_iff, dueBy_iff, dueBy_iff] at hdue
    rcases hdue with ⟨due, rfl, hle⟩ | ⟨due, rfl, hle⟩ | ⟨due, rfl, hle⟩ | hle
    · have := localChangeDue_ok hstate hs.last
      omega
    · obtain ⟨lastMs, hlast, rfl⟩ := Option.map_eq_some_iff.mp (deadlineAfter_ok hretransmission).symm
      have := hunacknowledged lastMs hlast
      omega
    · obtain ⟨neededAtMs, hneeded, rfl⟩ := Option.map_eq_some_iff.mp (deadlineAfter_ok hack).symm
      have := hs.acknowledged neededAtMs hneeded
      simp only [maxAcknowledgementDelayMs] at hle
      omega
    · rw [checkedDeadline_ok hheartbeat, hs.last, Option.getD_some, heartbeatIntervalMs] at hle
      omega

/-- A deferred send waits for its time. -/
theorem le_of_send {notBefore nowMs : Nat} {timing : RttEstimator} {unacknowledgedMs : Option Nat} {plan : WakePlan}
    {s : SendScheduler} (hs : s.sendNotBeforeMs = some notBefore)
    (h : s.pollAt nowMs timing unacknowledgedMs = .ok (.send plan)) : notBefore ≤ nowMs := by
  obtain ⟨_, _, _, _, -, -, -, -, hanswers⟩ := pollAt_ok h
  cases hanswers with
  | send _ _ _ _ hallowed => exact hallowed notBefore hs

/-- A committed send is the last one. -/
theorem wp_commitSend_sentAt (plan : WakePlan) (s : SendScheduler) :
    wp (commitSend plan) (fun _ t => SentAt plan.plannedAtMs t) (fun _ _ => True) s := by
  simp only [commitSend, wp_bind, wp_get, wp_ite, wp_modify, wp_throw]
  refine ⟨fun _ => trivial, fun hfresh => (wp_nextGeneration s).mono (fun _ t h => ?_) fun _ _ _ => trivial⟩
  obtain ⟨rfl, -⟩ := h
  refine ⟨rfl, Nat.le_of_eq (by_contra fun hne => hfresh (Or.inr hne)), ?_⟩
  rintro _ ⟨⟩

/-- A send is deferred from a time that is not before the last one that was observed. -/
theorem wp_deferSend (nowMs delayMs : Nat) (s : SendScheduler) :
    wp (deferSend nowMs delayMs)
      (fun _ t => s.lastObservedMs ≤ nowMs ∧ t.sendNotBeforeMs = some (nowMs + delayMs)) (fun _ _ => True) s := by
  simp only [deferSend, wp_bind, wp_ofExcept, wp_modify]
  refine ⟨fun notBefore hdeadline => (wp_observeTime nowMs s).mono (fun _ t h => ?_) fun _ _ _ => trivial, fun _ _ => trivial⟩
  exact ⟨h.1, congrArg some (checkedDeadline_ok hdeadline)⟩

end SendScheduler
end MoshClient
