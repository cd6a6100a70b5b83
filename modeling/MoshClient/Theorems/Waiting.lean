import MoshClient.Theorems.Pacing
import MoshClient.Theorems.Prediction
import MoshClient.Theorems.Reachability
import MoshClient.Waiting

/-! The waits of the two loops. A pass advances each of its timers to the present, and what is due is then done, so
    that every deadline it waits for lies ahead. A local shutdown waits no longer than until its deadline, which
    is fixed when it starts. -/

namespace MoshClient
open Machine Limits Effect SessionDriver Simulation

variable {T : Type} {p : Platform T}

/-! ### Deadlines -/

namespace LocalPrediction

theorem lt_earlier {nowMs deadline : Nat} {a b : Option Nat} (ha : ∀ d, a = some d → nowMs < d)
    (hb : ∀ d, b = some d → nowMs < d) (h : earlier a b = some deadline) : nowMs < deadline := by
  cases a with
  | none => exact hb deadline h
  | some a =>
    cases b with
    | none =>
      cases h
      exact ha _ rfl
    | some b =>
      cases h
      exact Nat.lt_min.mpr ⟨ha _ rfl, hb _ rfl⟩

/-- What has expired is gone. -/
theorem lt_expirationDeadlineMs {self : LocalPrediction T} {nowMs deadline : Nat}
    (h : (self.expire nowMs).2.expirationDeadlineMs = some deadline) : nowMs < deadline := by
  rcases expire_cases self nowMs with hexpire | ⟨hexpire, hlive⟩
  · rw [hexpire] at h
    unfold expirationDeadlineMs at h
    split at h <;> cases h
  · rw [hexpire] at h
    exact hlive deadline h

/-- The glitch of a confirmed prediction is flagged when it is due. -/
theorem lt_glitchDeadlineMs {self : LocalPrediction T} {nowMs : Nat} {prediction : PendingPrediction}
    (hconfirmed : (self.updateGlitch nowMs).confidence = .confirmed)
    (hhead : (self.updateGlitch nowMs).pending.head? = some prediction)
    (hglitch : (self.updateGlitch nowMs).adaptiveGlitch ≠ true) :
    nowMs < saturatingAdd prediction.createdAtMs adaptivePredictionGlitchMs := by
  obtain ⟨glitch, heq⟩ := updateGlitch_eq self nowMs
  have hconfirmed : self.confidence = .confirmed := by
    rw [heq] at hconfirmed
    exact hconfirmed
  have hhead : self.pending.head? = some prediction := by
    rw [heq] at hhead
    exact hhead
  unfold updateGlitch at hglitch
  split at hglitch
  · rename_i hempty
    rw [List.isEmpty_iff.mp hempty] at hhead
    cases hhead
  · split at hglitch
    · exact absurd rfl hglitch
    · rename_i hdue
      simpa [hconfirmed, hhead] using hdue

/-- After `expire` and `update_policy` the next deadline lies ahead. -/
theorem lt_nextDeadlineMs {self : LocalPrediction T} {nowMs deadline : Nat} {frameIntervalMs : Option Nat}
    (h : ((self.expire nowMs).2.updatePolicy nowMs frameIntervalMs).2.nextDeadlineMs = some deadline) :
    nowMs < deadline := by
  have hexpired : ∀ d, (self.expire nowMs).2.expirationDeadlineMs = some d → nowMs < d := fun _ => lt_expirationDeadlineMs
  generalize (self.expire nowMs).2 = expired at h hexpired
  obtain ⟨slowLink, glitch, hpolicy⟩ := updatePolicy_eq expired nowMs frameIntervalMs
  refine lt_earlier (fun d hd => ?_) (fun d hd => ?_) h
  · rw [hpolicy] at hd
    exact hexpired d hd
  · split at hd
    · rename_i hreported
      obtain ⟨hmode, hconfirmed, -, hglitch⟩ := hreported
      obtain ⟨prediction, hhead, rfl⟩ := Option.map_eq_some_iff.mp hd
      have hadaptive : expired.mode = .adaptive := by
        rw [hpolicy] at hmode
        exact hmode
      have hupdated : (expired.updatePolicy nowMs frameIntervalMs).2 =
          (expired.updateSlowLink frameIntervalMs).updateGlitch nowMs := by
        unfold updatePolicy
        dsimp only
        rw [if_neg (not_not.mpr hadaptive)]
      rw [hupdated] at hconfirmed hhead hglitch
      exact lt_glitchDeadlineMs hconfirmed hhead hglitch
    · cases hd

end LocalPrediction

/-! ### The wait of `run` -/

namespace SessionDriver

variable {s : SessionDriver T}

theorem lt_minDeadline {nowMs timeMs : Nat} {deadline : Option Nat} (ht : nowMs < timeMs)
    (hd : ∀ d, deadline = some d → nowMs < d) : nowMs < minDeadline timeMs deadline := by
  cases deadline with
  | none => exact ht
  | some d => exact Nat.lt_min.mpr ⟨ht, hd d rfl⟩

theorem reachability_requestOutput (requested : Bool) (s : SessionDriver T) :
    (requestOutput requested s).reachability = s.reachability := by
  cases requested <;> rfl

theorem prediction_requestOutput (requested : Bool) (s : SessionDriver T) :
    (requestOutput requested s).prediction = s.prediction := by
  cases requested <;> rfl

/-- The timers of the driver have been advanced to the present. -/
structure Advanced (nowMs : Nat) (s : SessionDriver T) : Prop where
  reachability : ∀ deadline, s.reachability.nextDeadlineMs = .ok (some deadline) → nowMs < deadline
  prediction : ∀ deadline, s.prediction.nextDeadlineMs = some deadline → nowMs < deadline

theorem wp_publishReachability (nowMs : Nat) (s : SessionDriver T) :
    wp (publishReachability nowMs) (fun _ t => t.reachability.Calculates nowMs t.reachability.current)
      (fun _ _ => True) s := by
  rw [publishReachability, wp_bind, onReachability, wp_zoom]
  refine (ReachabilityTracker.wp_update nowMs s.reachability).mono (fun published r h => ?_) fun _ _ _ => trivial
  cases published with
  | none => exact h
  | some reachability => exact h

theorem wp_beginPass_advanced (elapsedMs : Nat) (s : SessionDriver T) :
    wp (beginPass elapsedMs) (fun now t => now = elapsedMs ∧ Advanced now t) (fun _ _ => True) s := by
  rw [beginPass, wp_bind]
  refine (wp_nowMs elapsedMs s).mono (fun now s' h => ?_) fun _ _ _ => trivial
  obtain ⟨rfl, -, rfl⟩ := h
  rw [wp_bind]
  refine (wp_publishReachability now s').mono (fun _ t ht => ?_) fun _ _ _ => trivial
  rw [wp_bind, wp_get, wp_ite]
  refine ⟨fun _ => trivial, fun hattached => ?_⟩
  rw [wp_bind, onReassembler, wp_zoom]
  refine wp_intro (fun _ reassembler _ => ?_) fun _ _ _ => trivial
  rw [wp_bind, wp_modify, wp_bind, wp_modify, wp_pure]
  refine ⟨rfl, fun deadline hdeadline => ?_, fun deadline hdeadline => ?_⟩
  · rw [updatePredictionPolicy, reachability_requestOutput, expirePrediction, reachability_requestOutput] at hdeadline
    exact t.reachability.lt_nextDeadlineMs ht (Bool.eq_false_iff.mpr hattached) hdeadline
  · rw [updatePredictionPolicy, prediction_requestOutput, expirePrediction, prediction_requestOutput] at hdeadline
    exact LocalPrediction.lt_nextDeadlineMs hdeadline

theorem wp_runWait {nowMs wakeAtMs : Nat} (hs : Advanced nowMs s) (hwake : nowMs < wakeAtMs) :
    wp (runWait nowMs wakeAtMs) (fun wait _ => nowMs < wait.wakeAtMs) (fun _ _ => True) s := by
  rw [runWait, wp_bind, wp_get, wp_bind, wp_ofExcept]
  refine ⟨fun reachabilityDeadline hreachability => ?_, fun _ _ => trivial⟩
  have hdeadlines : nowMs < minDeadline (minDeadline wakeAtMs s.prediction.nextDeadlineMs) reachabilityDeadline :=
    lt_minDeadline (lt_minDeadline hwake hs.prediction) fun d hd => hs.reachability d (hd ▸ hreachability)
  rw [wp_pure]
  dsimp only
  split
  · exact hdeadlines
  · rename_i hdisabled
    exact Nat.lt_min.mpr ⟨hdeadlines, by simpa using hdisabled⟩

/-- A pass of `run` waits for a time that lies ahead. -/
theorem wp_pass_wait (env : Transmission) (elapsedMs : Nat) (s : SessionDriver T) :
    wp (pass p env elapsedMs) (fun outcome _ => ∀ wait, outcome = .wait wait → elapsedMs < wait.wakeAtMs)
      (fun _ _ => True) s := by
  rw [wp_pass_iff]
  refine (wp_beginPass_advanced elapsedMs s).mono (fun now t ht => ?_) fun _ _ _ => trivial
  obtain ⟨rfl, hadvanced⟩ := ht
  rw [pollScheduler, wp_bind, wp_get, onScheduler, wp_zoom]
  refine (SendScheduler.wp_poll_answer now _ _ t.scheduler).mono (fun answer scheduler h => ?_) fun _ _ _ => trivial
  obtain ⟨-, -, hanswer⟩ := h
  cases answer with
  | send plan => exact wp_bind_of_forall (by rintro _ _ _ ⟨⟩) fun _ _ => trivial
  | pending wakeAtMs =>
    have hpolled : Advanced now { t with scheduler := scheduler } := ⟨hadvanced.reachability, hadvanced.prediction⟩
    rw [finishPass, wp_bind]
    refine (wp_runWait hpolled (SendScheduler.lt_of_pending hanswer)).mono ?_ fun _ _ h => h
    rintro wait _ hwait _ ⟨⟩
    exact hwait

/-! ### The wait of `run_local_shutdown` -/

/-- The next shutdown request is sent later than this one. -/
theorem wp_requestShutdown (env : Transmission) (now : Nat) (htimely : Timely s) (hclock : now ≤ env.elapsedAfterMs) :
    wp (requestShutdown p env now) (fun next _ => ∀ nextSendMs, next = some nextSendMs → now < nextSendMs)
      (fun _ _ => True) s := by
  rw [requestShutdown, wp_bind]
  refine (timely_sender (frame_sendShutdownRequest p env now) s htimely).mono (fun outcome t ht => ?_) fun _ _ h => h
  cases outcome with
  | sent =>
    rw [wp_bind, wp_get, wp_bind, wp_ofOption]
    refine ⟨fun next hnext => ?_, fun _ => trivial⟩
    obtain ⟨rfl, -⟩ := checkedAdd_eq_some.mp hnext
    have hbound : 50 ≤ t.datagramTiming.estimator.retransmissionTimeoutMs := ht
    rintro _ ⟨⟩
    omega
  | cancelled => rintro _ ⟨⟩
  | deferred =>
    rw [wp_bind]
    refine (wp_nowMs env.elapsedAfterMs t).mono (fun failedAtMs t' h => ?_) fun _ _ _ => trivial
    obtain ⟨rfl, -, rfl⟩ := h
    rw [wp_bind, wp_get, wp_bind, wp_ofOption]
    refine ⟨fun next hnext => ?_, fun _ => trivial⟩
    obtain ⟨rfl, -⟩ := checkedAdd_eq_some.mp hnext
    have hbound : 1000 ≤ t'.ioRetryMs := Nat.le_max_right _ _
    rintro _ ⟨⟩
    omega

theorem shutdownWait_bounds {nowMs : Nat} (progress : LocalShutdown) (hsend : nowMs < progress.nextSendMs)
    (hdeadline : nowMs < progress.deadlineMs) (s : SessionDriver T) :
    nowMs < (s.shutdownWait nowMs progress).wakeAtMs ∧ (s.shutdownWait nowMs progress).wakeAtMs ≤ progress.deadlineMs := by
  have hwake := Nat.lt_min.mpr ⟨hsend, hdeadline⟩
  unfold shutdownWait
  dsimp only
  split
  · exact ⟨hwake, Nat.min_le_right _ _⟩
  · rename_i hdisabled
    exact ⟨Nat.lt_min.mpr ⟨hwake, by simpa using hdisabled⟩, (Nat.min_le_left _ _).trans (Nat.min_le_right _ _)⟩

/-- A pass of the shutdown loop waits for a time that lies ahead, and not after its deadline. -/
theorem wp_shutdownPass_wait (env : Transmission) (elapsedMs : Nat) (progress : LocalShutdown) (htimely : Timely s)
    (hclock : elapsedMs ≤ env.elapsedAfterMs) :
    wp (shutdownPass p env elapsedMs progress)
      (fun outcome _ => ∀ next wait, outcome = .wait next wait →
        elapsedMs < wait.wakeAtMs ∧ wait.wakeAtMs ≤ progress.deadlineMs)
      (fun _ _ => True) s := by
  rw [shutdownPass, wp_bind]
  refine (wp_nowMs elapsedMs s).mono (fun now s' h => ?_) fun _ _ _ => trivial
  obtain ⟨rfl, -, rfl⟩ := h
  rw [wp_ite]
  refine ⟨fun _ => ?_, fun hdeadline => ?_⟩
  · rintro _ _ ⟨⟩
  · rw [wp_ite]
    refine ⟨fun _ => ?_, fun hsend => ?_⟩
    · rw [wp_bind]
      refine (wp_requestShutdown env now htimely hclock).mono (fun next t hnext => ?_) fun _ _ h => h
      cases next with
      | none => rintro _ _ ⟨⟩
      | some nextSendMs =>
        rw [wp_bind, wp_get, wp_pure]
        rintro _ _ ⟨⟩
        exact shutdownWait_bounds ⟨progress.deadlineMs, nextSendMs⟩ (hnext nextSendMs rfl) (Nat.lt_of_not_le hdeadline) t
    · rw [wp_bind, wp_get, wp_pure]
      rintro _ _ ⟨⟩
      exact shutdownWait_bounds progress (Nat.lt_of_not_le hsend) (Nat.lt_of_not_le hdeadline) s'

theorem wp_shutdownPass_deadline (env : Transmission) (elapsedMs : Nat) (progress : LocalShutdown) (s : SessionDriver T) :
    wp (shutdownPass p env elapsedMs progress)
      (fun outcome _ => ∀ next wait, outcome = .wait next wait → next.deadlineMs = progress.deadlineMs)
      (fun _ _ => True) s := by
  refine wp_bind_of_forall (fun now t => ?_) fun _ _ => trivial
  rw [wp_ite, wp_ite]
  refine ⟨fun _ => ?_, fun _ => ⟨fun _ => ?_, fun _ => ?_⟩⟩
  · rintro _ _ ⟨⟩
  · refine wp_bind_of_forall (fun next u => ?_) fun _ _ => trivial
    cases next with
    | none => rintro _ _ ⟨⟩
    | some nextSendMs =>
      rintro _ _ ⟨⟩
      rfl
  · rintro _ _ ⟨⟩
    rfl

theorem wp_beginLocalShutdown (elapsedMs : Nat) (s : SessionDriver T) :
    wp (beginLocalShutdown elapsedMs)
      (fun progress _ => progress.deadlineMs = elapsedMs + gracefulCloseAckTimeoutMs) (fun _ _ => True) s := by
  rw [beginLocalShutdown, wp_bind]
  refine (wp_nowMs elapsedMs s).mono (fun now t h => ?_) fun _ _ _ => trivial
  simp only [wp_bind, wp_ofOption, wp_pure]
  refine ⟨fun deadlineMs hdeadline => ?_, fun _ => trivial⟩
  rw [← h.1]
  exact (checkedAdd_eq_some.mp hdeadline).1

end SessionDriver

/-! ### From one loop to the other -/

namespace Session

variable {s t : Session T} {input : TaskInput}

/-- How the loop of the task goes on. -/
inductive Continues (input : TaskInput) : TaskLoop → TaskLoop → Prop where
  | same (loop : TaskLoop) : Continues input loop loop
  | retry (progress next : LocalShutdown) (hdeadline : next.deadlineMs = progress.deadlineMs) :
      Continues input (.localShutdown progress) (.localShutdown next)
  | begin (progress : LocalShutdown) (hdeadline : progress.deadlineMs = input.elapsedMs + gracefulCloseAckTimeoutMs) :
      Continues input .run (.localShutdown progress)

theorem drives_loop (h : Drives p input s t) :
    ∀ next, t.task.loop = some next → ∃ loop, s.task.loop = some loop ∧ Continues input loop next := by
  have hperform : ∀ {α : Type} {m : Driving T α} {after : α → TaskState} {loop : TaskLoop} (u : Session T),
      s.task.loop = some loop →
      wp m (fun a _ => ∀ next, (after a).loop = some next → Continues input loop next) (fun _ _ => True) u.driver →
      ∀ next, (u.perform m after).task.loop = some next → ∃ loop, s.task.loop = some loop ∧ Continues input loop next := by
    intro α m after loop u hloop hm
    refine perform_of_wp (I := fun task _ => ∀ next, task.loop = some next →
      ∃ loop, s.task.loop = some loop ∧ Continues input loop next) (hm.mono (fun a _ ha next hnext => ?_) fun _ _ _ => ?_)
    · exact ⟨loop, hloop, ha next hnext⟩
    · rintro _ ⟨⟩
  have hsame : ∀ {α : Type} {m : Driving T α} {d : SessionDriver T} {after : α → TaskState} {loop : TaskLoop},
      (∀ a next, (after a).loop = some next → next = loop) →
      wp m (fun a _ => ∀ next, (after a).loop = some next → Continues input loop next) (fun _ _ => True) d := by
    intro α m d after loop hafter
    refine wp_intro (fun a _ _ next hnext => ?_) fun _ _ _ => trivial
    rw [hafter a next hnext]
    exact .same loop
  cases h with
  | rest => exact fun next hnext => ⟨next, hnext, .same next⟩
  | leave => rintro _ ⟨⟩
  | poll loop wait stage stage' htask =>
    rintro _ ⟨⟩
    exact ⟨loop, by rw [htask]; rfl, .same loop⟩
  | wake loop wait htask =>
    rintro _ ⟨⟩
    exact ⟨loop, by rw [htask]; rfl, .same loop⟩
  | pass htask =>
    refine hperform s (by rw [htask]; rfl) (hsame fun outcome next hnext => ?_)
    cases outcome <;> exact (Option.some.inj hnext).symm
  | shutdownPass progress htask =>
    refine hperform _ (by rw [htask]; rfl) ((wp_shutdownPass_deadline _ _ progress _).mono ?_ fun _ _ h => h)
    intro outcome _ houtcome next hnext
    cases outcome with
    | exit exit => cases hnext
    | wait next wait =>
      cases hnext
      exact .retry progress next (houtcome next wait rfl)
  | command loop wait command queue htask =>
    exact hperform _ (by rw [htask]; rfl) (hsame fun _ next hnext => (Option.some.inj hnext).symm)
  | begin wait htask =>
    refine hperform s (by rw [htask]; rfl) ((wp_beginLocalShutdown _ _).mono ?_ fun _ _ h => h)
    rintro progress _ hdeadline _ ⟨⟩
    exact .begin progress hdeadline
  | output loop wait htask =>
    exact hperform s (by rw [htask]; rfl) (hsame fun _ next hnext => (Option.some.inj hnext).symm)
  | receive loop wait received _ _ _ htask =>
    refine hperform s (by rw [htask]; rfl) (hsame fun after next hnext => ?_)
    cases after with
    | again => exact (Option.some.inj hnext).symm
    | finish reason => cases hnext
    | exit reason => cases hnext
  | finish => rintro _ ⟨⟩
  | lastOutput =>
    refine perform_of_wp (I := fun task _ => ∀ next, task.loop = some next →
      ∃ loop, s.task.loop = some loop ∧ Continues input loop next) (wp_intro (fun _ _ _ => ?_) fun _ _ _ => ?_)
    · rintro _ ⟨⟩
    · rintro _ ⟨⟩

/-- What holds of the loop however it goes on holds in every run. -/
theorem loop_run {Q : TaskLoop → Prop} (hQ : ∀ {input loop next}, Q loop → Continues input loop next → Q next)
    (hs : ∀ loop, s.task.loop = some loop → Q loop) (actions : List SessionAction) :
    ∀ loop, (s.run p actions).task.loop = some loop → Q loop := by
  refine invariant_run (I := fun s => ∀ loop, s.task.loop = some loop → Q loop) (fun {s t} hwork hs => ?_)
    (fun {input s t} hs hdrives next hnext => ?_) hs actions
  · have htask : t.task = s.task := congrArg (fun x => x.2.1) hwork
    rw [htask]
    exact hs
  · obtain ⟨loop, hloop, hcontinues⟩ := drives_loop hdrives next hnext
    exact hQ (hs loop hloop) hcontinues

/-- The deadline of a local shutdown is fixed when it starts. -/
theorem deadline_run {progress next : LocalShutdown} {actions : List SessionAction}
    (hs : s.task.loop = some (.localShutdown progress))
    (h : (s.run p actions).task.loop = some (.localShutdown next)) : next.deadlineMs = progress.deadlineMs := by
  refine loop_run (Q := fun loop => ∃ next, loop = .localShutdown next ∧ next.deadlineMs = progress.deadlineMs)
    (fun {input loop next} hloop hcontinues => ?_) (fun loop hloop => ?_) actions _ h |>.elim ?_
  · obtain ⟨before, rfl, hbefore⟩ := hloop
    cases hcontinues with
    | same => exact ⟨before, rfl, hbefore⟩
    | retry _ next hdeadline => exact ⟨next, rfl, hdeadline.trans hbefore⟩
  · cases hs.symm.trans hloop
    exact ⟨progress, rfl, rfl⟩
  · rintro next' ⟨hnext, hdeadline⟩
    cases hnext
    exact hdeadline

/-- A run that is in the shutdown loop has started it, and waits for it until its timeout. -/
theorem shutdownStartedMs_of_loop {progress : LocalShutdown} {actions : List SessionAction} (hs : s.task.loop = some .run)
    (h : (s.run p actions).task.loop = some (.localShutdown progress)) :
    ∃ startedMs, s.shutdownStartedMs p actions = some startedMs ∧
      progress.deadlineMs = startedMs + gracefulCloseAckTimeoutMs := by
  induction actions generalizing s with
  | nil => cases hs.symm.trans h
  | cons action actions ih =>
    have hrun : (s.run p (action :: actions)) = (s.step p action).run p actions := rfl
    rw [hrun] at h
    unfold shutdownStartedMs
    rcases work_step (p := p) action s with ⟨input, rfl⟩ | hwork
    · cases hloop : (s.step p (.drive input)).task.loop with
      | none =>
        have hnone : ∀ loop, (s.step p (.drive input)).task.loop = some loop → False := by
          rw [hloop]
          rintro _ ⟨⟩
        exact (loop_run (fun hfalse _ => hfalse) hnone actions _ h).elim
      | some next =>
        obtain ⟨loop, hbefore, hcontinues⟩ := drives_loop (drives_drive input s) next hloop
        cases hs.symm.trans hbefore
        have hdrive : (s.drive p input).task.loop = some next := hloop
        cases hcontinues with
        | same =>
          simp only [startsShutdownAt, hs, hdrive]
          exact ih hloop h
        | begin began hdeadline =>
          simp only [startsShutdownAt, hs, hdrive]
          exact ⟨input.elapsedMs, rfl, (deadline_run hloop h).trans hdeadline⟩
    · have htask : (s.step p action).task = s.task := congrArg (fun x => x.2.1) hwork
      have hstarts : s.startsShutdownAt p action = none := by
        cases action with
        | drive input =>
          have hdrive : (s.drive p input).task = s.task := htask
          simp only [startsShutdownAt, hdrive, hs]
        | _ => rfl
      rw [hstarts]
      exact ih (htask ▸ hs) h

/-! ### Every wait -/

/-- A step that calls `wait_next` makes a pass of its loop. -/
theorem waitNextAt_some {loop : TaskLoop} {wait : Wait} (h : s.waitNextAt p input = some (loop, wait)) :
    ∃ passing stage, s.task = .pass passing ∧ (s.pass p input passing).task = .waiting loop wait stage := by
  unfold waitNextAt at h
  split at h
  · rename_i passing loop' wait' stage htask hdrive
    cases h
    unfold drive at hdrive
    rw [htask] at hdrive
    dsimp only at hdrive
    split at hdrive
    · cases hdrive
    · exact ⟨passing, stage, htask, hdrive⟩
  · cases h

theorem wakeAtMs_pass {loop : TaskLoop} {wait : Wait} {stage : PollStage}
    (h : (s.pass p input .run).task = .waiting loop wait stage) : loop = .run ∧ input.elapsedMs < wait.wakeAtMs := by
  refine perform_of_wp (I := fun task _ => ∀ loop wait stage, task = .waiting loop wait stage →
    loop = .run ∧ input.elapsedMs < wait.wakeAtMs) ((wp_pass_wait input.env input.elapsedMs s.driver).mono ?_ ?_) _ _ _ h
  · intro outcome _ houtcome loop wait stage htask
    cases outcome with
    | sendAttempted => cases htask
    | wait wait =>
      cases htask
      exact ⟨rfl, houtcome wait rfl⟩
  · rintro _ _ _ _ _ _ ⟨⟩

theorem wakeAtMs_shutdownPass {progress : LocalShutdown} {loop : TaskLoop} {wait : Wait} {stage : PollStage}
    (htimely : Timely s.driver) (hclock : input.elapsedMs ≤ input.env.elapsedAfterMs)
    (h : (s.pass p input (.localShutdown progress)).task = .waiting loop wait stage) :
    input.elapsedMs < wait.wakeAtMs ∧ wait.wakeAtMs ≤ progress.deadlineMs := by
  refine perform_of_wp
    (s := { s with
      requests := s.requests ++ transmittedBy (shutdownPass p input.env input.elapsedMs progress) s.driver })
    (I := fun task _ => ∀ loop wait stage, task = .waiting loop wait stage →
      input.elapsedMs < wait.wakeAtMs ∧ wait.wakeAtMs ≤ progress.deadlineMs)
    ((wp_shutdownPass_wait input.env input.elapsedMs progress htimely hclock).mono ?_ ?_) _ _ _ h
  · intro outcome _ houtcome loop wait stage htask
    cases outcome with
    | exit exit => cases htask
    | wait next wait =>
      cases htask
      exact houtcome next wait rfl
  · rintro _ _ _ _ _ _ ⟨⟩

theorem ended_shutdownPass {progress : LocalShutdown} (hclock : input.elapsedMs < 2 ^ 64)
    (hdeadline : progress.deadlineMs ≤ input.elapsedMs) :
    (s.perform (shutdownPass p input.env input.elapsedMs progress) ShutdownPassOutcome.next).task =
      .ended (.ok .localClosed) := by
  refine perform_of_wp (I := fun task _ => task = .ended (.ok .localClosed)) ?_
  rw [shutdownPass, nowMs, if_pos hclock, wp_bind, wp_pure, wp_ite]
  exact ⟨fun _ => rfl, fun h => absurd hdeadline h⟩

/-- The waits of a session that has come to `s` after the local shutdown was started at `startedMs`. -/
structure NeverBusy (p : Platform T) (s : Session T) (startedMs : Option Nat) (input : TaskInput) : Prop where
  /-- Each wait is for a time that lies ahead. -/
  ahead : ∀ loop wait, s.waitNextAt p input = some (loop, wait) → input.elapsedMs < wait.wakeAtMs
  /-- A local shutdown waits until its timeout. -/
  bounded : ∀ progress wait, s.waitNextAt p input = some (.localShutdown progress, wait) →
    ∃ started, startedMs = some started ∧ wait.wakeAtMs ≤ started + gracefulCloseAckTimeoutMs
  /-- After its timeout, the loop of a local shutdown returns. -/
  returns : ∀ progress, s.task = .pass (.localShutdown progress) → ∃ started, startedMs = some started ∧
    (started + gracefulCloseAckTimeoutMs ≤ input.elapsedMs → input.elapsedMs < 2 ^ 64 →
      (s.drive p input).task = .ended (.ok (if s.cancellation then .cancelled else .localClosed)))

/-- Whatever a session has done, its next wait is for a time that lies ahead, and a local shutdown ends with its
    timeout. -/
theorem never_busy_waits (c : Connection p) (actions : List SessionAction) (input : ClockedInput) :
    NeverBusy p ((start c.driver).run p actions) ((start c.driver).shutdownStartedMs p actions) input.toTaskInput := by
  have hstarted : ∀ progress, ((start c.driver).run p actions).task.loop = some (.localShutdown progress) →
      ∃ started, (start c.driver).shutdownStartedMs p actions = some started ∧
        progress.deadlineMs = started + gracefulCloseAckTimeoutMs := fun _ => shutdownStartedMs_of_loop rfl
  have htimely : ∀ {loop}, ((start c.driver).run p actions).task = .pass loop →
      Timely ((start c.driver).run p actions).driver := by
    intro loop htask
    refine timely_run c actions fun e he => ?_
    cases htask.symm.trans he
  generalize (start c.driver).run p actions = s at hstarted htimely ⊢
  refine ⟨fun loop wait h => ?_, fun progress wait h => ?_, fun progress htask => ?_⟩
  · obtain ⟨passing, stage, htask, hwait⟩ := waitNextAt_some h
    cases passing with
    | run => exact (wakeAtMs_pass hwait).2
    | localShutdown progress => exact (wakeAtMs_shutdownPass (htimely htask) input.ordered hwait).1
  · obtain ⟨passing, stage, htask, hwait⟩ := waitNextAt_some h
    cases passing with
    | run => cases (wakeAtMs_pass hwait).1
    | localShutdown before =>
      obtain ⟨started, hstart, hdeadline⟩ := hstarted before (by rw [htask]; rfl)
      exact ⟨started, hstart, hdeadline ▸ (wakeAtMs_shutdownPass (htimely htask) input.ordered hwait).2⟩
  · obtain ⟨started, hstart, hdeadline⟩ := hstarted progress (by rw [htask]; rfl)
    refine ⟨started, hstart, fun hle hclock => ?_⟩
    unfold drive
    rw [htask]
    by_cases hcancelled : s.cancellation = true
    · simp only [hcancelled, if_true]
      rfl
    · simp only [hcancelled]
      exact ended_shutdownPass hclock (hdeadline ▸ hle)

-- A session that has just been opened waits until its first state is collected.
example : ((start Connection.small.driver).waitNextAt Platform.small
      ⟨3, ⟨fun _ => false, fun _ => .ok 0, 3⟩, .timer⟩).map Prod.snd = some ⟨15, false, true⟩ := by
  decide +kernel

end Session
end MoshClient
