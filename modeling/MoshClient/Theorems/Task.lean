import MoshClient.Session
import MoshClient.Theorems.Run

/-! The task of a session, one step at a time: what each step of its two loops does to the driver, and where
    the task goes on. The handle and its threads leave the task alone, so a property of the task and its
    driver holds in every run when each of these steps keeps it. -/

namespace MoshClient
open Effect SessionDriver Simulation

variable {T α : Type} {p : Platform T}

/-! ### Where the task goes on -/

/-- After a pass of `run`. -/
def PassOutcome.next : PassOutcome → TaskState
  | .sendAttempted => .pass .run
  | .wait wait => .waiting .run wait .cancellation

/-- After a pass of `run_local_shutdown`. -/
def ShutdownPassOutcome.next : ShutdownPassOutcome → TaskState
  | .exit reason => .ended (.ok reason)
  | .wait progress wait => .waiting (.localShutdown progress) wait .cancellation

/-- After a datagram in either loop. -/
def AfterDatagram.next (loop : TaskLoop) : AfterDatagram → TaskState
  | .again => .pass loop
  | .finish reason => .finishing reason
  | .exit reason => .ended (.ok reason)

namespace Session

variable {s t : Session T}

/-- What a step of the task can be, with what it observes. -/
inductive Drives (p : Platform T) (input : TaskInput) (s : Session T) : Session T → Prop where
  | rest : Drives p input s s
  /-- The session is cancelled, or its owner is gone. -/
  | leave (exit : SessionExit) (hexit : exit = .cancelled ∨ exit = .ownerDropped)
      (halive : s.task.isEnded = false) : Drives p input s (s.exit exit)
  | poll (loop : TaskLoop) (wait : Wait) (stage stage' : PollStage) (htask : s.task = .waiting loop wait stage) :
      Drives p input s { s with task := .waiting loop wait stage' }
  | wake (loop : TaskLoop) (wait : Wait) (htask : s.task = .waiting loop wait .rest) :
      Drives p input s { s with task := .pass loop }
  | pass (htask : s.task = .pass .run) :
      Drives p input s (s.perform (SessionDriver.pass p input.env input.elapsedMs) PassOutcome.next)
  | shutdownPass (progress : LocalShutdown) (htask : s.task = .pass (.localShutdown progress)) :
      Drives p input s
        ({ s with
            requests := s.requests ++ transmittedBy (shutdownPass p input.env input.elapsedMs progress) s.driver }.perform
          (shutdownPass p input.env input.elapsedMs progress) ShutdownPassOutcome.next)
  | command (loop : TaskLoop) (wait : Wait) (command : SessionCommand) (queue : List SessionCommand)
      (htask : s.task = .waiting loop wait .commands) (hqueue : s.queue = command :: queue) :
      Drives p input s
        ({ s with queue := queue, handled := s.handled ++ [command] }.perform
          (handleCommand p input.elapsedMs command) fun _ => .pass loop)
  | begin (wait : Wait) (htask : s.task = .waiting .run wait .gracefulClose) (hsignal : s.gracefulClose = true) :
      Drives p input s (s.perform (beginLocalShutdown input.elapsedMs) fun progress => .pass (.localShutdown progress))
  | output (loop : TaskLoop) (wait : Wait) (htask : s.task = .waiting loop wait .rest) :
      Drives p input s (s.perform (emitOutput p) fun _ => .pass loop)
  | receive (loop : TaskLoop) (wait : Wait) (received : Except ErrorKind (Bytes × SocketAddr))
      (decodedAtMs handledAtMs repliedAtMs : Nat) (htask : s.task = .waiting loop wait .rest)
      (hready : input.ready = .datagram received decodedAtMs handledAtMs repliedAtMs) :
      Drives p input s
        (s.perform (receive p input.env input.elapsedMs decodedAtMs handledAtMs repliedAtMs received loop)
          (AfterDatagram.next loop))
  | finish (exit : SessionExit) (htask : s.task = .finishing exit) (hpainted : s.driver.outputRequested = false) :
      Drives p input s (s.exit exit)
  | lastOutput (exit : SessionExit) (htask : s.task = .finishing exit) (hrequested : s.driver.outputRequested = true) :
      Drives p input s (s.perform (emitOutput p) fun _ => .ended (.ok exit))

theorem drives_pass (input : TaskInput) {loop : TaskLoop} (htask : s.task = .pass loop) :
    Drives p input s (s.pass p input loop) := by
  cases loop with
  | run => exact .pass htask
  | localShutdown progress => exact .shutdownPass progress htask

theorem drives_pollCommands (input : TaskInput) {loop : TaskLoop} {wait : Wait}
    (htask : s.task = .waiting loop wait .commands) : Drives p input s (s.pollCommands p input loop wait) := by
  unfold pollCommands
  split
  · split
    · exact .leave _ (Or.inr rfl) (by rw [htask]; rfl)
    · exact .poll loop wait _ _ htask
  · rename_i command queue hqueue
    exact .command loop wait command queue htask hqueue

theorem drives_pollRest (input : TaskInput) {loop : TaskLoop} {wait : Wait} (htask : s.task = .waiting loop wait .rest) :
    Drives p input s (s.pollRest p input loop wait) := by
  unfold pollRest
  split
  · exact .poll loop wait _ _ htask
  · exact .wake loop wait htask
  · split
    · exact .rest
    · split
      · exact .leave _ (Or.inr rfl) (by rw [htask]; rfl)
      · exact .output loop wait htask
  · rename_i received decodedAtMs handledAtMs repliedAtMs hready
    split
    · exact .rest
    · exact .receive loop wait received decodedAtMs handledAtMs repliedAtMs htask hready

theorem drives_finish (input : TaskInput) {exit : SessionExit} (htask : s.task = .finishing exit) :
    Drives p input s (s.finish p input exit) := by
  have halive : s.task.isEnded = false := by
    rw [htask]
    rfl
  unfold finish
  split
  · exact .finish exit htask (Bool.eq_false_iff.mpr ‹_›)
  · split
    · exact .leave _ (Or.inl rfl) halive
    · split
      · exact .leave _ (Or.inr rfl) halive
      · rename_i hrequested _ _
        split
        · exact .lastOutput exit htask (Decidable.of_not_not hrequested)
        · exact .rest

theorem drives_drive (input : TaskInput) (s : Session T) : Drives p input s (s.drive p input) := by
  unfold drive
  split
  · rename_i loop htask
    split
    · exact .leave _ (Or.inl rfl) (by rw [htask]; rfl)
    · exact drives_pass input htask
  · rename_i loop wait htask
    split
    · exact .leave _ (Or.inl rfl) (by rw [htask]; rfl)
    · exact .poll loop wait _ _ htask
  · exact drives_pollCommands input ‹_›
  · rename_i wait htask
    split
    · exact .begin wait htask ‹_›
    · exact .poll .run wait _ _ htask
  · rename_i progress wait htask
    exact .poll (.localShutdown progress) wait _ _ htask
  · exact drives_pollRest input ‹_›
  · exact drives_finish input ‹_›
  · exact .rest

/-! ### Runs -/

/-- The task, with what it has handled and requested. -/
def work (s : Session T) := (s.driver, s.task, s.handled, s.requests)

theorem work_send (i : Nat) (command : SessionCommand) (s : Session T) :
    (s.send i command).work = s.work ∧ (s.send i command).acceptedBeforeClose = s.acceptedBeforeClose := by
  unfold Session.send
  split
  · split <;> exact ⟨rfl, rfl⟩
  · exact ⟨rfl, rfl⟩

theorem work_stepLocked (i : Nat) (state : LockedState) (s : Session T) :
    (s.stepLocked i state).work = s.work ∧ (s.stepLocked i state).acceptedBeforeClose = s.acceptedBeforeClose := by
  cases state with
  | checking command =>
    simp only [Session.stepLocked]
    split <;> exact ⟨rfl, rfl⟩
  | flagging =>
    simp only [Session.stepLocked]
    split <;> exact ⟨rfl, rfl⟩
  | _ => exact ⟨rfl, rfl⟩

theorem work_stepThread (i : Nat) (s : Session T) :
    (s.stepThread i).work = s.work ∧ (s.stepThread i).acceptedBeforeClose = s.acceptedBeforeClose := by
  unfold Session.stepThread
  split
  · exact ⟨rfl, rfl⟩
  · exact ⟨rfl, rfl⟩
  · split
    · exact ⟨rfl, rfl⟩
    · split <;> exact ⟨rfl, rfl⟩
  · split <;> exact ⟨rfl, rfl⟩
  · split <;> exact ⟨rfl, rfl⟩
  · split
    · exact ⟨rfl, rfl⟩
    · split
      · exact work_stepLocked _ _ s
      · exact ⟨rfl, rfl⟩

theorem work_close (i : Nat) (s : Session T) :
    (s.close i).work = s.work ∧
      ∀ before, s.acceptedBeforeClose = some before → (s.close i).acceptedBeforeClose = some before := by
  unfold Session.close
  split
  · refine ⟨rfl, fun before hbefore => ?_⟩
    simp only [hbefore, Option.getD_some]
  · exact ⟨rfl, fun _ h => h⟩

theorem work_step (action : SessionAction) (s : Session T) :
    (∃ input, action = .drive input) ∨ (s.step p action).work = s.work := by
  cases action with
  | send i command => exact Or.inr (work_send i command s).1
  | close i => exact Or.inr (work_close i s).1
  | thread i => exact Or.inr (work_stepThread i s).1
  | cancel =>
    simp only [Session.step]
    split <;> exact Or.inr rfl
  | drop => exact Or.inr rfl
  | drive input => exact Or.inl ⟨input, rfl⟩
  | publish =>
    simp only [Session.step]
    split <;> exact Or.inr rfl

/-- What each step of the task keeps holds in every run. -/
theorem invariant_step {I : Session T → Prop} (hwork : ∀ {s t : Session T}, t.work = s.work → I s → I t)
    {action : SessionAction} (hdrive : ∀ input t, action = .drive input → Drives p input s t → I t) (hs : I s) :
    I (s.step p action) := by
  rcases work_step (p := p) action s with ⟨input, rfl⟩ | h
  · exact hdrive input _ rfl (drives_drive input s)
  · exact hwork h hs

theorem invariant_run {I : Session T → Prop} (hwork : ∀ {s t : Session T}, t.work = s.work → I s → I t)
    (hdrive : ∀ {input : TaskInput} {s t : Session T}, I s → Drives p input s t → I t) (hs : I s)
    (actions : List SessionAction) : I (s.run p actions) := by
  refine List.foldlRecOn actions (step p) hs fun u hu action _ => ?_
  exact invariant_step hwork (fun _ _ _ h => hdrive hu h) hu

/-! ### Methods of the driver -/

theorem perform_eq (m : Driving T α) (next : α → TaskState) (s : Session T) :
    ∃ task, s.perform m next = { s with driver := exec m s.driver, task := task } ∧
      ((∃ a, m s.driver = .ok a (exec m s.driver) ∧ task = next a) ∨
        ∃ e, m s.driver = .error e (exec m s.driver) ∧ task = .ended (.error e)) := by
  unfold perform exec
  cases h : m s.driver with
  | ok a driver => exact ⟨next a, rfl, Or.inl ⟨a, rfl, rfl⟩⟩
  | error e driver => exact ⟨.ended (.error e), rfl, Or.inr ⟨e, rfl, rfl⟩⟩

/-- A property of the task and its driver holds after a method if the method leads to it. -/
theorem perform_of_wp {I : TaskState → SessionDriver T → Prop} {m : Driving T α} {next : α → TaskState}
    (h : wp m (fun a d => I (next a) d) (fun e d => I (.ended (.error e)) d) s.driver) :
    I (s.perform m next).task (s.perform m next).driver := by
  unfold perform
  split
  · exact h.ok ‹_›
  · exact h.error ‹_›

/-- What every method of the driver keeps when it returns. -/
structure MethodsKeep (p : Platform T) (I : SessionDriver T → Prop) : Prop where
  pass : ∀ env elapsedMs, Preserves I (SessionDriver.pass p env elapsedMs)
  shutdownPass : ∀ env elapsedMs progress, Preserves I (SessionDriver.shutdownPass p env elapsedMs progress)
  command : ∀ elapsedMs command, Preserves I (handleCommand p elapsedMs command)
  begin : ∀ elapsedMs, Preserves I (beginLocalShutdown elapsedMs)
  output : Preserves I (emitOutput p)
  receive : ∀ env elapsedMs decodedAtMs handledAtMs repliedAtMs received loop,
    Preserves I (SessionDriver.receive p env elapsedMs decodedAtMs handledAtMs repliedAtMs received loop)

/-- What every method keeps when it returns holds until one fails. -/
theorem MethodsKeep.run {I : SessionDriver T → Prop} (h : MethodsKeep p I) (hs : I s.driver)
    (actions : List SessionAction) (hlive : ∀ e, (s.run p actions).task ≠ .ended (.error e)) : I (s.run p actions).driver := by
  refine invariant_run (I := fun s => (∀ e, s.task ≠ .ended (.error e)) → I s.driver) (fun {s t} hwork hs hlive => ?_)
    (fun {input s t} hs hdrives => ?_) (fun _ => hs) actions hlive
  · simp only [work, Prod.mk.injEq] at hwork
    rw [hwork.1]
    exact hs (hwork.2.1 ▸ hlive)
  · have hmethod : ∀ {α : Type} {m : Driving T α} (next : α → TaskState) (u : Session T), u.driver = s.driver →
        (∀ e, s.task ≠ .ended (.error e)) → Preserves I m →
        (∀ e, (u.perform m next).task ≠ .ended (.error e)) → I (u.perform m next).driver := by
      intro α m next u hu hlive hm
      refine perform_of_wp (I := fun task d => (∀ e, task ≠ .ended (.error e)) → I d) ?_
      rw [hu]
      exact (hm s.driver (hs hlive)).mono (fun _ _ ht _ => ht) fun e _ _ he => absurd rfl (he e)
    have hlive : ∀ {task : TaskState}, s.task = task → task.isEnded = false → ∀ e, s.task ≠ .ended (.error e) := by
      intro task htask hended e he
      rw [← htask, he] at hended
      cases hended
    cases hdrives with
    | rest => exact hs
    | leave exit hexit halive => exact fun _ => hs (hlive rfl halive)
    | poll _ _ _ _ htask => exact fun _ => hs (hlive htask rfl)
    | wake _ _ htask => exact fun _ => hs (hlive htask rfl)
    | pass htask => exact hmethod _ s rfl (hlive htask rfl) (h.pass _ _)
    | shutdownPass progress htask => exact hmethod _ _ rfl (hlive htask rfl) (h.shutdownPass _ _ progress)
    | command _ _ command _ htask => exact hmethod _ _ rfl (hlive htask rfl) (h.command _ command)
    | begin _ htask => exact hmethod _ s rfl (hlive htask rfl) (h.begin _)
    | output _ _ htask => exact hmethod _ s rfl (hlive htask rfl) h.output
    | receive loop _ received _ _ _ htask => exact hmethod _ s rfl (hlive htask rfl) (h.receive _ _ _ _ _ received loop)
    | finish _ htask => exact fun _ => hs (hlive htask rfl)
    | lastOutput _ htask => exact hmethod _ s rfl (hlive htask rfl) h.output

theorem requests_perform (m : Driving T α) (next : α → TaskState) (s : Session T) :
    (s.perform m next).requests = s.requests := by
  unfold perform
  split <;> rfl

theorem follows_receive (p : Platform T) (env : Transmission) (elapsedMs decodedAtMs handledAtMs repliedAtMs : Nat)
    (received : Except ErrorKind (Bytes × SocketAddr)) (loop : TaskLoop) :
    bookkeeping.Follows (receive p env elapsedMs decodedAtMs handledAtMs repliedAtMs received loop) := by
  refine (unseen_classifyReceive elapsedMs received).follows.bind fun classified => ?_
  cases classified with
  | none => exact (unseen_pure _).follows
  | some datagram =>
    cases loop with
    | run =>
      refine (follows_handleDatagram p _ _ _ _).bind fun outcome => ?_
      cases outcome with
      | «continue» => exact (unseen_pure _).follows
      | remoteShutdown =>
        refine (unseen_nowMs _).follows.bind fun now => (follows_sendShutdownAcknowledgement p env now).bind fun _ => ?_
        exact .ite (unseen_pure _).follows (unseen_pure _).follows
    | localShutdown progress =>
      refine (follows_handleShutdownDatagram p env _ _ _ _).bind fun exit => ?_
      split <;> exact (unseen_pure _).follows

theorem sound_perform {m : Driving T α} (hm : recording.Follows m) (next : α → TaskState)
    (hs : s.driver.ledger.Sound) : (s.perform m next).driver.ledger.Sound := by
  refine perform_of_wp (I := fun _ d => d.ledger.Sound) ?_
  exact (hm s.driver hs).mono (fun _ _ h => invariant_reaches hs h) fun _ _ h => invariant_reaches hs h.1

/-- The ledger of a session stays sound in every run, also after its end. -/
theorem sound_run (c : Connection p) (actions : List SessionAction) :
    ((start c.driver).run p actions).driver.ledger.Sound := by
  refine invariant_run (I := fun s => s.driver.ledger.Sound) (fun {s t} h hs => ?_) (fun {input s t} hs h => ?_)
    c.sound actions
  · have hdriver : t.driver = s.driver := congrArg Prod.fst h
    rw [hdriver]
    exact hs
  · have hb : ∀ {α : Type} {m : Driving T α} (next : α → TaskState), bookkeeping.Follows m →
        (s.perform m next).driver.ledger.Sound := fun next hm => sound_perform (recording_of_bookkeeping hm) next hs
    cases h with
    | rest => exact hs
    | leave => exact hs
    | poll => exact hs
    | wake => exact hs
    | pass => exact hb _ (follows_pass p _ _)
    | shutdownPass progress =>
      exact sound_perform (recording_of_bookkeeping (follows_shutdownPass p _ _ progress)) _ hs
    | command loop wait command => exact sound_perform (follows_call p (.command input.elapsedMs command)) _ hs
    | begin => exact hb _ (unseen_beginLocalShutdown _).follows
    | output => exact hb _ (follows_emitOutput p)
    | receive loop => exact hb _ (follows_receive p _ _ _ _ _ _ loop)
    | finish => exact hs
    | lastOutput => exact hb _ (follows_emitOutput p)

end Session
end MoshClient
