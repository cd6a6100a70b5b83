import MoshClient.Theorems.Journal
import MoshClient.Theorems.Task

/-! Closing a session. A command that the handle accepted before `close` is still in the queue or has been
    handled, and no command is accepted behind the close flag. What the task has handled when it finds the
    close signal is in every shutdown request; a command that slipped into the queue between the poll of the
    queue and the poll of the signal is not. -/

namespace MoshClient
open Effect SessionDriver Simulation

variable {T α : Type} {p : Platform T}

/-- The holder of the lock has found the close flag clear. -/
def LockedState.isAccepting : LockedState → Bool
  | .enqueuing _ | .unlocking _ => true
  | _ => false

/-- The holder of the lock is in `close`. -/
def LockedState.isClosing : LockedState → Bool
  | .flagging | .signalling | .closeUnlocking => true
  | _ => false

namespace Ledger

/-- An instruction that leaves its receiver with at least the operations `expected`. -/
def Closes (l : Ledger T) (expected : List ClientOperation) (m : TransportInstruction) : Prop :=
  ∃ first last, Carries l.accepted l.allocated m first last ∧ expected <+: l.accepted.take last

theorem Closes.extends {l l' : Ledger T} {expected : List ClientOperation} {m : TransportInstruction}
    (h : l.Closes expected m) (hl : Extends l l') : l'.Closes expected m := by
  obtain ⟨first, last, hcarries, hexpected⟩ := h
  refine ⟨first, last, hl.carries hcarries, ?_⟩
  obtain ⟨operations, ho⟩ := hl.accepted
  rw [← ho, List.take_append_of_le_length hcarries.last_le]
  exact hexpected

end Ledger

/-- What the threads share, with the queue as all that has gone through it. -/
structure Handle where
  threads : Nat → ThreadState
  lock : Option (Nat × LockedState)
  closeRequested : Bool
  gracefulClose : Bool
  enqueued : List SessionCommand
  accepted : List SessionCommand
  acceptedBeforeClose : Option (List SessionCommand)
  acceptedAfterClose : List SessionCommand

/-- The command that is in the queue while its sender still holds the lock. -/
def inFlight : Option (Nat × LockedState) → List SessionCommand
  | some (_, .unlocking command) => [command]
  | _ => []

/-- What the lock of the close flag guards. -/
structure Handle.Guarded (h : Handle) : Prop where
  enqueued : h.enqueued = h.accepted ++ inFlight h.lock
  accepting : ∀ i state, h.lock = some (i, state) → state.isAccepting = true → h.closeRequested = false
  signalling : ∀ i, h.lock = some (i, .signalling) → h.closeRequested = true
  signalled : h.gracefulClose = true → h.closeRequested = true
  requested : h.closeRequested = true → h.acceptedBeforeClose ≠ none
  closing : ∀ i state, h.lock = some (i, state) → state.isClosing = true → h.acceptedBeforeClose ≠ none
  waiting : ∀ i, h.threads i = .closeLocking → h.acceptedBeforeClose ≠ none
  before : ∀ commands, h.acceptedBeforeClose = some commands → commands <+: h.accepted
  after : h.acceptedAfterClose = []

/-- The task is in `run_local_shutdown`. -/
def TaskState.isClosing : TaskState → Bool
  | .pass (.localShutdown _) | .waiting (.localShutdown _) _ _ => true
  | _ => false

namespace Session

variable {s t : Session T}

/-! ### The handle -/

def handle (s : Session T) : Handle where
  threads := s.threads
  lock := s.lock
  closeRequested := s.closeRequested
  gracefulClose := s.gracefulClose
  enqueued := s.handled ++ s.queue
  accepted := s.accepted
  acceptedBeforeClose := s.acceptedBeforeClose
  acceptedAfterClose := s.acceptedAfterClose

/-- The handle keeps what its lock guards. -/
def Guarded (s : Session T) : Prop := s.handle.Guarded

/-- A thread that moves on without calling `close` waits for no lock of a close. -/
theorem Guarded.waiting_update (hs : Guarded s) {i : Nat} {state : ThreadState} (hstate : state ≠ .closeLocking) (j : Nat)
    (hj : Function.update s.threads i state j = .closeLocking) : s.acceptedBeforeClose ≠ none := by
  by_cases hij : j = i
  · rw [hij, Function.update_self] at hj
    exact absurd hj hstate
  · rw [Function.update_of_ne hij] at hj
    exact hs.waiting j hj

theorem Guarded.stepLocked (hs : Guarded s) {i : Nat} {state : LockedState} (hlock : s.lock = some (i, state)) :
    Guarded (s.stepLocked i state) := by
  have henqueued : s.handled ++ s.queue = s.accepted ++ inFlight s.lock := hs.enqueued
  rw [hlock] at henqueued
  have haccepting := hs.accepting i state hlock
  have hclosing := hs.closing i state hlock
  cases state with
  | checking command =>
    simp only [Session.stepLocked]
    split
    · exact ⟨henqueued, by rintro _ _ ⟨⟩, by rintro _ ⟨⟩, hs.signalled, hs.requested, by rintro _ _ ⟨⟩,
        hs.waiting_update (by rintro ⟨⟩), hs.before, hs.after⟩
    · rename_i hopen
      refine ⟨henqueued, ?_, by rintro _ ⟨⟩, hs.signalled, hs.requested, ?_, hs.waiting, hs.before, hs.after⟩
      · intro _ _ _ _
        exact Bool.eq_false_iff.mpr fun h => hopen (Or.inl h)
      · rintro _ _ ⟨⟩ ⟨⟩
  | enqueuing command =>
    refine ⟨?_, ?_, by rintro _ ⟨⟩, hs.signalled, hs.requested, ?_, hs.waiting, hs.before, hs.after⟩
    · show s.handled ++ (s.queue ++ [command]) = s.accepted ++ [command]
      rw [← List.append_assoc, show s.handled ++ s.queue = s.accepted ++ [] from henqueued, List.append_nil]
    · intro _ _ _ _
      exact haccepting rfl
    · rintro _ _ ⟨⟩ ⟨⟩
  | unlocking command =>
    have hflag := haccepting rfl
    refine ⟨?_, by rintro _ _ ⟨⟩, by rintro _ ⟨⟩, hs.signalled, hs.requested, by rintro _ _ ⟨⟩,
      hs.waiting_update (by rintro ⟨⟩), ?_, ?_⟩
    · show s.handled ++ s.queue = s.accepted ++ [command] ++ []
      rw [List.append_nil]
      exact henqueued
    · intro commands hcommands
      exact (hs.before commands hcommands).trans (List.prefix_append _ _)
    · show (if s.closeRequested then s.acceptedAfterClose ++ [command] else s.acceptedAfterClose) = []
      rw [show s.closeRequested = false from hflag]
      exact hs.after
  | flagging =>
    simp only [Session.stepLocked]
    split
    · refine ⟨henqueued, ?_, by rintro _ ⟨⟩, hs.signalled, hs.requested, ?_, hs.waiting, hs.before, hs.after⟩
      · rintro _ _ ⟨⟩ ⟨⟩
      · intro _ _ _ _
        exact hclosing rfl
    · refine ⟨henqueued, ?_, fun _ _ => rfl, fun _ => rfl, fun _ => hclosing rfl, ?_, hs.waiting, hs.before, hs.after⟩
      · rintro _ _ ⟨⟩ ⟨⟩
      · intro _ _ _ _
        exact hclosing rfl
  | signalling =>
    have hflag := hs.signalling i hlock
    refine ⟨henqueued, ?_, by rintro _ ⟨⟩, fun _ => hflag, hs.requested, ?_, hs.waiting, hs.before, hs.after⟩
    · rintro _ _ ⟨⟩ ⟨⟩
    · intro _ _ _ _
      exact hclosing rfl
  | closeUnlocking =>
    exact ⟨henqueued, by rintro _ _ ⟨⟩, by rintro _ ⟨⟩, hs.signalled, hs.requested, by rintro _ _ ⟨⟩,
        hs.waiting_update (by rintro ⟨⟩), hs.before, hs.after⟩

/-- A thread that waits for the lock takes it when it is free. -/
theorem Guarded.lock (hs : Guarded s) {i : Nat} {state : LockedState} (hlock : s.lock = none)
    (hstate : state.isAccepting = false) (hsignalling : state ≠ .signalling)
    (hclosing : state.isClosing = true → s.acceptedBeforeClose ≠ none) :
    Guarded { s.setThread i .locked with lock := some (i, state) } := by
  have henqueued : s.handled ++ s.queue = s.accepted ++ inFlight s.lock := hs.enqueued
  rw [hlock] at henqueued
  refine ⟨?_, ?_, ?_, hs.signalled, hs.requested, ?_, hs.waiting_update nofun, hs.before, hs.after⟩
  · cases state with
    | unlocking command => cases hstate
    | _ => exact henqueued
  · rintro _ _ ⟨⟩ h
    rw [hstate] at h
    cases h
  · rintro _ ⟨⟩
    exact absurd rfl hsignalling
  · rintro _ _ ⟨⟩ h
    exact hclosing h

/-- A thread that neither takes the lock nor holds it moves on. -/
theorem Guarded.setThread (hs : Guarded s) (i : Nat) {state : ThreadState} (hstate : state ≠ .closeLocking) :
    Guarded (s.setThread i state) :=
  ⟨hs.enqueued, hs.accepting, hs.signalling, hs.signalled, hs.requested, hs.closing, hs.waiting_update hstate, hs.before,
    hs.after⟩

theorem Guarded.stepThread (hs : Guarded s) (i : Nat) : Guarded (s.stepThread i) := by
  unfold Session.stepThread
  split
  · exact hs
  · exact hs
  · split
    · exact hs.setThread i nofun
    · split
      · exact hs.setThread i nofun
      · exact hs
  · split
    · exact hs.lock ‹_› rfl nofun nofun
    · exact hs
  · rename_i hwaiting
    split
    · exact hs.lock ‹_› rfl nofun fun _ => hs.waiting i hwaiting
    · exact hs
  · split
    · exact hs
    · rename_i holder state hlock
      split
      · rename_i hholder
        exact hs.stepLocked (hholder ▸ hlock)
      · exact hs

theorem Guarded.send (hs : Guarded s) (i : Nat) (command : SessionCommand) : Guarded (s.send i command) := by
  unfold Session.send
  split
  · split
    · exact hs.setThread i nofun
    · exact hs.setThread i nofun
  · exact hs

theorem Guarded.close (hs : Guarded s) (i : Nat) : Guarded (s.close i) := by
  unfold Session.close
  split
  · refine ⟨hs.enqueued, hs.accepting, hs.signalling, hs.signalled, nofun, nofun, nofun, fun commands h => ?_, hs.after⟩
    have hcommands : s.acceptedBeforeClose.getD s.accepted = commands := Option.some.inj h
    cases hbefore : s.acceptedBeforeClose with
    | none =>
      rw [hbefore] at hcommands
      exact hcommands ▸ List.prefix_refl _
    | some before =>
      rw [hbefore] at hcommands
      exact hcommands ▸ hs.before before hbefore
  · exact hs

/-! ### The task -/

/-- What a step of the task can be. Only `begin` turns the loop of `run` into that of a local shutdown. -/
inductive TaskStep (p : Platform T) (s : Session T) : Session T → Prop where
  | goto (task : TaskState) (hended : s.task.isEnded = true → task.isEnded = true)
      (hclosing : task.isClosing = true → s.task.isClosing = true) : TaskStep p s { s with task := task }
  | perform {α : Type} (m : Driving T α) (next : α → TaskState) (hm : bookkeeping.Follows m)
      (halive : s.task.isEnded = false) (hclosing : ∀ a, (next a).isClosing = true → s.task.isClosing = true) :
      TaskStep p s (s.perform m next)
  | command (command : SessionCommand) (queue : List SessionCommand) (elapsedMs : Nat) (loop : TaskLoop)
      (hqueue : s.queue = command :: queue) (halive : s.task.isEnded = false)
      (hclosing : (TaskState.pass loop).isClosing = true → s.task.isClosing = true) :
      TaskStep p s
        ({ s with queue := queue, handled := s.handled ++ [command] }.perform (handleCommand p elapsedMs command)
          fun _ => .pass loop)
  | begin (wait : Wait) (elapsedMs : Nat) (htask : s.task = .waiting .run wait .gracefulClose)
      (hsignal : s.gracefulClose = true) :
      TaskStep p s (s.perform (beginLocalShutdown elapsedMs) fun progress => .pass (.localShutdown progress))
  | request {α : Type} (m : Driving T α) (next : α → TaskState) (hm : bookkeeping.Follows m)
      (htask : s.task.isClosing = true) :
      TaskStep p s ({ s with requests := s.requests ++ transmittedBy m s.driver }.perform m next)

/-- A loop stays what it is from its pass through its wait. -/
theorem isClosing_waiting (loop : TaskLoop) (wait : Wait) (stage : PollStage) :
    (TaskState.waiting loop wait stage).isClosing = (TaskState.pass loop).isClosing := by
  cases loop <;> rfl

/-- A task that ends is not closing. -/
theorem step_exit (exit : SessionExit) : TaskStep p s (s.exit exit) := .goto _ (fun _ => rfl) nofun

theorem step_drive (input : TaskInput) (s : Session T) : TaskStep p s (s.drive p input) := by
  have hdrives := drives_drive (p := p) input s
  generalize s.drive p input = t at hdrives
  cases hdrives with
  | rest => exact .goto s.task id id
  | leave exit _ _ => exact step_exit exit
  | poll loop wait stage stage' htask =>
    exact .goto _ (by rw [htask]; nofun) (by rw [htask]; simp only [isClosing_waiting, imp_self])
  | wake loop wait htask => exact .goto _ (by rw [htask]; nofun) (by rw [htask, isClosing_waiting]; exact id)
  | pass htask =>
    refine .perform _ _ (follows_pass p _ _) (by rw [htask]; rfl) fun outcome h => ?_
    cases outcome <;> cases h
  | shutdownPass progress htask => exact .request _ _ (follows_shutdownPass p _ _ _) (by rw [htask]; rfl)
  | command loop wait command queue htask hqueue =>
    exact .command command queue _ loop hqueue (by rw [htask]; rfl) (by rw [htask, isClosing_waiting]; exact id)
  | begin wait htask hsignal => exact .begin wait _ htask hsignal
  | output loop wait htask =>
    exact .perform _ _ (follows_emitOutput p) (by rw [htask]; rfl) fun _ => by rw [htask, isClosing_waiting]; exact id
  | receive loop wait received decodedAtMs handledAtMs repliedAtMs htask hready =>
    refine .perform _ _ (follows_receive p _ _ _ _ _ _ loop) (by rw [htask]; rfl) fun next h => ?_
    cases next with
    | again =>
      rw [htask, isClosing_waiting]
      exact h
    | finish exit => cases h
    | exit exit => cases h
  | finish exit htask hpainted => exact step_exit exit
  | lastOutput exit htask hrequested =>
    exact .perform _ _ (follows_emitOutput p) (by rw [htask]; rfl) fun _ => nofun

theorem handle_perform (m : Driving T α) (next : α → TaskState) (s : Session T) : (s.perform m next).handle = s.handle := by
  unfold perform
  split <;> rfl

/-- The task leaves the handle; what it takes from the queue stays among what has gone through it. -/
theorem TaskStep.handle_eq (h : TaskStep p s t) : t.handle = s.handle := by
  cases h with
  | goto => rfl
  | perform => exact handle_perform _ _ s
  | command command queue elapsedMs loop hqueue =>
    rw [handle_perform]
    simp only [handle, hqueue, List.append_assoc, List.singleton_append]
  | begin => exact handle_perform _ _ s
  | request => exact handle_perform _ _ _

theorem Guarded.step (hs : Guarded s) (action : SessionAction) : Guarded (s.step p action) := by
  cases action with
  | send i command => exact hs.send i command
  | close i => exact hs.close i
  | thread i => exact hs.stepThread i
  | cancel =>
    simp only [Session.step]
    split <;> exact hs
  | drop => exact hs
  | drive input =>
    show (s.drive p input).handle.Guarded
    rw [(step_drive input s).handle_eq]
    exact hs
  | publish =>
    simp only [Session.step]
    split <;> exact hs

/-! ### What the requests carry -/

/-- No command that was accepted before the close is left in the queue, except for those that stand for no
    operation. -/
def Drained (s : Session T) : Prop :=
  ∃ before, s.acceptedBeforeClose = some before ∧ ∀ command ∈ before.drop s.handled.length, command.operation = none

/-- The driver has accepted what the task has handled, after the size of the terminal `size`, and the
    requests close with what was accepted before the close. -/
structure Tracked (size : ClientOperation) (s : Session T) : Prop where
  sound : s.driver.ledger.Sound
  journal : s.driver.ledger.Journal
  running : s.task.isEnded = false → s.driver.ledger.Settled ∧
    s.driver.ledger.accepted = size :: s.handled.filterMap SessionCommand.operation
  requested : ∀ request ∈ s.requests, ∃ before, s.acceptedBeforeClose = some before ∧
    s.driver.ledger.Closes (size :: before.filterMap SessionCommand.operation) request
  closing : s.task.isClosing = true → s.Drained

variable {size : ClientOperation}

/-- What was accepted before the close and is not left in the queue has been handled. -/
theorem Drained.operations (hg : Guarded s) (hs : s.Drained) : ∃ before, s.acceptedBeforeClose = some before ∧
    before.filterMap SessionCommand.operation <+: s.handled.filterMap SessionCommand.operation := by
  obtain ⟨before, hbefore, hnone⟩ := hs
  refine ⟨before, hbefore, ?_⟩
  have henqueued : s.handled ++ s.queue = s.accepted ++ inFlight s.lock := hg.enqueued
  have hprior : before <+: s.handled ++ s.queue := by
    rw [henqueued]
    exact (hg.before before hbefore).trans (List.prefix_append _ _)
  have htake := hprior.take s.handled.length
  rw [List.take_left] at htake
  have hdrop : (before.drop s.handled.length).filterMap SessionCommand.operation = [] :=
    List.filterMap_eq_nil_iff.mpr hnone
  rw [← List.take_append_drop s.handled.length before, List.filterMap_append, hdrop, List.append_nil]
  exact htake.filterMap _

/-- A method that accepts no operation, with the requests that it transmits. -/
theorem Tracked.perform (hg : Guarded s) (hs : Tracked size s) (halive : s.task.isEnded = false) {m : Driving T α}
    (hm : bookkeeping.Follows m) {next : α → TaskState} (hclosing : ∀ a, (next a).isClosing = true → s.Drained)
    {requests : List TransportInstruction}
    (hrequests : ∀ request ∈ requests, request ∈ s.requests ∨ request ∈ transmittedBy m s.driver ∧ s.Drained) :
    Tracked size ({ s with requests := requests }.perform m next) := by
  obtain ⟨hsettled, haccepted⟩ := hs.running halive
  have hfollows : wp m (fun _ d => Ledger.Reaches s.driver.ledger d.ledger)
      (fun _ d => Ledger.Reaches s.driver.ledger d.ledger) s.driver :=
    (hm s.driver hs.sound).mono (fun _ _ h => h) fun _ _ h => h.1
  have hreach : Ledger.Reaches s.driver.ledger (exec m s.driver).ledger :=
    exec_of_wp (P := fun d : SessionDriver T => Ledger.Reaches s.driver.ledger d.ledger) hfollows
  have hquiet := Ledger.quiet_of_reaches hs.sound hs.journal hsettled hreach
  obtain ⟨task, hperform, htask⟩ := perform_eq m next { s with requests := requests }
  rw [hperform]
  refine ⟨hquiet.sound, hquiet.journal, fun _ => ⟨hquiet.settled, hquiet.accepted.trans haccepted⟩, fun r hr => ?_,
    fun h => ?_⟩
  · rcases hrequests r hr with hold | ⟨hnew, hdrained⟩
    · obtain ⟨before, hbefore, hcloses⟩ := hs.requested r hold
      exact ⟨before, hbefore, hcloses.extends hquiet.grown⟩
    · obtain ⟨before, hbefore, hoperations⟩ := hdrained.operations hg
      obtain ⟨sent, hsent, hcarries⟩ := hquiet.transmitted
      have hmem : r ∈ sent := by
        have htransmitted : (exec m s.driver).trace.transmitted = s.driver.trace.transmitted ++ sent := hsent
        rwa [transmittedBy, htransmitted, List.drop_left] at hnew
      obtain ⟨first, hcarry⟩ := hcarries r hmem
      refine ⟨before, hbefore, first, _, hcarry, ?_⟩
      rw [List.take_length, hquiet.accepted, haccepted]
      exact List.prefix_cons_inj size |>.mpr hoperations
  · rcases htask with ⟨a, -, rfl⟩ | ⟨e, -, rfl⟩
    · exact hclosing a h
    · cases h

theorem Drained.handle (hs : s.Drained) (command : SessionCommand) (queue : List SessionCommand) :
    Drained { s with queue := queue, handled := s.handled ++ [command] } := by
  obtain ⟨before, hbefore, hnone⟩ := hs
  refine ⟨before, hbefore, fun c hc => hnone c ?_⟩
  rw [List.length_append, ← List.drop_drop] at hc
  exact List.mem_of_mem_drop hc

theorem accepted_advance (l : Ledger T) (operation : Option ClientOperation) :
    (l.advance operation).accepted = l.accepted ++ operation.toList := by
  cases operation with
  | none => exact (List.append_nil _).symm
  | some operation => rfl

/-- A command that is handled adds its operation; one that fails ends the task. -/
theorem Tracked.command (hs : Tracked size s) (halive : s.task.isEnded = false) {command : SessionCommand}
    {queue : List SessionCommand} {elapsedMs : Nat} {loop : TaskLoop}
    (hclosing : (TaskState.pass loop).isClosing = true → s.task.isClosing = true) :
    Tracked size ({ s with queue := queue, handled := s.handled ++ [command] }.perform
      (handleCommand p elapsedMs command) fun _ => .pass loop) := by
  obtain ⟨hsettled, haccepted⟩ := hs.running halive
  have hhandle := wp_handleCommand p elapsedMs command hs.sound
  obtain ⟨task, hperform, htask⟩ := perform_eq (handleCommand p elapsedMs command) (fun _ => TaskState.pass loop)
    { s with queue := queue, handled := s.handled ++ [command] }
  rw [hperform]
  have hrequested : ∀ {driver : SessionDriver T}, Ledger.Runs s.driver.ledger driver.ledger → ∀ r ∈ s.requests,
      ∃ before, s.acceptedBeforeClose = some before ∧
        driver.ledger.Closes (size :: before.filterMap SessionCommand.operation) r := by
    intro driver hruns r hr
    obtain ⟨before, hbefore, hcloses⟩ := hs.requested r hr
    exact ⟨before, hbefore, hcloses.extends hruns.extends⟩
  rcases htask with ⟨_, hok, rfl⟩ | ⟨e, herror, rfl⟩
  · have hledger := hhandle.ok hok
    have hruns : Ledger.Runs s.driver.ledger (exec (handleCommand p elapsedMs command) s.driver).ledger :=
      hledger ▸ Ledger.runs_advance _ _
    obtain ⟨hsound, hjournal⟩ := hs.journal.runs hs.sound hruns
    refine ⟨hsound, hjournal, fun _ => ⟨?_, ?_⟩, hrequested hruns, fun h => (hs.closing (hclosing h)).handle command queue⟩
    · show (exec (handleCommand p elapsedMs command) s.driver).ledger.Settled
      rw [hledger]
      exact hsettled.advance _
    · show (exec (handleCommand p elapsedMs command) s.driver).ledger.accepted = _
      rw [hledger, accepted_advance, haccepted, List.filterMap_append, List.cons_append]
      cases hoperation : command.operation <;> simp [hoperation]
  · have hruns := (hhandle.error herror).1
    obtain ⟨hsound, hjournal⟩ := hs.journal.runs hs.sound hruns
    exact ⟨hsound, hjournal, nofun, hrequested hruns, nofun⟩

/-- A step of the handle may note that `close` was called, and leaves the task. -/
theorem Tracked.of_work (hs : Tracked size s) (hwork : t.work = s.work)
    (hbefore : ∀ before, s.acceptedBeforeClose = some before → t.acceptedBeforeClose = some before) : Tracked size t := by
  simp only [work, Prod.mk.injEq] at hwork
  obtain ⟨hdriver, htask, hhandled, hrequests⟩ := hwork
  refine ⟨hdriver ▸ hs.sound, hdriver ▸ hs.journal, ?_, fun r hr => ?_, fun h => ?_⟩
  · rw [htask, hdriver, hhandled]
    exact hs.running
  · obtain ⟨before, hold, hcloses⟩ := hs.requested r (hrequests ▸ hr)
    exact ⟨before, hbefore before hold, hdriver ▸ hcloses⟩
  · obtain ⟨before, hold, hnone⟩ := hs.closing (htask ▸ h)
    exact ⟨before, hbefore before hold, hhandled ▸ hnone⟩

/-! ### Every run -/

/-- The condition on a step: when the task finds the close signal, no command that was accepted before the
    close and stands for an operation is left in the queue. -/
def drained (s : Session T) : SessionAction → Bool
  | .drive _ =>
    match s.task with
    | .waiting .run _ .gracefulClose =>
      !s.gracefulClose ||
        ((s.acceptedBeforeClose.getD []).drop s.handled.length).all fun command => command.operation.isNone
    | _ => true
  | _ => true

/-- The signal comes after the call of `close`, so there is a list of what was accepted before. -/
theorem drained_begin (hg : Guarded s) {wait : Wait} (htask : s.task = .waiting .run wait .gracefulClose)
    (hsignal : s.gracefulClose = true) {input : TaskInput} (h : s.drained (.drive input) = true) : s.Drained := by
  simp only [drained, htask, hsignal, Bool.not_true, Bool.false_or, List.all_eq_true, Option.isNone_iff_eq_none] at h
  cases hbefore : s.acceptedBeforeClose with
  | none => exact absurd hbefore (hg.requested (hg.signalled hsignal))
  | some before =>
    rw [hbefore] at h
    exact ⟨before, hbefore, h⟩

theorem Tracked.taskStep (hg : Guarded s) (hs : Tracked size s) (h : TaskStep p s t)
    (hbegin : ∀ wait, s.task = .waiting .run wait .gracefulClose → s.gracefulClose = true → s.Drained) :
    Tracked size t := by
  cases h with
  | goto task hended hclosing =>
    refine ⟨hs.sound, hs.journal, fun h => hs.running ?_, hs.requested, fun h => hs.closing (hclosing h)⟩
    exact Bool.eq_false_iff.mpr fun he => Bool.eq_false_iff.mp h (hended he)
  | perform m next hm halive hclosing =>
    exact Tracked.perform hg hs halive hm (fun a h => hs.closing (hclosing a h)) fun r hr => Or.inl hr
  | command command queue elapsedMs loop hqueue halive hclosing => exact hs.command halive hclosing
  | begin wait elapsedMs htask hsignal =>
    refine Tracked.perform hg hs (by rw [htask]; rfl) (unseen_beginLocalShutdown elapsedMs).follows (fun _ _ => ?_)
      fun r hr => Or.inl hr
    exact hbegin wait htask hsignal
  | request m next hm htask =>
    have halive : s.task.isEnded = false := by
      cases hended : s.task with
      | ended result =>
        rw [hended] at htask
        cases htask
      | _ => rfl
    refine Tracked.perform hg hs halive hm (fun _ _ => hs.closing htask) fun r hr => ?_
    rcases List.mem_append.mp hr with hr | hr
    · exact Or.inl hr
    · exact Or.inr ⟨hr, hs.closing htask⟩

theorem Tracked.step (hg : Guarded s) (hs : Tracked size s) {action : SessionAction}
    (hdrained : s.drained action = true) : Tracked size (s.step p action) := by
  cases action with
  | send i command =>
    obtain ⟨hwork, hbefore⟩ := work_send i command s
    exact hs.of_work hwork fun _ h => hbefore.trans h
  | close i =>
    obtain ⟨hwork, hbefore⟩ := work_close i s
    exact hs.of_work hwork hbefore
  | thread i =>
    obtain ⟨hwork, hbefore⟩ := work_stepThread i s
    exact hs.of_work hwork fun _ h => hbefore.trans h
  | cancel =>
    simp only [Session.step]
    split <;> exact hs.of_work rfl fun _ h => h
  | drop => exact hs.of_work rfl fun _ h => h
  | drive input =>
    exact Tracked.taskStep hg hs (step_drive input s) fun wait htask hsignal => drained_begin hg htask hsignal hdrained
  | publish =>
    simp only [Session.step]
    split <;> exact hs.of_work rfl fun _ h => h

end Session
end MoshClient
