import MoshClient.Theorems.Frames
import MoshClient.Theorems.Instruction
import MoshClient.Theorems.Task

/-! The number of a shutdown, the largest of 64 bits, is that of no ordinary state. On the receiving side
    both loops route it away. On the sending side the counters stop short of it. The generation of the
    sender counts every local state, every committed send and every acknowledgement, so once something was
    sent it is ahead of the local states and is exhausted first. Until something is sent, every local state
    holds an operation of its own, and the client history refuses all but a few thousand of them. -/

namespace MoshClient
open Machine Limits Effect SynchronizationState SessionDriver Simulation

variable {T α : Type} {p : Platform T}

namespace Ledger

variable {l l' : Ledger T} {requests : List TransportInstruction}

/-- Nothing has been sent yet, and every local state has an operation of its own. -/
structure Fresh (l : Ledger T) : Prop where
  known : l.synchronization.knownReceiverState = 0
  sent : l.synchronization.sentStates = []
  latest_le : l.synchronization.localLatest ≤ l.synchronization.senderGeneration
  first : l.clientHistory.checkpoints.get? 0 = some 0
  offset : l.clientHistory.operationOffset = 0
  counted : l.synchronization.localLatest ≤ l.clientHistory.operations.length

/-- The counters, in either loop: the generation is ahead of the local states, or nothing has been sent. -/
structure Numbered (l : Ledger T) : Prop where
  pos : 0 < l.synchronization.localLatest
  generation_lt : l.synchronization.senderGeneration < 2 ^ 64
  operations_le : l.clientHistory.operations.length ≤ maxClientOperationsAfterAck
  ahead : l.synchronization.localLatest < l.synchronization.senderGeneration ∨ l.Fresh

/-- The number of a shutdown is not in use, except in the shutdown requests. -/
structure Reserved (requests : List TransportInstruction) (l : Ledger T) : Prop where
  latest_lt : l.synchronization.localLatest < shutdownState
  received_lt : ∀ n ∈ l.synchronization.receivedStates, n < shutdownState
  transmitted : ∀ m ∈ l.transmitted, m.newState = shutdownState → m ∈ requests

/-- What both loops keep. -/
structure Looping (requests : List TransportInstruction) (l : Ledger T) : Prop where
  numbered : l.Numbered
  received_lt : ∀ n ∈ l.synchronization.receivedStates, n < shutdownState
  transmitted : ∀ m ∈ l.transmitted, m.newState = shutdownState → m ∈ requests

/-! ### The steps of the ledger -/

theorem Numbered.latest_lt (hl : l.Numbered) : l.synchronization.localLatest < shutdownState := by
  have hgeneration := hl.generation_lt
  have hoperations := hl.operations_le
  unfold maxClientOperationsAfterAck at hoperations
  unfold shutdownState u64Max
  rcases hl.ahead with hahead | hfresh
  · omega
  · have hcounted := hfresh.counted
    omega

theorem Looping.reserved (hl : l.Looping requests) : l.Reserved requests :=
  ⟨hl.numbered.latest_lt, hl.received_lt, hl.transmitted⟩

/-- A step that leaves the sender's numbers and the history. -/
theorem Numbered.of_same (hl : l.Numbered) (hs : SameSender l.synchronization l'.synchronization)
    (hh : l'.clientHistory = l.clientHistory) : l'.Numbered := by
  obtain ⟨hpos, hgeneration, hoperations, hahead⟩ := hl
  refine ⟨?_, ?_, ?_, ?_⟩
  · rw [hs.latest]; exact hpos
  · rw [hs.generation]; exact hgeneration
  · rw [hh]; exact hoperations
  · rw [hs.latest, hs.generation]
    refine hahead.imp_right fun hf => ⟨?_, ?_, ?_, ?_, ?_, ?_⟩
    · rw [hs.known]; exact hf.known
    · rw [hs.sent]; exact hf.sent
    · rw [hs.latest, hs.generation]; exact hf.latest_le
    · rw [hh]; exact hf.first
    · rw [hh]; exact hf.offset
    · rw [hs.latest, hh]; exact hf.counted

/-- The history has an operation for one more local state, or does not need one. -/
def Paid (l : Ledger T) : Prop :=
  l.synchronization.localLatest < l.synchronization.senderGeneration ∨
    l.Fresh ∧ l.synchronization.localLatest < l.clientHistory.operations.length

theorem Numbered.accept (hl : l.Numbered) (operation : ClientOperation)
    (hlength : l.clientHistory.operations.length ≠ maxClientOperationsAfterAck) :
    (l.accept operation).Numbered ∧ (l.accept operation).Paid := by
  obtain ⟨hpos, hgeneration, hoperations, hahead⟩ := hl
  have hone : (l.accept operation).clientHistory.operations.length = l.clientHistory.operations.length + 1 := by
    simp only [Ledger.accept, ClientHistory.extend, List.length_append, List.length_singleton]
  have hfresh : l.Fresh → (l.accept operation).Fresh := by
    intro hf
    refine ⟨hf.known, hf.sent, hf.latest_le, hf.first, hf.offset, ?_⟩
    rw [hone]
    exact Nat.le_succ_of_le hf.counted
  refine ⟨⟨hpos, hgeneration, ?_, hahead.imp_right hfresh⟩, hahead.imp_right fun hf => ⟨hfresh hf, ?_⟩⟩
  · rw [hone]
    omega
  · rw [hone]
    exact Nat.lt_succ_of_le hf.counted

theorem Numbered.allocate (hl : l.Numbered) (hpaid : l.Paid)
    (hgeneration : l.synchronization.senderGeneration + 1 < 2 ^ 64) : l.allocate.Numbered := by
  refine ⟨Nat.succ_pos _, hgeneration, hl.operations_le, ?_⟩
  rcases hpaid with hahead | ⟨hf, hlt⟩
  · exact Or.inl (Nat.succ_lt_succ hahead)
  · refine Or.inr ⟨hf.known, hf.sent, Nat.succ_le_succ hf.latest_le, ?_, hf.offset, hlt⟩
    have hne : ¬l.synchronization.localLatest + 1 = 0 := Nat.succ_ne_zero _
    simp only [Ledger.allocate, ClientHistory.checkpoint, OrderedMap.get?_insert, if_neg hne]
    exact hf.first

/-- The local states are never ahead of the generation. -/
theorem Numbered.latest_le (hl : l.Numbered) :
    l.synchronization.localLatest ≤ l.synchronization.senderGeneration := by
  rcases hl.ahead with hahead | hf
  · exact Nat.le_of_lt hahead
  · exact hf.latest_le

/-- An operation of the sender that takes the next generation and leaves the local states. -/
theorem Numbered.advance (hl : l.Numbered) (hlatest : l'.synchronization.localLatest = l.synchronization.localLatest)
    (hnext : l'.synchronization.senderGeneration = l.synchronization.senderGeneration + 1)
    (hlt : l'.synchronization.senderGeneration < 2 ^ 64)
    (hoperations : l'.clientHistory.operations.length ≤ l.clientHistory.operations.length) : l'.Numbered := by
  refine ⟨hlatest ▸ hl.pos, hlt, Nat.le_trans hoperations hl.operations_le, Or.inl ?_⟩
  rw [hlatest, hnext]
  exact Nat.lt_succ_of_le hl.latest_le

theorem Numbered.acknowledge (hl : l.Numbered) {n : Nat} {d : AcknowledgementDisposition} {t : SynchronizationState}
    (h : Acknowledged n l.synchronization d t) (hlt : t.senderGeneration < 2 ^ 64) :
    Numbered { l with synchronization := t } := by
  cases h with
  | kept => exact hl
  | moved => exact hl.advance rfl rfl hlt (Nat.le_refl _)

/-- Dropping the operations of a state that the receiver is known to hold drops none before anything was
    sent. -/
theorem Numbered.trim (hl : l.Numbered) {count : Nat}
    (hcount : l.clientHistory.checkpoints.get? l.synchronization.knownReceiverState = some count) :
    Numbered { l with clientHistory := l.clientHistory.trim l.synchronization.knownReceiverState count } := by
  refine ⟨hl.pos, hl.generation_lt, ?_, hl.ahead.imp_right fun hf => ?_⟩
  · simp only [ClientHistory.trim, List.length_drop]
    exact Nat.le_trans (Nat.sub_le _ _) hl.operations_le
  · rw [hf.known] at hcount ⊢
    obtain rfl : 0 = count := Option.some.inj (hf.first.symm.trans hcount)
    refine ⟨hf.known, hf.sent, hf.latest_le, ?_, rfl, ?_⟩
    · rw [ClientHistory.get?_trim, if_pos (Nat.le_refl 0)]
      exact hf.first
    · simp only [ClientHistory.trim, List.length_drop, hf.offset, Nat.sub_zero]
      exact hf.counted

end Ledger

namespace SessionDriver

variable {requests : List TransportInstruction} {s : SessionDriver T}

/-- The driver in either loop, seen through its ledger. -/
def numbering (requests : List TransportInstruction) : Simulation DriverError (SessionDriver T) (Ledger T) :=
  keeping ledger (Ledger.Looping requests)

theorem unseen_numbering {m : Driving T α} (h : bookkeeping.Unseen m) : (numbering requests).Unseen m :=
  h.of_view (f := id) (fun _ => rfl) fun _ => trivial

theorem unseen_numbering_frame {m : Driving T α} (h : (frame ledger).Unseen m) : (numbering requests).Unseen m :=
  h.of_view (f := id) (fun _ => rfl) fun _ => trivial

/-! ### Sending -/

theorem wp_allocateState_paid (hl : s.ledger.Looping requests) (hpaid : s.ledger.Paid) :
    wp allocateState (fun _ t => t.ledger.Looping requests) (fun _ t => t.ledger.Looping requests) s := by
  rw [allocateState, wp_bind, onSynchronization, wp_zoom]
  refine ((wp_advanceLocal s.synchronization).and (wp_advanceLocal_generation s.synchronization)).mono ?_ ?_
  · intro n t h
    obtain ⟨⟨rfl, -, rfl⟩, hlt⟩ := h
    exact ⟨hl.numbered.allocate hpaid hlt, hl.received_lt, hl.transmitted⟩
  · intro e t h
    obtain ⟨⟨rfl, -⟩, -⟩ := h
    exact hl

/-- A state without operations is allocated only when the peer may hold the latest one. -/
theorem wp_planOrAllocate_numbered (nowMs : Nat) (hl : s.ledger.Looping requests) :
    wp (planOrAllocate nowMs)
      (fun plan t => t.ledger.Looping requests ∧ plan.targetState = t.synchronization.localLatest)
      (fun _ t => t.ledger.Looping requests) s := by
  simp only [planOrAllocate, wp_bind, wp_get]
  split
  · rename_i plan hplan
    exact ⟨hl, (planned_of_planSend hplan).target⟩
  · rename_i hnone
    have hpaid : s.ledger.Paid := by
      refine hl.numbered.ahead.imp_right fun hf => ?_
      have hle := planSend_noNewState hnone hf.sent
      have hknown : s.synchronization.knownReceiverState = 0 := hf.known
      have hpos : 0 < s.synchronization.localLatest := hl.numbered.pos
      omega
    rw [wp_bind]
    refine (wp_allocateState_paid hl hpaid).mono (fun _ t ht => ?_) fun _ _ ht => ht
    refine (wp_planSend nowMs t).mono (fun plan u hu => ?_) fun _ u hu => ?_
    · obtain ⟨rfl, hplan⟩ := hu
      exact ⟨ht, hplan.target⟩
    · obtain ⟨rfl, -⟩ := hu
      exact ht
  · exact hl

/-- An instruction for an ordinary state is no request. -/
theorem transmitted_append {sent : List TransportInstruction} {m : TransportInstruction}
    (hsent : ∀ m ∈ sent, m.newState = shutdownState → m ∈ requests) (hm : m.newState ≠ shutdownState) :
    ∀ m' ∈ sent ++ [m], m'.newState = shutdownState → m' ∈ requests := by
  intro m' hm' hnew
  rcases List.mem_append.mp hm' with hm' | hm'
  · exact hsent m' hm' hnew
  · rw [List.mem_singleton.mp hm'] at hnew
    exact absurd hnew hm

theorem wp_transmit_reserved {I : Ledger T → Prop} (env : Transmission) (m : TransportInstruction) (nowMs : Nat)
    (hI : ∀ l : Ledger T, l.synchronization = s.synchronization → l.clientHistory = s.clientHistory →
      l.terminalStates = s.terminalStates → l.transmitted = s.trace.transmitted ++ [m] → I l) :
    wp (sendTransportInstruction p env m nowMs) (fun _ t => I t.ledger) (fun _ t => I t.ledger) s := by
  have hfields : ∀ t : SessionDriver T, t.apartFromSending = (s.noteTransmitted m).apartFromSending → I t.ledger := by
    intro t h
    exact hI t.ledger (congrArg synchronization h :) (congrArg clientHistory h :) (congrArg terminalStates h :)
      (congrArg (fun d => d.trace.transmitted) h :)
  exact (wp_transmit p env m nowMs s).mono (fun _ t => hfields t) fun _ t => hfields t

theorem follows_transmit_numbered (env : Transmission) {m : TransportInstruction} (nowMs : Nat)
    (hm : m.newState ≠ shutdownState) :
    (numbering requests).FollowsFrom (sendTransportInstruction p env m nowMs) s := by
  refine followsFrom_keeping.mpr fun hl => wp_transmit_reserved env m nowMs fun l hsync hhistory _ htransmitted => ?_
  refine ⟨hl.numbered.of_same ?_ hhistory, ?_, ?_⟩
  · rw [hsync]
    exact ⟨rfl, rfl, rfl, rfl⟩
  · rw [hsync]
    exact hl.received_lt
  · rw [htransmitted]
    exact transmitted_append hl.transmitted hm

theorem follows_commitSend_numbered (plan : SendPlan) : (numbering requests).Follows (commitSend plan : Driving T Unit) := by
  intro s
  refine followsFrom_keeping.mpr fun hl => ?_
  rw [commitSend, wp_bind, onSynchronization, wp_zoom]
  refine wp_intro (fun commit t hok => ?_) fun e t herror => ?_
  · have hlt := (wp_commitSend_generation s.synchronization plan).ok hok
    have hc := (SynchronizationState.wp_commitSend s.synchronization plan).ok hok
    obtain ⟨-, ht⟩ := commitSend_ok hok
    have hnext : t.senderGeneration = s.synchronization.senderGeneration + 1 := by rw [ht]
    have hkeeps : ∀ history : ClientHistory, history.operations.length ≤ s.clientHistory.operations.length →
        Ledger.Looping requests { s.ledger with synchronization := t, clientHistory := history } := by
      intro history hoperations
      refine ⟨hl.numbered.advance hc.latest hnext (hnext ▸ hlt) hoperations, ?_, hl.transmitted⟩
      show ∀ n ∈ t.receivedStates, n < shutdownState
      rw [hc.receiver.received]
      exact hl.received_lt
    cases commit.capacityEvictedState with
    | none => exact hkeeps _ (Nat.le_refl _)
    | some evicted => exact hkeeps _ (Nat.le_refl _)
  · obtain ⟨rfl, -⟩ := (SynchronizationState.wp_commitSend s.synchronization plan).error herror
    exact hl

theorem unseen_planDifference_numbered (base target : Nat) :
    (numbering requests).Unseen (planDifference base target : Driving T Bytes) :=
  unseen_get.bind fun _ => unseen_ofExcept fun _ => trivial

theorem unseen_onScheduler_numbered (m : Scheduling α) : (numbering requests).Unseen (onScheduler m : Driving T α) :=
  unseen_zoom (fun _ _ => rfl) fun _ => wp_intro (fun _ _ _ => trivial) fun _ _ _ => trivial

theorem follows_sendInstruction_numbered (env : Transmission) (wakePlan : WakePlan) (now : Nat) :
    (numbering requests).Follows (sendInstruction p env wakePlan now) := by
  intro s
  refine followsFrom_keeping_bind (Q := fun plan _ => plan.targetState ≠ shutdownState)
    (fun hl => (wp_planOrAllocate_numbered now hl).mono (fun plan t ht => ⟨ht.1, ?_⟩) fun _ _ ht => ht) fun plan t hplan => ?_
  · rw [ht.2]
    exact Nat.ne_of_lt ht.1.numbered.latest_lt
  · refine ((unseen_planDifference_numbered _ _).follows t).bind fun difference u => ?_
    refine FollowsFrom.bind (follows_transmit_numbered env now hplan) fun outcome => ?_
    cases outcome with
    | sent => exact (follows_commitSend_numbered plan).bind fun _ => (unseen_onScheduler_numbered _).follows
    | cancelled => exact (unseen_pure _).follows
    | deferred =>
      exact ((unseen_numbering (unseen_nowMs _)).bind fun _ => unseen_numbering (unseen_deferTemporarySend _)).follows

theorem follows_pass_numbered (env : Transmission) (elapsedMs : Nat) :
    (numbering requests).Follows (pass p env elapsedMs) := by
  refine (unseen_numbering (unseen_nowMs _)).follows.bind fun now => ?_
  refine (unseen_numbering (unseen_publishReachability now)).follows.bind fun _ => ?_
  refine unseen_get.follows.bind fun _ => .ite (unseen_throw trivial).follows ?_
  refine (unseen_numbering (unseen_onReassembler _)).follows.bind fun _ => ?_
  refine Follows.bind (unseen_modify (ledger_expirePrediction now)).follows fun _ => ?_
  refine Follows.bind (unseen_modify (ledger_updatePredictionPolicy now)).follows fun _ => ?_
  refine Follows.bind (unseen_get.bind fun _ => unseen_onScheduler_numbered _).follows fun answer => ?_
  cases answer with
  | send plan => exact (follows_sendInstruction_numbered env plan now).bind fun _ => (unseen_pure _).follows
  | pending wakeAtMs => exact ((unseen_numbering (unseen_runWait now wakeAtMs)).bind fun _ => unseen_pure _).follows

/-! ### Commands -/

theorem append_ok {operation : ClientOperation} {h h' : ClientHistory}
    (hok : ClientHistory.append operation h = .ok () h') : h.operations.length ≠ maxClientOperationsAfterAck := by
  unfold ClientHistory.append at hok
  split at hok
  · cases hok
  · assumption

theorem follows_advanceClient_numbered (operation : ClientOperation) (nowMs : Nat) :
    (numbering requests).Follows (advanceClient operation nowMs : Driving T Nat) := by
  intro s
  refine followsFrom_keeping_bind (Q := fun _ t => t.ledger.Paid) (fun hl => ?_) fun _ t hpaid => ?_
  · rw [appendOperation, wp_bind, onClientHistory, wp_zoom]
    refine wp_intro (fun _ h hok => ?_) fun e h herror => ?_
    · obtain rfl := (ClientHistory.wp_append operation s.clientHistory).ok hok
      obtain ⟨hnumbered, hpaid⟩ := hl.numbered.accept operation (append_ok hok)
      exact ⟨⟨hnumbered, hl.received_lt, hl.transmitted⟩, hpaid⟩
    · obtain ⟨rfl, -⟩ := (ClientHistory.wp_append operation s.clientHistory).error herror
      exact hl
  · refine FollowsFrom.bind (followsFrom_keeping.mpr fun hl => wp_allocateState_paid hl hpaid) fun _ => ?_
    exact ((unseen_onScheduler_numbered _).bind fun _ => unseen_pure _).follows

theorem follows_handleCommand_numbered (elapsedMs : Nat) (command : SessionCommand) :
    (numbering requests).Follows (handleCommand p elapsedMs command) := by
  refine (unseen_numbering (unseen_nowMs _)).follows.bind fun now => ?_
  have hpredict : ∀ state bytes, (numbering requests).Unseen (predictInput p state bytes now) := fun state bytes =>
    unseen_numbering_frame (frame_predictInput (fun requested _ _ => ledger_requestOutput requested _) p state bytes now)
  cases command with
  | input bytes =>
    refine .ite (unseen_pure _).follows ?_
    exact (follows_advanceClient_numbered _ now).bind fun state => (hpredict state bytes).follows
  | resize columns rows =>
    refine (follows_advanceClient_numbered _ now).bind fun _ => ?_
    exact (unseen_get.bind fun _ => hpredict _ []).follows
  | repaint => exact (unseen_modify fun _ => by rfl).follows

/-! ### Receiving -/

theorem wp_acknowledgeHistory_numbered (hl : s.ledger.Looping requests) :
    wp acknowledgeHistory (fun _ t => t.ledger.Looping requests) (fun _ t => t.ledger.Looping requests) s := by
  rw [acknowledgeHistory, wp_bind, wp_get, onClientHistory, wp_zoom]
  refine wp_intro (fun _ h hok => ?_) fun e h herror => ?_
  · obtain ⟨count, hcount, -, rfl⟩ := ClientHistory.acknowledge_ok hok
    exact ⟨hl.numbered.trim hcount, hl.received_lt, hl.transmitted⟩
  · obtain rfl := ClientHistory.acknowledge_error herror
    exact hl

theorem follows_settleRemoteState_numbered (nowMs : Nat) {disposition : RemoteStateDisposition}
    (h : ∀ plan, disposition = .apply plan → plan.targetState < shutdownState) :
    (numbering requests).Follows (settleRemoteState p nowMs disposition) := by
  cases disposition with
  | apply plan =>
    refine follows_get_bind fun s => .ofOption_bind (fun _ _ => trivial) fun base _ => ?_
    refine .ofExcept_bind (fun _ _ _ => trivial) fun difference _ => ?_
    refine .ofExcept_bind (fun _ _ _ => trivial) fun next _ => ?_
    refine FollowsFrom.bind (followsFrom_keeping.mpr fun hl => ?_) fun commit => ?_
    · rw [onSynchronization, wp_zoom]
      refine wp_intro (fun commit t hok => ?_) fun e t herror => ?_
      · obtain ⟨hsame, hmem⟩ := commitReceive_mem hok
        refine ⟨hl.numbered.of_same hsame rfl, fun n hn => ?_, hl.transmitted⟩
        rcases hmem n hn with rfl | hn
        · exact h plan rfl
        · exact hl.received_lt n hn
      · obtain rfl := commitReceive_error herror
        exact hl
    · have hinsert : ∀ f : SessionDriver T → OrderedMap Nat T, (numbering requests).Follows
          (modify fun self => { self with terminalStates := f self }) := fun f s =>
        followsFrom_keeping.mpr fun hl => ⟨hl.numbered.of_same ⟨rfl, rfl, rfl, rfl⟩ rfl, hl.received_lt, hl.transmitted⟩
      refine Follows.bind (hinsert _) fun _ => unseen_get.follows.bind fun _ => .ite ?_ (unseen_pure _).follows
      refine (unseen_numbering_frame ?_).follows
      exact frame_noteLatestState (fun _ _ => by rfl) (fun _ _ => by rfl) (fun _ _ => by rfl) p nowMs _
  | alreadyConstructed => exact (unseen_pure _).follows
  | missingReference => exact (unseen_pure _).follows
  | belowThrowawayFloor => exact (unseen_pure _).follows
  | belowRetentionWindow => exact (unseen_pure _).follows

theorem follows_handleNormalInstruction_numbered (elapsedMs : Nat) {instruction : TransportInstruction}
    (hnew : instruction.newState < shutdownState) :
    (numbering requests).Follows (handleNormalInstruction p elapsedMs instruction) := by
  refine (unseen_numbering (unseen_nowMs _)).follows.bind fun now => follows_get_bind fun s => ?_
  refine followsFrom_keeping_bind
    (Q := fun transition _ => ∀ plan, transition.remoteState = .apply plan → plan.targetState < shutdownState)
    (fun hl => ?_) fun transition t happly => ?_
  · rw [onSynchronization, wp_zoom]
    refine wp_intro (fun transition t hok => ?_) fun e t herror => ?_
    · obtain ⟨hvalid, hack, hremote⟩ := (wp_beginReceive instruction s.synchronization).ok hok
      refine ⟨⟨hl.numbered.acknowledge hack (beginReceive_generation hok hl.numbered.generation_lt), ?_, hl.transmitted⟩, ?_⟩
      · show ∀ n ∈ t.receivedStates, n < shutdownState
        rw [hack.sameReceiver.received]
        exact hl.received_lt
      · intro plan hplan
        obtain ⟨-, htarget, -⟩ := applicable_of_disposition (hvalid.of_localLatest hack.localLatest_eq) (hremote ▸ hplan)
        exact htarget ▸ hnew
    · obtain ⟨rfl, -⟩ := (wp_beginReceive instruction s.synchronization).error herror
      exact hl
  · refine FollowsFrom.bind ((unseen_modify (ledger_noteReply _ _)).follows t) fun _ => ?_
    refine Follows.bind (fun u => followsFrom_keeping.mpr wp_acknowledgeHistory_numbered) fun _ => ?_
    refine (unseen_onScheduler_numbered _).follows.bind fun _ => ?_
    refine (follows_settleRemoteState_numbered now happly).bind fun _ => ?_
    exact (unseen_numbering (unseen_publishReachability now)).follows

theorem follows_handleRemoteShutdown_numbered (instruction : TransportInstruction) :
    (numbering requests).Follows (handleRemoteShutdown p instruction) := by
  refine follows_get_bind fun s => FollowsFrom.bind (followsFrom_keeping.mpr fun hl => ?_) fun transition => ?_
  · rw [onSynchronization, wp_zoom]
    refine wp_intro (fun transition t hok => ?_) fun e t herror => ?_
    · obtain ⟨-, d, hack⟩ := (wp_beginShutdownReceive _ s.synchronization).ok hok
      refine ⟨hl.numbered.acknowledge hack (beginShutdownReceive_generation hok hl.numbered.generation_lt), ?_, hl.transmitted⟩
      show ∀ n ∈ t.receivedStates, n < shutdownState
      rw [hack.sameReceiver.received]
      exact hl.received_lt
    · obtain ⟨rfl, -⟩ := (wp_beginShutdownReceive _ s.synchronization).error herror
      exact hl
  · refine Follows.bind (fun u => followsFrom_keeping.mpr wp_acknowledgeHistory_numbered) fun _ => ?_
    refine (unseen_get.bind fun _ => (unseen_ofOption trivial).bind fun _ => ?_).follows
    refine (unseen_ofExcept fun _ => trivial).bind fun _ => (unseen_ofExcept fun _ => trivial).bind fun _ => ?_
    exact unseen_modify fun _ => by rfl

theorem ledger_emitOutput (p : Platform T) : (frame ledger).Unseen (emitOutput p) :=
  frame_emitOutput (fun _ _ _ => by rfl) p

/-- The numbers of a decoded instruction fit in 64 bits. -/
theorem wp_decodeDatagram_newState (elapsedMs : Nat) (datagram : Bytes) (source : SocketAddr) (s : SessionDriver T) :
    wp (decodeDatagram p elapsedMs datagram source)
      (fun decoded t => t.ledger = s.ledger ∧ ∀ m, decoded = some m → m.newState < 2 ^ 64)
      (fun _ t => t.ledger = s.ledger) s := by
  have hnew : wp (decodeDatagram p elapsedMs datagram source)
      (fun decoded _ => ∀ m, decoded = some m → m.newState < 2 ^ 64) (fun _ _ => True) s := by
    have hE : ∀ (e : DriverError) (t : SessionDriver T), True := fun _ _ => trivial
    refine wp_bind_of_forall (fun now t => wp_bind_of_forall (fun opened u => ?_) hE) hE
    cases opened with
    | none => exact nofun
    | some opened =>
      refine wp_bind_of_forall (fun decoded v => wp_bind_of_forall (fun _ w => ?_) hE) hE
      refine wp_bind_of_forall (fun outcome x => ?_) hE
      cases outcome with
      | complete compressed =>
        rw [wp_bind, wp_ofExcept]
        refine ⟨fun instruction hinstruction m hm => ?_, fun _ _ => trivial⟩
        cases hm
        exact TransportInstruction.decodeZlib_newState_lt hinstruction
      | pending => exact nofun
      | duplicate => exact nofun
  exact ((unseen_decodeDatagram p elapsedMs datagram source s).and hnew).mono (fun _ _ h => h) fun _ _ h => h.1.1

theorem newState_lt_of_ordinary {m : TransportInstruction} (hlt : m.newState < 2 ^ 64) (h : ¬m.isShutdown = true) :
    m.newState < shutdownState := by
  have hne : m.newState ≠ shutdownState := by simpa [TransportInstruction.isShutdown] using h
  unfold shutdownState u64Max at hne ⊢
  omega

theorem follows_handleDatagram_numbered (decodedAtMs handledAtMs : Nat) (datagram : Bytes) (source : SocketAddr) :
    (numbering requests).Follows (handleDatagram p decodedAtMs handledAtMs datagram source) := by
  intro s
  refine followsFrom_keeping_bind (Q := fun decoded _ => ∀ m, decoded = some m → m.newState < 2 ^ 64)
    (fun hl => (wp_decodeDatagram_newState decodedAtMs datagram source s).mono (fun _ t ht => ⟨ht.1 ▸ hl, ht.2⟩)
      fun _ t ht => ht ▸ hl) fun decoded t hdecoded => ?_
  cases decoded with
  | none => exact (unseen_pure _).follows t
  | some instruction =>
    refine .ite (fun _ => ?_) fun hordinary => ?_
    · exact ((follows_handleRemoteShutdown_numbered instruction).bind fun _ => (unseen_pure _).follows) t
    · have hnew := newState_lt_of_ordinary (hdecoded instruction rfl) hordinary
      exact ((follows_handleNormalInstruction_numbered handledAtMs hnew).bind fun _ => (unseen_pure _).follows) t

/-! ### Shutdown -/

/-- The driver after its loops, seen through its ledger. -/
def reserving (requests : List TransportInstruction) : Simulation DriverError (SessionDriver T) (Ledger T) :=
  keeping ledger (Ledger.Reserved requests)

theorem follows_commitSend_reserved (plan : SendPlan) : (reserving requests).Follows (commitSend plan : Driving T Unit) := by
  intro s
  refine followsFrom_keeping.mpr fun hl => ?_
  rw [commitSend, wp_bind, onSynchronization, wp_zoom]
  refine (SynchronizationState.wp_commitSend s.synchronization plan).mono (fun commit t hc => ?_) fun e t h => ?_
  · have hkeeps : ∀ history : ClientHistory,
        Ledger.Reserved requests { s.ledger with synchronization := t, clientHistory := history } := by
      intro history
      refine ⟨?_, ?_, hl.transmitted⟩
      · show t.localLatest < shutdownState
        rw [hc.latest]
        exact hl.latest_lt
      · show ∀ n ∈ t.receivedStates, n < shutdownState
        rw [hc.receiver.received]
        exact hl.received_lt
    cases commit.capacityEvictedState with
    | none => exact hkeeps _
    | some evicted => exact hkeeps _
  · obtain ⟨rfl, -⟩ := h
    exact hl

/-- The last local state, for the acknowledgement of a shutdown, need not have an operation. -/
theorem wp_allocateState_last (hl : s.ledger.Looping requests) :
    wp allocateState (fun _ t => t.ledger.Reserved requests) (fun _ t => t.ledger.Reserved requests) s := by
  rw [allocateState, wp_bind, onSynchronization, wp_zoom]
  refine ((wp_advanceLocal s.synchronization).and (wp_advanceLocal_generation s.synchronization)).mono ?_ ?_
  · intro n t h
    obtain ⟨⟨rfl, -, rfl⟩, hlt⟩ := h
    refine ⟨?_, hl.received_lt, hl.transmitted⟩
    have hoperations := hl.numbered.operations_le
    unfold maxClientOperationsAfterAck at hoperations
    show s.synchronization.localLatest + 1 < shutdownState
    unfold shutdownState u64Max
    rcases hl.numbered.ahead with hahead | hf
    · have hahead : s.synchronization.localLatest < s.synchronization.senderGeneration := hahead
      omega
    · have hcounted : s.synchronization.localLatest ≤ s.ledger.clientHistory.operations.length := hf.counted
      omega
  · intro e t h
    obtain ⟨⟨rfl, -⟩, -⟩ := h
    exact hl.reserved

theorem wp_sendShutdownAcknowledgement_numbered (env : Transmission) (now : Nat) (hl : s.ledger.Looping requests) :
    wp (sendShutdownAcknowledgement p env now) (fun _ t => t.ledger.Reserved requests)
      (fun _ t => t.ledger.Reserved requests) s := by
  rw [sendShutdownAcknowledgement, wp_bind]
  refine (wp_allocateState_last hl).mono (fun _ t ht => ?_) fun _ _ ht => ht
  refine followsFrom_keeping.mp (?_ : (reserving requests).FollowsFrom _ t) ht
  refine followsFrom_keeping_bind (Q := fun plan _ => plan.targetState ≠ shutdownState)
    (fun ht => (wp_planSend now t).mono (fun plan u hu => ?_) fun _ u hu => ?_) fun plan u hplan => ?_
  · obtain ⟨rfl, hplanned⟩ := hu
    exact ⟨ht, hplanned.target ▸ Nat.ne_of_lt ht.latest_lt⟩
  · obtain ⟨rfl, -⟩ := hu
    exact ht
  · refine FollowsFrom.bind ((unseen_get.bind fun _ => unseen_ofExcept fun _ => trivial).follows u) fun difference v => ?_
    refine FollowsFrom.bind (followsFrom_keeping.mpr fun hv => ?_) fun outcome => ?_
    · refine wp_transmit_reserved env _ now fun l hsync _ _ htransmitted => ?_
      refine ⟨hsync ▸ hv.latest_lt, hsync ▸ hv.received_lt, ?_⟩
      rw [htransmitted]
      exact transmitted_append hv.transmitted hplan
    · cases outcome with
      | sent => exact (follows_commitSend_reserved plan).bind fun _ => (unseen_pure _).follows
      | cancelled => exact (unseen_pure _).follows
      | deferred => exact (unseen_pure _).follows

theorem wp_handleShutdownDatagram_numbered (env : Transmission) (decodedAtMs handledAtMs : Nat) (datagram : Bytes)
    (source : SocketAddr) (hl : s.ledger.Looping requests) :
    wp (handleShutdownDatagram p env decodedAtMs handledAtMs datagram source)
      (fun exit t => t.ledger.Reserved requests ∧ (exit = none → t.ledger.Looping requests))
      (fun _ t => t.ledger.Reserved requests) s := by
  have hloops : ∀ {α : Type} {m : Driving T α} {t : SessionDriver T}, (numbering requests).Follows m →
      t.ledger.Looping requests → wp m (fun _ u => u.ledger.Looping requests) (fun _ u => u.ledger.Reserved requests) t :=
    fun hm ht => (followsFrom_keeping.mp (hm _) ht).mono (fun _ _ h => h) fun _ _ h => h.reserved
  rw [handleShutdownDatagram, wp_bind]
  refine (wp_decodeDatagram_newState decodedAtMs datagram source s).mono (fun decoded t ht => ?_) fun _ t ht => ?_
  · obtain ⟨hledger, hdecoded⟩ := ht
    rw [← hledger] at hl
    cases decoded with
    | none => exact ⟨hl.reserved, fun _ => hl⟩
    | some instruction =>
      rw [wp_ite]
      refine ⟨fun _ => ?_, fun hordinary => ?_⟩
      · rw [wp_bind]
        refine (hloops (follows_handleRemoteShutdown_numbered instruction) hl).mono (fun _ u hu => ?_) fun _ _ hu => hu
        rw [wp_bind]
        refine (hloops (unseen_numbering (unseen_nowMs handledAtMs)).follows hu).mono (fun now v hv => ?_) fun _ _ hv => hv
        rw [wp_bind]
        refine (wp_sendShutdownAcknowledgement_numbered env now hv).mono (fun sent w hw => ?_) fun _ _ hw => hw
        rw [wp_ite]
        exact ⟨fun _ => ⟨hw, nofun⟩, fun _ => ⟨hw, nofun⟩⟩
      · rw [wp_bind, wp_get, wp_bind]
        refine (hloops (follows_handleNormalInstruction_numbered handledAtMs ?_) hl).mono (fun _ u hu => ?_) fun _ _ hu => hu
        · have hnew := newState_lt_of_ordinary (hdecoded instruction rfl) hordinary
          split <;> exact hnew
        · rw [wp_bind, wp_get, wp_ite]
          exact ⟨fun _ => ⟨hu.reserved, nofun⟩, fun _ => ⟨hu.reserved, fun _ => hu⟩⟩
  · rw [ht]
    exact hl.reserved

theorem wp_receive_numbered (env : Transmission) (elapsedMs decodedAtMs handledAtMs repliedAtMs : Nat)
    (received : Except ErrorKind (Bytes × SocketAddr)) (loop : TaskLoop) (hl : s.ledger.Looping requests) :
    wp (receive p env elapsedMs decodedAtMs handledAtMs repliedAtMs received loop)
      (fun next t => t.ledger.Reserved requests ∧ (next = .again → t.ledger.Looping requests))
      (fun _ t => t.ledger.Reserved requests) s := by
  rw [receive, wp_bind]
  refine (unseen_classifyReceive elapsedMs received s).mono (fun classified t ht => ?_) fun _ t ht => ?_
  · rw [← show t.ledger = s.ledger from ht] at hl
    cases classified with
    | none => exact ⟨hl.reserved, fun _ => hl⟩
    | some datagram =>
      cases loop with
      | run =>
        rw [wp_bind]
        refine (followsFrom_keeping.mp (follows_handleDatagram_numbered _ _ _ _ t) hl).mono (fun outcome u hu => ?_)
          fun _ _ hu => hu.reserved
        cases outcome with
        | «continue» => exact ⟨hu.reserved, fun _ => hu⟩
        | remoteShutdown =>
          rw [wp_bind]
          refine (unseen_nowMs repliedAtMs u).mono (fun now v hv => ?_) fun _ v hv => ?_
          · rw [← show v.ledger = u.ledger from hv] at hu
            rw [wp_bind]
            refine (wp_sendShutdownAcknowledgement_numbered env now hu).mono (fun sent w hw => ?_) fun _ _ hw => hw
            rw [wp_ite]
            exact ⟨fun _ => ⟨hw, nofun⟩, fun _ => ⟨hw, nofun⟩⟩
          · rw [show v.ledger = u.ledger from hv.1]
            exact hu.reserved
      | localShutdown progress =>
        rw [wp_bind]
        refine (wp_handleShutdownDatagram_numbered env _ _ _ _ hl).mono (fun exit u hu => ?_) fun _ _ hu => hu
        split
        · exact ⟨hu.1, fun _ => hu.2 rfl⟩
        · exact ⟨hu.1, nofun⟩
        · exact ⟨hu.1, nofun⟩
  · rw [show t.ledger = s.ledger from ht.1]
    exact hl.reserved

/-- The driver with the same books, that has transmitted more. -/
structure Requesting (s t : SessionDriver T) : Prop where
  synchronization : t.synchronization = s.synchronization
  clientHistory : t.clientHistory = s.clientHistory
  transmitted : s.trace.transmitted <+: t.trace.transmitted

/-- A pass of the shutdown loop transmits, and changes no number. -/
theorem wp_shutdownPass_requesting (env : Transmission) (elapsedMs : Nat) (progress : LocalShutdown)
    (s : SessionDriver T) :
    wp (shutdownPass p env elapsedMs progress) (fun _ t => Requesting s t) (fun _ t => Requesting s t) s := by
  have htransmit : ∀ m now, (keeping id (Requesting s)).Follows (sendTransportInstruction p env m now) := by
    intro m now t
    refine followsFrom_keeping.mpr fun ht => ?_
    have hfields : ∀ u : SessionDriver T, u.apartFromSending = (t.noteTransmitted m).apartFromSending →
        Requesting s u := by
      intro u h
      have hsync : u.synchronization = t.synchronization := (congrArg SessionDriver.synchronization h :)
      have hhistory : u.clientHistory = t.clientHistory := (congrArg SessionDriver.clientHistory h :)
      have htransmitted : u.trace.transmitted = t.trace.transmitted ++ [m] :=
        (congrArg (fun d : SessionDriver T => d.trace.transmitted) h :)
      refine ⟨hsync.trans ht.synchronization, hhistory.trans ht.clientHistory, ?_⟩
      rw [htransmitted]
      exact ht.transmitted.trans (List.prefix_append _ _)
    exact (wp_transmit p env m now t).mono (fun _ u => hfields u) fun _ u => hfields u
  have hpass : (keeping id (Requesting s)).Follows (shutdownPass p env elapsedMs progress) := by
    refine follows_shutdownPass_of trivial (fun now => unseen_get.follows.bind fun _ => ?_) elapsedMs progress
    refine Follows.bind ?_ fun _ => htransmit _ now
    exact (unseen_get.bind fun _ => unseen_ofExcept fun _ => trivial).follows
  exact followsFrom_keeping.mp (hpass s) ⟨rfl, rfl, List.prefix_refl _⟩

end SessionDriver

/-- The task is in one of its loops. -/
def TaskState.isLooping : TaskState → Bool
  | .pass _ | .waiting _ _ _ => true
  | .finishing _ | .ended _ => false

namespace Session

variable {s t : Session T}

/-! ### Every run -/

/-- The number of a shutdown is reserved, and in the loops the counters are. -/
structure Kept (s : Session T) : Prop where
  reserved : s.driver.ledger.Reserved s.requests
  looping : s.task.isLooping = true → s.driver.ledger.Looping s.requests

theorem Kept.perform {m : Driving T α} {next : α → TaskState}
    (h : wp m (fun a d => d.ledger.Reserved s.requests ∧ ((next a).isLooping = true → d.ledger.Looping s.requests))
      (fun _ d => d.ledger.Reserved s.requests) s.driver) : Kept (s.perform m next) := by
  have hkept := perform_of_wp (s := s) (m := m)
    (I := fun task d => d.ledger.Reserved s.requests ∧ (task.isLooping = true → d.ledger.Looping s.requests))
    (h.mono (fun _ _ ha => ha) fun _ _ he => ⟨he, nofun⟩)
  constructor
  · rw [requests_perform]
    exact hkept.1
  · rw [requests_perform]
    exact hkept.2

theorem Kept.perform_follows {m : Driving T α} (hm : (numbering s.requests).Follows m) (next : α → TaskState)
    (hl : s.driver.ledger.Looping s.requests) : Kept (s.perform m next) :=
  Kept.perform ((followsFrom_keeping.mp (hm s.driver) hl).mono (fun _ _ h => ⟨h.reserved, fun _ => h⟩)
    fun _ _ h => h.reserved)

/-- The requests of a pass of the shutdown loop are noted as such. -/
theorem Kept.shutdownPass (input : TaskInput) (progress : LocalShutdown) (hl : s.driver.ledger.Looping s.requests) :
    Kept ({ s with
        requests := s.requests ++
          transmittedBy (shutdownPass p input.env input.elapsedMs progress) s.driver }.perform
      (SessionDriver.shutdownPass p input.env input.elapsedMs progress) ShutdownPassOutcome.next) := by
  have hpass := wp_shutdownPass_requesting (p := p) input.env input.elapsedMs progress s.driver
  -- Whatever the pass has transmitted at its end is what `transmittedBy` says.
  have hlooping : ∀ d : SessionDriver T, Requesting s.driver d →
      d = exec (SessionDriver.shutdownPass p input.env input.elapsedMs progress) s.driver →
      d.ledger.Looping (s.requests ++ transmittedBy (SessionDriver.shutdownPass p input.env input.elapsedMs progress) s.driver) := by
    intro d hd hexec
    refine ⟨hl.numbered.of_same ?_ hd.clientHistory, ?_, fun m hm hnew => List.mem_append.mpr ?_⟩
    · show SameSender s.driver.synchronization d.synchronization
      rw [hd.synchronization]
      exact ⟨rfl, rfl, rfl, rfl⟩
    · show ∀ n ∈ d.synchronization.receivedStates, n < shutdownState
      rw [hd.synchronization]
      exact hl.received_lt
    · obtain ⟨sent, hsent⟩ := hd.transmitted
      have hm : m ∈ s.driver.trace.transmitted ++ sent := hsent ▸ hm
      rcases List.mem_append.mp hm with hm | hm
      · exact Or.inl (hl.transmitted m hm hnew)
      · refine Or.inr ?_
        rw [transmittedBy, ← hexec, ← hsent, List.drop_left]
        exact hm
  refine Kept.perform (wp_intro (fun outcome d hok => ?_) fun e d herror => ?_)
  · have hd := hlooping d (hpass.ok hok) (by simp only [exec, hok])
    exact ⟨hd.reserved, fun _ => hd⟩
  · exact (hlooping d (hpass.error herror) (by simp only [exec, herror])).reserved

theorem Kept.drives {input : TaskInput} (hs : Kept s) (h : Drives p input s t) : Kept t := by
  have hloop : ∀ {loop : TaskLoop} {wait : Wait} {stage : PollStage}, s.task = .waiting loop wait stage →
      s.driver.ledger.Looping s.requests := fun htask => hs.looping (by rw [htask]; rfl)
  cases h with
  | rest => exact hs
  | leave => exact ⟨hs.reserved, nofun⟩
  | poll loop wait stage stage' htask => exact ⟨hs.reserved, fun _ => hloop htask⟩
  | wake loop wait htask => exact ⟨hs.reserved, fun _ => hloop htask⟩
  | pass htask => exact Kept.perform_follows (follows_pass_numbered _ _) _ (hs.looping (by rw [htask]; rfl))
  | shutdownPass progress htask => exact Kept.shutdownPass input progress (hs.looping (by rw [htask]; rfl))
  | command loop wait command queue htask hqueue =>
    exact Kept.perform_follows (s := { s with queue := queue, handled := s.handled ++ [command] })
      (follows_handleCommand_numbered _ command) _ (hloop htask)
  | begin wait htask hsignal =>
    exact Kept.perform_follows (unseen_numbering (unseen_beginLocalShutdown _)).follows _ (hloop htask)
  | output loop wait htask => exact Kept.perform_follows (unseen_numbering_frame (ledger_emitOutput p)).follows _ (hloop htask)
  | receive loop wait received decodedAtMs handledAtMs repliedAtMs htask hready =>
    refine Kept.perform ((wp_receive_numbered _ _ _ _ _ _ loop (hloop htask)).mono (fun next d hd => ⟨hd.1, ?_⟩)
      fun _ _ hd => hd)
    intro hnext
    cases next with
    | again => exact hd.2 rfl
    | finish exit => cases hnext
    | exit exit => cases hnext
  | finish => exact ⟨hs.reserved, nofun⟩
  | lastOutput exit htask hrequested =>
    refine Kept.perform ((ledger_emitOutput p s.driver).mono (fun _ d hd => ⟨?_, nofun⟩) fun _ d hd => ?_)
    · rw [show d.ledger = s.driver.ledger from hd]
      exact hs.reserved
    · rw [show d.ledger = s.driver.ledger from hd.1]
      exact hs.reserved

theorem kept_start (c : Connection p) : Kept (start c.driver) := by
  have hlooping : c.driver.ledger.Looping [] := by
    obtain ⟨initialTerminal, h⟩ := c.ledger_eq
    rw [h]
    have hone : 1 ≤ maxClientOperationsAfterAck := by decide
    refine ⟨⟨Nat.one_pos, Nat.one_lt_two_pow (by decide), hone, Or.inr ?_⟩, ?_, nofun⟩
    · exact ⟨rfl, rfl, Nat.le_refl 1, rfl, rfl, Nat.le_refl 1⟩
    · intro n hn
      rw [List.mem_singleton.mp hn]
      decide
  exact ⟨hlooping.reserved, fun _ => hlooping⟩

theorem kept_run (c : Connection p) (actions : List SessionAction) : Kept ((start c.driver).run p actions) := by
  refine invariant_run (fun {s t} hwork hs => ?_) (fun hs h => hs.drives h) (kept_start c) actions
  simp only [work, Prod.mk.injEq] at hwork
  obtain ⟨hdriver, htask, -, hrequests⟩ := hwork
  constructor
  · rw [hdriver, hrequests]
    exact hs.reserved
  · rw [hdriver, hrequests, htask]
    exact hs.looping

/-- The number of a shutdown is that of no state that the driver numbers, plans or has transmitted, but for
    the shutdown requests. -/
structure ReservesShutdown (s : Session T) : Prop where
  localLatest : s.driver.synchronization.localLatest ≠ shutdownState
  knownReceiverState : s.driver.synchronization.knownReceiverState ≠ shutdownState
  remoteLatest : s.driver.synchronization.remoteLatest ≠ shutdownState
  remoteThrowawayFloor : s.driver.synchronization.remoteThrowawayFloor ≠ shutdownState
  sentStates : ∀ sent ∈ s.driver.synchronization.sentStates, sent.number ≠ shutdownState
  receivedStates : shutdownState ∉ s.driver.synchronization.receivedStates
  terminalStates : shutdownState ∉ s.driver.terminalStates.keys
  checkpoints : shutdownState ∉ s.driver.clientHistory.checkpoints.keys
  planned : ∀ nowMs timeoutMs plan, s.driver.synchronization.planSend nowMs timeoutMs = .ok plan →
    ∀ difference chaff, (plan.instruction difference chaff).newState ≠ shutdownState
  transmitted : ∀ m ∈ s.driver.trace.transmitted, m.newState = shutdownState → m ∈ s.requests

/-- Whatever is commanded, sent and received, and also when a counter is exhausted, no ordinary state gets
    the number of a shutdown. -/
theorem shutdown_number_reserved (c : Connection p) (actions : List SessionAction) :
    ReservesShutdown ((start c.driver).run p actions) := by
  have hs := sound_run c actions
  have hk := (kept_run c actions).reserved
  have hlatest := hk.latest_lt
  have hremote := hk.received_lt _ hs.receiver.latest_mem
  constructor
  · exact Nat.ne_of_lt hlatest
  · exact Nat.ne_of_lt (Nat.lt_of_le_of_lt hs.sender.known_le hlatest)
  · exact Nat.ne_of_lt hremote
  · exact Nat.ne_of_lt (Nat.lt_of_le_of_lt (hs.receiver.floor_le _ hs.receiver.latest_mem) hremote)
  · intro sent hsent
    have hle := hs.sender.le_latest sent.number (List.mem_map_of_mem hsent)
    exact Nat.ne_of_lt (Nat.lt_of_le_of_lt hle hlatest)
  · exact fun h => Nat.lt_irrefl _ (hk.received_lt _ h)
  · exact fun h => Nat.lt_irrefl _ (hk.received_lt _ ((hs.mirrored _).mp h))
  · exact fun h => Nat.not_lt_of_le (hs.bookkept.keys_le _ h) hlatest
  · intro nowMs timeoutMs plan hplan difference chaff
    show plan.targetState ≠ shutdownState
    rw [(planned_of_planSend hplan).target]
    exact Nat.ne_of_lt hlatest
  · exact hk.transmitted

end Session
end MoshClient
