import MoshClient.Exchange
import MoshClient.Theorems.Endpoints
import MoshClient.Theorems.Frames
import MoshClient.Theorems.Journal

/-! Shutdowns of an honest peer. A shutdown from a base that the session retains is applied. A shutdown from
    a base that has not arrived yet, or that is retained no longer, ends the session with an error, where an
    ordinary instruction from the same base would only be passed over. -/

namespace MoshClient
open Limits Effect SynchronizationState SessionDriver Simulation

variable {T : Type} {p : Platform T}

namespace SynchronizationState

variable {s : SynchronizationState}

/-- The parts of a shutdown that do not depend on what the receiver retains. -/
structure Closing (s : SynchronizationState) (m : TransportInstruction) : Prop where
  version : m.protocolVersion = protocolVersion
  reserved : m.newState = shutdownState
  acknowledged_le : m.acknowledgedState ≤ s.localLatest
  discard_le : m.discardBeforeState ≤ m.baseState

theorem wp_beginShutdownReceive_retained {m : TransportInstruction} (hs : ReceiverSound s) (hm : Closing s m)
    (hbase : m.baseState ∈ s.receivedStates) :
    wp (beginShutdownReceive m)
      (fun transition t => transition = ⟨m.baseState, m.stateDifference⟩ ∧ ∃ d, Acknowledged m.acknowledgedState s d t)
      (fun e _ => e = .generationExhausted) s := by
  have hfloor := hs.floor_le _ hbase
  have hvalid : ¬(m.protocolVersion ≠ protocolVersion ∨ m.newState ≠ shutdownState ∨
      m.acknowledgedState > s.localLatest ∨ m.discardBeforeState > m.baseState ∨
      m.baseState < s.remoteThrowawayFloor ∨ m.baseState ∉ s.receivedStates) := by
    have hack := hm.acknowledged_le
    have hdiscard := hm.discard_le
    simp only [hm.version, hm.reserved, hbase, ne_eq, not_true_eq_false, false_or, or_false, gt_iff_lt]
    omega
  have hack := wp_observeAcknowledgement m.acknowledgedState s
  unfold wp beginShutdownReceive
  rw [if_neg hvalid]
  cases ho : observeAcknowledgement m.acknowledgedState s with
  | error e t => exact (hack.error ho).2.1
  | ok d t => exact ⟨rfl, d, hack.ok ho⟩

theorem beginShutdownReceive_missing {m : TransportInstruction} (hbase : m.baseState ∉ s.receivedStates) :
    beginShutdownReceive m s = .error .invalidStateTransition s := by
  unfold beginShutdownReceive
  rw [if_pos (by simp only [hbase, not_false_eq_true, or_true])]

end SynchronizationState

namespace SessionDriver

variable {d : SessionDriver T} {m : TransportInstruction}

/-- The terminal that a shutdown leaves: that of its base, with its difference. -/
def FinalTerminal (p : Platform T) (d : SessionDriver T) (m : TransportInstruction) (terminal : T) : Prop :=
  ∃ base difference, d.terminalStates.get? m.baseState = some base ∧
    p.terminal.decode m.stateDifference = .ok difference ∧ p.terminal.apply base difference = .ok terminal

/-- What a session should make of a shutdown that arrives: it applies the shutdown if it retains the base,
    and fails then only for the difference itself or an exhausted counter; otherwise it goes on as before. -/
def Tolerates (p : Platform T) (d : SessionDriver T) (m : TransportInstruction) : Prop :=
  if m.baseState ∈ d.synchronization.receivedStates then
    wp (handleRemoteShutdown p m) (fun _ t => ∃ terminal, FinalTerminal p d m terminal ∧ t.finalTerminal = some terminal)
      (fun e _ => (∃ e', e = .terminal e') ∨ e = .synchronization .generationExhausted) d
  else handleRemoteShutdown p m d = .ok () d

/-- The shutdown as the driver reads it, with its own number as an acknowledgement replaced. -/
def readShutdown (d : SessionDriver T) (m : TransportInstruction) : TransportInstruction :=
  if m.acknowledgedState = shutdownState then
    { m with acknowledgedState := d.synchronization.knownReceiverState }
  else m

theorem readShutdown_eq (d : SessionDriver T) (m : TransportInstruction) :
    (d.readShutdown m).baseState = m.baseState ∧ (d.readShutdown m).stateDifference = m.stateDifference := by
  unfold readShutdown
  split <;> exact ⟨rfl, rfl⟩

theorem closing_readShutdown (hd : d.ledger.Sound) (hm : Closing d.synchronization m) :
    Closing d.synchronization (d.readShutdown m) := by
  unfold readShutdown
  split
  · exact ⟨hm.version, hm.reserved, hd.sender.known_le, hm.discard_le⟩
  · exact hm

/-- A shutdown from a retained base is applied. -/
theorem wp_handleRemoteShutdown (hd : d.ledger.Sound) (hm : Closing d.synchronization m)
    (hbase : m.baseState ∈ d.synchronization.receivedStates) :
    wp (handleRemoteShutdown p m) (fun _ t => ∃ terminal, FinalTerminal p d m terminal ∧ t.finalTerminal = some terminal)
      (fun e _ => (∃ e', e = .terminal e') ∨ e = .synchronization .generationExhausted) d := by
  obtain ⟨hread, hdifference⟩ := readShutdown_eq d m
  rw [handleRemoteShutdown, wp_bind, wp_get, wp_bind, onSynchronization, wp_zoom]
  refine (wp_beginShutdownReceive_retained hd.receiver (closing_readShutdown hd hm) (hread ▸ hbase)).mono
    (fun transition t ht => ?_) fun e t he => Or.inr (congrArg _ he)
  obtain ⟨rfl, disposition, hack⟩ := ht
  rw [wp_bind]
  refine ((wp_acknowledgeHistory (s := d) hd hack rfl).and (frame_acknowledgeHistory _)).mono (fun _ u hu => ?_)
    fun _ _ he => he.1.elim
  have hterminals : u.terminalStates = d.terminalStates := (congrArg terminalStates hu.2 :)
  rw [wp_bind, wp_get, wp_bind, wp_ofOption, hterminals, hread, hdifference]
  refine ⟨fun base hget => ?_, fun hnone => absurd hnone (terminalStates_get?_ne_none hd hbase)⟩
  rw [wp_bind, wp_ofExcept]
  refine ⟨fun difference hdecode => ?_, fun e _ => Or.inl ⟨e, rfl⟩⟩
  rw [wp_bind, wp_ofExcept]
  refine ⟨fun terminal happly => ?_, fun e _ => Or.inl ⟨e, rfl⟩⟩
  exact ⟨terminal, ⟨base, difference, hget, hdecode, happly⟩, rfl⟩

/-- A shutdown from a base that is not retained is an error. -/
theorem wp_handleRemoteShutdown_missing (hbase : m.baseState ∉ d.synchronization.receivedStates) :
    wp (handleRemoteShutdown p m) (fun _ _ => False)
      (fun e t => e = .synchronization .invalidStateTransition ∧ t = d) d := by
  have hread : (d.readShutdown m).baseState ∉ d.synchronization.receivedStates := by
    rw [(readShutdown_eq d m).1]
    exact hbase
  rw [handleRemoteShutdown, wp_bind, wp_get, wp_bind, onSynchronization, wp_zoom]
  exact (wp_of_error (beginShutdownReceive_missing hread)).mpr ⟨rfl, rfl⟩

/-- The session does what it should exactly when it retains the base. -/
theorem tolerates_iff (hd : d.ledger.Sound) (hm : Closing d.synchronization m) :
    Tolerates p d m ↔ m.baseState ∈ d.synchronization.receivedStates := by
  unfold Tolerates
  split
  · rename_i hbase
    exact iff_of_true (wp_handleRemoteShutdown hd hm hbase) hbase
  · rename_i hbase
    exact iff_of_false (fun h => (wp_handleRemoteShutdown_missing hbase).ok h) hbase

end SessionDriver

namespace Exchange

variable {s : Exchange T}

/-! ### Every run -/

/-- The number is that of a state that the session has allocated. -/
def Allocated (s : Exchange T) (n : Nat) : Prop := ∃ count, (n, count) ∈ s.driver.trace.allocated

/-- What holds of a session and its honest peer in every run. -/
structure Invariant (s : Exchange T) : Prop where
  sound : s.driver.ledger.Sound
  journal : s.driver.ledger.Journal
  sender : SenderSound s.peer.state
  receiver : ReceiverSound s.peer.state
  latest : s.Allocated s.peer.state.remoteLatest
  version : ∀ m ∈ s.shutdowns, m.protocolVersion = protocolVersion
  reserved : ∀ m ∈ s.shutdowns, m.newState = shutdownState
  acknowledged : ∀ m ∈ s.shutdowns, s.Allocated m.acknowledgedState
  discard_le : ∀ m ∈ s.shutdowns, m.discardBeforeState ≤ m.baseState

theorem Invariant.closing (hs : Invariant s) {m : TransportInstruction} (hm : m ∈ s.shutdowns) :
    Closing s.driver.synchronization m := by
  obtain ⟨count, hcount⟩ := hs.acknowledged m hm
  exact ⟨hs.version m hm, hs.reserved m hm, (hs.journal.allocated_le _ hcount).1, hs.discard_le m hm⟩

theorem invariant_start (c : Connection p) : Invariant (start c.driver) := by
  refine ⟨c.sound, c.journal, senderSound_new, receiverSound_new, ?_, nofun, nofun, nofun, nofun⟩
  obtain ⟨initialTerminal, h⟩ := c.ledger_eq
  refine ⟨0, ?_⟩
  show (0, 0) ∈ c.driver.ledger.allocated
  rw [h]
  exact List.mem_append_left _ (List.mem_singleton_self _)

/-- The session goes on along a run of its ledger. -/
theorem Invariant.runs (hs : Invariant s) {driver : SessionDriver T} (h : Ledger.Runs s.driver.ledger driver.ledger)
    (ended : Bool) : Invariant { s with driver := driver, ended := ended } := by
  obtain ⟨hsound, hjournal⟩ := hs.journal.runs hs.sound h
  have hallocated : ∀ {n : Nat}, s.Allocated n → Allocated { s with driver := driver, ended := ended } n := by
    intro n hn
    obtain ⟨count, hcount⟩ := hn
    exact ⟨count, h.extends.allocated.subset hcount⟩
  exact ⟨hsound, hjournal, hs.sender, hs.receiver, hallocated hs.latest, hs.version, hs.reserved,
    fun m hm => hallocated (hs.acknowledged m hm), hs.discard_le⟩

theorem Invariant.perform (hs : Invariant s) {m : Driving T Unit} (hm : recording.Follows m) : Invariant (s.perform m) := by
  have hfollows := hm s.driver hs.sound
  unfold Exchange.perform
  split
  · exact hs
  · split
    · exact hs.runs (hfollows.ok ‹_›) s.ended
    · exact hs.runs (hfollows.error ‹_›).1 true

/-- The peer goes on, and acknowledges only what the session has allocated. -/
theorem Invariant.peer (hs : Invariant s) {e : Endpoint} (hsender : SenderSound e.state) (hreceiver : ReceiverSound e.state)
    (hlatest : s.Allocated e.state.remoteLatest) : Invariant { s with peer := e } :=
  ⟨hs.sound, hs.journal, hsender, hreceiver, hlatest, hs.version, hs.reserved, hs.acknowledged, hs.discard_le⟩

theorem Invariant.senderStep (hs : Invariant s) {state : SynchronizationState} (h : SenderStep s.peer.state state) :
    Invariant { s with peer := { s.peer with state := state } } :=
  hs.peer (h.sound hs.sender) (h.receiver.sound hs.receiver) (h.receiver.latest ▸ hs.latest)

/-- What a received instruction makes of the receiver. -/
theorem wp_receive_latest {t : SynchronizationState} (m : TransportInstruction) (hsender : SenderSound t)
    (hreceiver : ReceiverSound t) :
    wp (SynchronizationState.receive m)
      (fun _ u => SenderSound u ∧ ReceiverSound u ∧ (u.remoteLatest = t.remoteLatest ∨ u.remoteLatest = m.newState))
      (fun _ u => SenderSound u ∧ ReceiverSound u ∧ (u.remoteLatest = t.remoteLatest ∨ u.remoteLatest = m.newState)) t := by
  unfold SynchronizationState.receive
  rw [wp_bind]
  refine (wp_beginReceive m t).mono (fun transition u hu => ?_) fun _ u hu => ?_
  · obtain ⟨hvalid, hack, hremote⟩ := hu
    have hsame := hack.sameReceiver
    have hbegun := hsame.sound hreceiver
    split
    · rename_i plan hplan
      obtain ⟨happlicable, htarget, -⟩ :=
        applicable_of_disposition (hvalid.of_localLatest hack.localLatest_eq) (hremote ▸ hplan)
      rw [wp_bind]
      refine (wp_commitReceive hbegun happlicable).mono (fun commit v hv => ?_) fun _ v hv => ?_
      · refine ⟨hv.sender.sound (hack.senderSound hsender), hv.sound, ?_⟩
        rw [hv.latest, hsame.latest, htarget]
        omega
      · obtain ⟨rfl, -⟩ := hv
        exact ⟨hack.senderSound hsender, hbegun, Or.inl hsame.latest⟩
    · exact ⟨hack.senderSound hsender, hbegun, Or.inl hsame.latest⟩
  · obtain ⟨rfl, -⟩ := hu
    exact ⟨hsender, hreceiver, Or.inl rfl⟩

theorem Invariant.hear (hs : Invariant s) (message : Nat) : Invariant (s.hear message) := by
  unfold Exchange.hear
  split
  · exact hs
  · rename_i m hmessage
    split
    · exact hs
    · rename_i hordinary
      have hreceived := exec_of_wp (wp_receive_latest m hs.sender hs.receiver)
      obtain ⟨hsender, hreceiver, hlatest⟩ := hreceived
      refine hs.peer hsender hreceiver ?_
      rcases hlatest with hlatest | hlatest
      · exact hlatest ▸ hs.latest
      · -- The session transmits no ordinary instruction for a state that it has not allocated.
        obtain ⟨first, last, hcarries⟩ := hs.journal.transmitted m (List.mem_of_getElem? hmessage)
        exact ⟨last, hlatest ▸ hcarries.target (by simpa using hordinary)⟩

theorem Invariant.close (hs : Invariant s) (nowMs timeoutMs : Nat) (difference chaff : Bytes) :
    Invariant (s.step p (.close nowMs timeoutMs difference chaff)) := by
  simp only [Exchange.step]
  unfold Endpoint.shutdown
  split
  · simpa using hs
  · split
    · simpa using hs
    · rename_i base hbase
      have hdiscard : s.peer.state.knownReceiverState ≤ base := by
        rcases selectBase_ok hbase with rfl | hmem
        · exact Nat.le_refl _
        · refine Nat.le_of_lt (hs.sender.known_lt _ ?_)
          simpa [sentNumbers] using hmem
      refine ⟨hs.sound, hs.journal, hs.sender, hs.receiver, hs.latest, fun m hm => ?_, fun m hm => ?_, fun m hm => ?_,
        fun m hm => ?_⟩
      all_goals
        rcases List.mem_append.mp hm with hm | hm
      · exact hs.version m hm
      · rw [List.mem_singleton.mp hm]
      · exact hs.reserved m hm
      · rw [List.mem_singleton.mp hm]
      · exact hs.acknowledged m hm
      · rw [List.mem_singleton.mp hm]
        exact hs.latest
      · exact hs.discard_le m hm
      · rw [List.mem_singleton.mp hm]
        exact hdiscard

theorem Invariant.step (hs : Invariant s) (action : ExchangeAction) : Invariant (s.step p action) := by
  cases action with
  | call call =>
    simp only [Exchange.step]
    split
    · exact hs.perform (follows_call p call)
    · exact hs
  | deliver elapsedMs message =>
    simp only [Exchange.step, Exchange.deliver]
    split
    · exact hs
    · exact hs.perform (follows_call p (.normalInstruction elapsedMs _))
  | deliverShutdown message =>
    simp only [Exchange.step, Exchange.deliverShutdown]
    split
    · exact hs
    · exact (hs.perform (follows_call p (.remoteShutdown _))).runs .refl true
  | advance => exact hs.senderStep (senderStep_advance _)
  | plan nowMs timeoutMs difference chaff =>
    have hstate := state_plan s.peer nowMs timeoutMs difference chaff
    exact hs.peer (hstate ▸ hs.sender) (hstate ▸ hs.receiver) (hstate ▸ hs.latest)
  | commit index =>
    simp only [Exchange.step, Endpoint.commit]
    split
    · exact hs
    · exact hs.senderStep (senderStep_commit _ _)
  | hear message => exact hs.hear message
  | close nowMs timeoutMs difference chaff => exact hs.close nowMs timeoutMs difference chaff

theorem invariant_run (c : Connection p) (actions : List ExchangeAction) : Invariant ((start c.driver).run p actions) := by
  refine List.foldlRecOn actions (step p) (invariant_start c) fun s hs action _ => ?_
  exact hs.step action

/-- Every shutdown that may arrive is met as it should be if, and only if, its base is retained. -/
structure ToleratesRetained (p : Platform T) (s : Exchange T) : Prop where
  iff_retained : ∀ m ∈ s.shutdowns,
    Tolerates p s.driver m ↔ m.baseState ∈ s.driver.synchronization.receivedStates

/-- Whatever is lost and reordered, a shutdown of an honest peer is applied where its base is retained, and
    fails because of its base everywhere else. -/
theorem shutdown_tolerated_iff_retained (c : Connection p) (actions : List ExchangeAction) :
    ToleratesRetained p ((start c.driver).run p actions) := by
  have hs := invariant_run c actions
  exact ⟨fun m hm => tolerates_iff hs.sound (hs.closing hm)⟩

/-- The peer sends its first state, and then closes from it. -/
def overtaking : List ExchangeAction :=
  [.advance, .plan 0 1000 [] [], .commit 0, .close 0 1000 [] []]

/-- The shutdown overtakes the instruction that it starts from, and the session fails because of the base. -/
theorem shutdown_overtakes_base :
    ∃ m ∈ ((start Connection.small.driver).run Platform.small overtaking).shutdowns,
      ¬Tolerates Platform.small ((start Connection.small.driver).run Platform.small overtaking).driver m ∧
      failure (handleRemoteShutdown Platform.small m)
        ((start Connection.small.driver).run Platform.small overtaking).driver =
          some (.synchronization .invalidStateTransition) := by
  have hshutdowns : ((start Connection.small.driver).run Platform.small overtaking).shutdowns =
      [⟨protocolVersion, 1, shutdownState, 0, 0, [], []⟩] := by decide +kernel
  have hmissing : 1 ∉ ((start Connection.small.driver).run Platform.small overtaking).driver.synchronization.receivedStates := by
    decide +kernel
  refine ⟨_, hshutdowns ▸ List.mem_singleton_self _, ?_, ?_⟩
  · unfold Tolerates
    rw [if_neg hmissing]
    exact (wp_handleRemoteShutdown_missing hmissing).ok
  · obtain ⟨e, hfailure, rfl, -⟩ := failure_of_wp (wp_handleRemoteShutdown_missing (p := Platform.small)
      (m := ⟨protocolVersion, 1, shutdownState, 0, 0, [], []⟩) hmissing)
    exact hfailure

end Exchange
end MoshClient
