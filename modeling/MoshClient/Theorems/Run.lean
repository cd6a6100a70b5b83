import MoshClient.Theorems.Driver

/-! What holds after every run of an opened session, also after one that ended with an error: the client
    history has an end for each state that a send may need, and the terminal states are those of the
    references. -/

namespace MoshClient.SessionDriver
open Effect SynchronizationState Simulation

variable {T : Type} {p : Platform T}

/-- A run of an opened session keeps what every step of the ledger keeps, and ends with no internal
    error. -/
theorem wp_calls (c : Connection p) (cs : List Call) {I : Ledger T → Prop} (hc : I c.driver.ledger)
    (hstep : ∀ l l', l.Sound → I l → Ledger.Move l l' → I l') :
    wp (calls p cs) (fun _ d => d.ledger.Sound ∧ I d.ledger)
      (fun e d => (d.ledger.Sound ∧ I d.ledger) ∧ ¬e.Internal) c.driver := by
  have hruns : ∀ l, recording.Reaches c.driver.ledger l → l.Sound ∧ I l := by
    intro l h
    induction h with
    | refl => exact ⟨c.sound, hc⟩
    | tail _ h ih => exact ⟨ih.1.move h, hstep _ _ ih.1 ih.2 h⟩
  exact (follows_calls p cs c.driver c.sound).mono (fun _ _ h => hruns _ h) fun _ _ h => ⟨hruns _ h.1, h.2⟩

/-! ### The sender's books -/

/-- The history keeps its books, so that no difference that the driver asks for is missing, and every
    acknowledgement finds the operations it drops. -/
structure SenderComplete (d : SessionDriver T) : Prop where
  bookkept : d.clientHistory.Bookkept d.synchronization
  planned : ∀ nowMs timeoutMs plan, d.synchronization.planSend nowMs timeoutMs = .ok plan →
    d.clientHistory.difference plan.baseState plan.targetState ≠ .error .missingClientState
  requested : d.clientHistory.difference d.synchronization.knownReceiverState d.synchronization.localLatest ≠
    .error .missingClientState
  acknowledged : ∀ n disposition t, observeAcknowledgement n d.synchronization = .ok disposition t →
    failure (ClientHistory.acknowledge t.knownReceiverState) d.clientHistory = none

theorem difference_ne_missing {h : ClientHistory} {base target first last : Nat}
    (hb : h.Between base target first last) : h.difference base target ≠ .error .missingClientState := by
  intro he
  obtain ⟨e, he⟩ := ClientHistory.difference_error hb he
  cases he

theorem senderComplete_of_sound {d : SessionDriver T} (hd : d.ledger.Sound) : SenderComplete d := by
  refine ⟨hd.bookkept, fun nowMs timeoutMs plan hplan => ?_, ?_, fun n disposition t ht => ?_⟩
  · have hplanned := planned_of_planSend hplan
    obtain ⟨first, last, hbetween⟩ := hd.bookkept.between hd.sender hplanned.base_sent
    rw [hplanned.target]
    exact difference_ne_missing hbetween
  · obtain ⟨first, last, hbetween⟩ := hd.bookkept.between hd.sender (Or.inl rfl)
    exact difference_ne_missing hbetween
  · have hack := (wp_observeAcknowledgement n d.synchronization).ok ht
    obtain ⟨count, hcount, hle, hlen⟩ := hd.bookkept.known_kept hack
    unfold Effect.failure
    cases hrun : ClientHistory.acknowledge t.knownReceiverState d.clientHistory with
    | ok _ _ => rfl
    | error e h => exact ((ClientHistory.wp_acknowledge hcount hle hlen).error hrun).elim

/-- Whatever is commanded, sent, refused, deferred and acknowledged, the sender's books stay complete, and
    no run ends because a client state is missing, an acknowledgement drops too much, or a plan is stale. -/
theorem sender_never_incomplete (c : Connection p) (cs : List Call) :
    wp (calls p cs) (fun _ d => SenderComplete d)
      (fun e d => SenderComplete d ∧ e ≠ .missingClientState ∧ e ≠ .panicked .operationDrain ∧
        e ≠ .synchronization .stalePlan ∧ e ≠ .timing .stalePlan) c.driver := by
  refine (wp_calls c cs (I := fun _ => True) trivial fun _ _ _ _ _ => trivial).mono
    (fun _ _ h => senderComplete_of_sound h.1) ?_
  rintro e d ⟨⟨hd, -⟩, he⟩
  refine ⟨senderComplete_of_sound hd, ?_, ?_, ?_, ?_⟩
  · rintro rfl; exact he .missingClientState
  · rintro rfl; exact he .operationDrain
  · rintro rfl; exact he .staleSendPlan
  · rintro rfl; exact he .staleWakePlan

/-! ### The terminal states -/

/-- The terminal states are those of the retained references, the latest remote state among them. -/
structure SnapshotsMirror (d : SessionDriver T) : Prop where
  keys : ∀ n, n ∈ d.terminalStates.keys ↔ n ∈ d.synchronization.receivedStates
  latest : d.synchronization.remoteLatest ∈ d.terminalStates.keys
  found : d.latestTerminalState ≠ .error .missingTerminalState

theorem snapshotsMirror_of_sound {d : SessionDriver T} (hd : d.ledger.Sound) : SnapshotsMirror d := by
  refine ⟨hd.mirrored, (hd.mirrored _).mpr hd.receiver.latest_mem, fun h => ?_⟩
  unfold latestTerminalState at h
  split at h
  · cases h
  · split at h
    · cases h
    · exact latest_get?_ne_none hd ‹_›

/-- Whatever arrives, the terminal states mirror the references, and no run ends because a terminal state
    is missing. -/
theorem snapshots_never_missing (c : Connection p) (cs : List Call) :
    wp (calls p cs) (fun _ d => SnapshotsMirror d)
      (fun e d => SnapshotsMirror d ∧ e ≠ .missingTerminalState) c.driver := by
  refine (wp_calls c cs (I := fun _ => True) trivial fun _ _ _ _ _ => trivial).mono
    (fun _ _ h => snapshotsMirror_of_sound h.1) ?_
  rintro e d ⟨⟨hd, -⟩, he⟩
  refine ⟨snapshotsMirror_of_sound hd, ?_⟩
  rintro rfl
  exact he .missingTerminalState

end MoshClient.SessionDriver
