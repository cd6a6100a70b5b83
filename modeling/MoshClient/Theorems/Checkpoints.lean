import Mathlib.Data.Finset.Card
import Mathlib.Order.Interval.Finset.Nat
import MoshClient.Theorems.Pass
import MoshClient.Theorems.Replica

/-! The ends of states that the client history keeps. Besides the state that the peer holds, the sent states
    and the latest one, it keeps the ends of states that were never sent. Such a state is followed by a state
    with a further operation, so there are no more of them than there are operations in the log. -/

namespace MoshClient
open Limits Effect SynchronizationState Simulation

variable {T α : Type} {p : Platform T}

namespace Ledger

variable {l l' : Ledger T}

/-- The latest state is one that the peer holds or may hold. -/
def Idle (l : Ledger T) : Prop :=
  l.synchronization.localLatest = l.synchronization.knownReceiverState ∨
    l.synchronization.localLatest ∈ l.synchronization.sentNumbers

/-- An operation has been accepted since the latest state. -/
def Extended (l : Ledger T) : Prop :=
  ∀ x, l.clientHistory.checkpoints.get? l.synchronization.localLatest = some x → x < l.clientHistory.nextOperation

/-- A state that was never sent ends before every later one, and the log is within its limit. -/
structure Apart (l : Ledger T) : Prop where
  separated : ∀ a b x y, l.clientHistory.checkpoints.get? a = some x → l.clientHistory.checkpoints.get? b = some y →
    a < b → a ≠ l.synchronization.knownReceiverState → a ∉ l.synchronization.sentNumbers → x < y
  operations_le : l.clientHistory.operations.length ≤ maxClientOperationsAfterAck

/-- The ends are apart, and the sent states are within their limit. -/
structure Tidy (l : Ledger T) : Prop extends Apart l where
  sent_le : l.synchronization.sentStates.length ≤ maxSentStatesAfterAck

/-! ### What a step keeps -/

theorem Apart.accept (h : l.Apart) (operation : ClientOperation)
    (hroom : l.clientHistory.operations.length < maxClientOperationsAfterAck) : (l.accept operation).Apart := by
  refine ⟨h.separated, ?_⟩
  simp only [Ledger.accept, ClientHistory.extend, List.length_append, List.length_singleton]
  exact hroom

theorem extended_accept (hs : l.Sound) (operation : ClientOperation) : (l.accept operation).Extended := by
  intro x hx
  exact Nat.lt_succ_of_le (hs.bookkept.bounds _ x hx).2

/-- A state is allocated after a sent one, or with an operation of its own. -/
theorem Apart.allocate (h : l.Apart) (hs : l.Sound) (hallowed : l.Idle ∨ l.Extended) : l.allocate.Apart := by
  refine ⟨fun a b x y hx hy hab hknown hsent => ?_, h.operations_le⟩
  simp only [Ledger.allocate, ClientHistory.checkpoint, OrderedMap.get?_insert] at hx hy hknown hsent
  have hkeys : ∀ c z, l.clientHistory.checkpoints.get? c = some z → c ≤ l.synchronization.localLatest :=
    fun c z hz => hs.bookkept.keys_le c (OrderedMap.mem_keys.mpr ⟨z, hz⟩)
  split at hx
  · -- No state is later than the new one.
    split at hy
    · omega
    · have := hkeys b y hy
      omega
  · split at hy
    · cases hy
      -- The new state ends with the log: after the latest state, and with it after every unsent one.
      obtain ⟨z, hz⟩ := OrderedMap.mem_keys.mp hs.bookkept.latest
      have hbound := (hs.bookkept.bounds _ z hz).2
      rcases Nat.lt_or_eq_of_le (hkeys a x hx) with hlt | rfl
      · exact Nat.lt_of_lt_of_le (h.separated _ _ x z hx hz hlt hknown hsent) hbound
      · rcases hallowed with (hidle | hidle) | hextended
        · exact absurd hidle hknown
        · exact absurd hidle hsent
        · exact hextended x hx
    · exact h.separated a b x y hx hy hab hknown hsent

/-- A committed send drops the end of the sent state that it evicts. -/
theorem separated_commit (h : l.Apart) {evicted : Option Nat} {t : SynchronizationState}
    (hc : Committed l.synchronization evicted t) {a b x y : Nat}
    (hx : (l.clientHistory.forget evicted).checkpoints.get? a = some x)
    (hy : (l.clientHistory.forget evicted).checkpoints.get? b = some y) (hab : a < b)
    (hknown : a ≠ t.knownReceiverState) (hsent : a ∉ t.sentNumbers) : x < y := by
  rw [ClientHistory.get?_forget] at hx hy
  split at hx
  · cases hx
  · rename_i hkept
    split at hy
    · cases hy
    · refine h.separated a b x y hx hy hab (hc.known ▸ hknown) fun hmem => hsent ?_
      by_cases hlt : l.synchronization.knownReceiverState < l.synchronization.localLatest
      · cases hc.recorded hlt with
        | again _ heq => exact heq ▸ hmem
        | added _ heq => exact heq ▸ List.mem_append_left _ hmem
        | evicted _ oldest rest hb heq =>
          rw [hb, List.mem_cons] at hmem
          rcases hmem with rfl | hmem
          · exact absurd rfl hkept
          · exact heq ▸ List.mem_append_left _ hmem
      · exact (hc.unrecorded hlt).1 ▸ hmem

/-- An acknowledgement drops the ends of the states before the acknowledged one. -/
theorem separated_acknowledge (h : l.Apart) {n count : Nat} {d : AcknowledgementDisposition} {t : SynchronizationState}
    (ha : Acknowledged n l.synchronization d t) {a b x y : Nat}
    (hx : (l.clientHistory.trim t.knownReceiverState count).checkpoints.get? a = some x)
    (hy : (l.clientHistory.trim t.knownReceiverState count).checkpoints.get? b = some y) (hab : a < b)
    (hknown : a ≠ t.knownReceiverState) (hsent : a ∉ t.sentNumbers) : x < y := by
  rw [ClientHistory.get?_trim] at hx hy
  split at hx
  · rename_i hle
    split at hy
    · refine h.separated a b x y hx hy hab ?_ ?_
      · rcases ha.known_cases with hsame | ⟨hmoved, hlt⟩
        · exact hsame ▸ hknown
        · omega
      · cases ha with
        | kept => exact hsent
        | moved hlt hold =>
          intro hmem
          apply hsent
          obtain ⟨sent, hsent', rfl⟩ := List.mem_map.mp hmem
          refine List.mem_map.mpr ⟨sent, List.mem_filter.mpr ⟨hsent', ?_⟩, rfl⟩
          simp only [decide_eq_true_eq]
          simp only at hle hknown
          omega
    · cases hy
  · cases hx

/-- Every step but an allocation keeps the ends apart and the log within its limit. -/
theorem Apart.step (h : l.Apart) (hstep : Step l l') (hallocated : l'.allocated.length ≤ l.allocated.length) : l'.Apart := by
  cases hstep with
  | allocate =>
    simp only [Ledger.allocate, List.length_append, List.length_singleton] at hallocated
    omega
  | transmit m hm => exact ⟨h.separated, h.operations_le⟩
  | skip sequence rest hrest => exact ⟨h.separated, h.operations_le⟩
  | encrypt sequence hle rest hrest => exact ⟨h.separated, h.operations_le⟩
  | commit evicted t hc =>
    refine ⟨fun a b x y => separated_commit h hc, ?_⟩
    rw [(ClientHistory.forget_operations _ evicted).2.2]
    exact h.operations_le
  | acknowledge n count d t ha hcount =>
    refine ⟨fun a b x y => separated_acknowledge h ha, ?_⟩
    simp only [ClientHistory.trim, List.length_drop]
    exact Nat.le_trans (Nat.sub_le _ _) h.operations_le
  | construct plan commit t terminal hp hc =>
    have hnumbers : t.sentNumbers = l.synchronization.sentNumbers := congrArg (List.map SentState.number) hc.sender.sent
    refine ⟨fun a b x y hx hy hab hknown hsent => ?_, h.operations_le⟩
    exact h.separated a b x y hx hy hab (hc.sender.known ▸ hknown) (hnumbers ▸ hsent)

theorem Step.allocated_le (h : Step l l') : l.allocated.length ≤ l'.allocated.length := by
  cases h <;> simp [Ledger.allocate]

theorem Apart.reaches (h : l.Apart) (hreach : Reaches l l') (hallocated : l'.allocated.length ≤ l.allocated.length) :
    l'.Apart := by
  have hgrows : ∀ {m : Ledger T}, Reaches l m → l.allocated.length ≤ m.allocated.length := by
    intro m hm
    induction hm with
    | refl => exact Nat.le_refl _
    | tail _ hstep ih => exact ih.trans hstep.allocated_le
  induction hreach with
  | refl => exact h
  | tail hbefore hstep ih =>
    exact (ih (hstep.allocated_le.trans hallocated)).step hstep (hallocated.trans (hgrows hbefore))

/-! ### Counting the ends -/

/-- The ends of states that are neither known to the peer, nor sent, nor the latest: no more than the log has
    operations, since they end at different places of it. -/
theorem card_unsent_le (h : l.Apart) (hs : l.Sound) :
    (l.clientHistory.checkpoints.keys.toFinset.filter fun a => a ≠ l.synchronization.knownReceiverState ∧
      a ∉ l.synchronization.sentNumbers ∧ a ≠ l.synchronization.localLatest).card ≤
      l.clientHistory.operations.length := by
  have hlength := hs.bookkept.length
  obtain ⟨z, hz⟩ := OrderedMap.mem_keys.mp hs.bookkept.latest
  calc _ ≤ (Finset.Ico l.clientHistory.operationOffset l.clientHistory.nextOperation).card := by
        refine Finset.card_le_card_of_injOn (fun a => (l.clientHistory.checkpoints.get? a).getD 0) ?_ ?_
        · intro a ha
          simp only [Finset.mem_coe, Finset.mem_filter, List.mem_toFinset] at ha
          obtain ⟨hmem, hknown, hsent, hlatest⟩ := ha
          obtain ⟨x, hx⟩ := OrderedMap.mem_keys.mp hmem
          have hlt := Nat.lt_of_le_of_ne (hs.bookkept.keys_le a hmem) hlatest
          have hxz := h.separated _ _ x z hx hz hlt hknown hsent
          have hbound := hs.bookkept.bounds _ z hz
          simp only [hx, Option.getD_some, Finset.coe_Ico, Set.mem_Ico]
          exact ⟨(hs.bookkept.bounds a x hx).1, by omega⟩
        · intro a ha b hb heq
          simp only [Finset.mem_coe, Finset.mem_filter, List.mem_toFinset] at ha hb
          obtain ⟨hmem, hknown, hsent, -⟩ := ha
          obtain ⟨hmem', hknown', hsent', -⟩ := hb
          obtain ⟨x, hx⟩ := OrderedMap.mem_keys.mp hmem
          obtain ⟨y, hy⟩ := OrderedMap.mem_keys.mp hmem'
          simp only [hx, hy, Option.getD_some] at heq
          rcases Nat.lt_trichotomy a b with hab | hab | hab
          · exact absurd (h.separated a b x y hx hy hab hknown hsent) (by omega)
          · exact hab
          · exact absurd (h.separated b a y x hy hx hab hknown' hsent') (by omega)
    _ = l.clientHistory.operations.length := by
        rw [Nat.card_Ico]
        omega

/-- The ends of the known state, the latest one, the sent ones and the others. -/
theorem Tidy.size_le (h : l.Tidy) (hs : l.Sound) :
    l.clientHistory.checkpoints.size ≤ l.clientHistory.operations.length + 34 := by
  have hcover : l.clientHistory.checkpoints.keys.toFinset ⊆
      (l.clientHistory.checkpoints.keys.toFinset.filter fun a => a ≠ l.synchronization.knownReceiverState ∧
        a ∉ l.synchronization.sentNumbers ∧ a ≠ l.synchronization.localLatest) ∪
      (l.synchronization.sentNumbers.toFinset ∪ {l.synchronization.knownReceiverState, l.synchronization.localLatest}) := by
    intro a ha
    simp only [Finset.mem_union, Finset.mem_filter, List.mem_toFinset, Finset.mem_insert, Finset.mem_singleton] at ha ⊢
    by_cases hknown : a = l.synchronization.knownReceiverState
    · exact Or.inr (Or.inr (Or.inl hknown))
    · by_cases hsent : a ∈ l.synchronization.sentNumbers
      · exact Or.inr (Or.inl hsent)
      · by_cases hlatest : a = l.synchronization.localLatest
        · exact Or.inr (Or.inr (Or.inr hlatest))
        · exact Or.inl ⟨ha, hknown, hsent, hlatest⟩
  have hunsent := card_unsent_le h.toApart hs
  have hsent : l.synchronization.sentNumbers.toFinset.card ≤ maxSentStatesAfterAck := by
    refine (List.toFinset_card_le _).trans ?_
    rw [sentNumbers, List.length_map]
    exact h.sent_le
  have htwo : ({l.synchronization.knownReceiverState, l.synchronization.localLatest} : Finset Nat).card ≤ 2 :=
    Finset.card_le_two
  have hsize : l.clientHistory.checkpoints.size = l.clientHistory.checkpoints.keys.toFinset.card := by
    rw [List.toFinset_card_of_nodup (OrderedMap.keys_nodup _), OrderedMap.keys, List.length_map]
    rfl
  calc l.clientHistory.checkpoints.size
      = l.clientHistory.checkpoints.keys.toFinset.card := hsize
    _ ≤ _ := Finset.card_le_card hcover
    _ ≤ _ := Finset.card_union_le _ _
    _ ≤ _ := Nat.add_le_add hunsent ((Finset.card_union_le _ _).trans (Nat.add_le_add hsent htwo))

end Ledger

namespace SessionDriver

/-! ### Methods that allocate nothing -/

/-- The method allocates no state, and keeps the sent states within their limit. -/
def unallocating : Simulation DriverError (SessionDriver T) (Nat × Nat) where
  view d := (d.trace.allocated.length, d.synchronization.sentStates.length)
  Step a b := b.1 = a.1 ∧ (a.2 ≤ maxSentStatesAfterAck → b.2 ≤ maxSentStatesAfterAck)
  Invariant _ := True
  invariant_step _ _ := trivial
  Allowed _ := True

theorem unallocating_reaches {a b : Nat × Nat} (h : (unallocating (T := T)).Reaches a b) :
    b.1 = a.1 ∧ (a.2 ≤ maxSentStatesAfterAck → b.2 ≤ maxSentStatesAfterAck) := by
  induction h with
  | refl => exact ⟨rfl, id⟩
  | tail _ hstep ih => exact ⟨hstep.1.trans ih.1, fun ha => hstep.2 (ih.2 ha)⟩

/-- What neither the trace nor the sent states show is no allocation. -/
theorem unallocating_of_frame {m : Driving T α} (h : (frame unallocating.view).Unseen m) : unallocating.Follows m :=
  (Unseen.of_view (W := unallocating) (f := id) h (fun _ => rfl) fun _ => trivial).follows

theorem unallocating_onSynchronization {m : Synchronizing α}
    (hm : ∀ s, s.sentStates.length ≤ maxSentStatesAfterAck →
      wp m (fun _ t => t.sentStates.length ≤ maxSentStatesAfterAck)
        (fun _ t => t.sentStates.length ≤ maxSentStatesAfterAck) s) :
    unallocating.Follows (onSynchronization m : Driving T α) := by
  intro s _
  rw [onSynchronization, wp_zoom]
  refine wp_intro (fun a t hok => ?_) fun e t herror => ⟨?_, trivial⟩
  · exact .single ⟨rfl, fun hle => (hm _ hle).ok hok⟩
  · exact .single ⟨rfl, fun hle => (hm _ hle).error herror⟩

theorem unallocating_transmit (p : Platform T) (env : Transmission) (m : TransportInstruction) (nowMs : Nat) :
    unallocating.Follows (sendTransportInstruction p env m nowMs) := by
  refine unallocating_of_frame fun s => ?_
  exact (wp_transmit p env m nowMs s).mono (fun _ _ h => (congrArg unallocating.view h :))
    fun _ _ h => ⟨(congrArg unallocating.view h :), trivial⟩

theorem unallocating_commitSend (plan : SendPlan) : unallocating.Follows (commitSend plan : Driving T Unit) := by
  refine (unallocating_onSynchronization fun s hle => ?_).bind fun commit => ?_
  · refine wp_intro (fun _ t hok => ?_) fun _ t herror => ?_
    · have hexec : exec (SynchronizationState.commitSend plan) s = t := by rw [exec, hok]
      exact hexec ▸ (senderMove_commit s plan).length_le hle
    · rw [((SynchronizationState.wp_commitSend s plan).error herror).1]
      exact hle
  · split
    · exact unallocating_of_frame (unseen_modify fun _ => by rfl)
    · exact unallocating_of_frame (unseen_pure _)

theorem unallocating_sendPlanned (p : Platform T) (env : Transmission) (wakePlan : WakePlan) (now : Nat) (plan : SendPlan) :
    unallocating.Follows (sendPlanned p env wakePlan now plan) := by
  refine (unallocating_of_frame (frame_planDifference _ _)).bind fun difference => ?_
  refine (unallocating_transmit p env _ now).bind fun outcome => ?_
  cases outcome with
  | sent => exact (unallocating_commitSend plan).bind fun _ => unallocating_of_frame (frame_zoom fun _ _ => rfl)
  | cancelled => exact unallocating_of_frame (unseen_pure _)
  | deferred =>
    refine unallocating_of_frame ((frame_nowMs _).bind fun _ => unseen_get.bind fun _ => ?_)
    exact frame_zoom fun _ _ => rfl

theorem unallocating_acknowledgeHistory : unallocating.Follows (acknowledgeHistory : Driving T Unit) :=
  unallocating_of_frame (unseen_get.bind fun _ => frame_zoom fun _ _ => rfl)

theorem unallocating_settleRemoteState (p : Platform T) (nowMs : Nat) (disposition : RemoteStateDisposition) :
    unallocating.Follows (settleRemoteState p nowMs disposition) := by
  cases disposition with
  | apply plan =>
    refine unseen_get.follows.bind fun _ => (unseen_ofOption trivial).follows.bind fun _ => ?_
    refine (unseen_ofExcept fun _ => trivial).follows.bind fun _ => (unseen_ofExcept fun _ => trivial).follows.bind fun next => ?_
    refine (unallocating_onSynchronization fun s hle => ?_).bind fun commit => ?_
    · refine wp_intro (fun _ t hok => ?_) fun _ t herror => ?_
      · rw [(commitReceive_mem hok).1.sent]
        exact hle
      · rw [commitReceive_error herror]
        exact hle
    · refine Follows.bind (unallocating_of_frame (unseen_modify fun _ => by rfl)) fun _ => unseen_get.follows.bind fun _ => ?_
      refine .ite (unallocating_of_frame ?_) (unallocating_of_frame (unseen_pure _))
      exact frame_noteLatestState (fun _ _ => by rfl) (fun _ _ => by rfl) (fun _ _ => by rfl) p nowMs _
  | alreadyConstructed => exact unallocating_of_frame (unseen_pure _)
  | missingReference => exact unallocating_of_frame (unseen_pure _)
  | belowThrowawayFloor => exact unallocating_of_frame (unseen_pure _)
  | belowRetentionWindow => exact unallocating_of_frame (unseen_pure _)

theorem unallocating_handleNormalInstruction (p : Platform T) (elapsedMs : Nat) (instruction : TransportInstruction) :
    unallocating.Follows (handleNormalInstruction p elapsedMs instruction) := by
  refine (unallocating_of_frame (frame_nowMs _)).bind fun now => unseen_get.follows.bind fun _ => ?_
  refine (unallocating_onSynchronization fun s hle => ?_).bind fun transition => ?_
  · refine (wp_beginReceive instruction s).mono (fun _ t h => h.2.1.senderMove.length_le hle) fun _ t h => ?_
    rw [h.1]
    exact hle
  · refine Follows.bind (unallocating_of_frame (frame_noteReply (fun _ _ => by rfl) _ _)) fun _ => ?_
    refine unallocating_acknowledgeHistory.bind fun _ => ?_
    refine Follows.bind (unallocating_of_frame (frame_zoom fun _ _ => by rfl)) fun _ => ?_
    refine (unallocating_settleRemoteState p now _).bind fun _ => ?_
    exact unallocating_of_frame (frame_publishReachability (fun _ _ _ => by rfl) now)

theorem unallocating_handleRemoteShutdown (p : Platform T) (instruction : TransportInstruction) :
    unallocating.Follows (handleRemoteShutdown p instruction) := by
  refine unseen_get.follows.bind fun _ => (unallocating_onSynchronization fun s hle => ?_).bind fun transition => ?_
  · refine (wp_beginShutdownReceive _ s).mono (fun _ t h => ?_) fun _ t h => ?_
    · obtain ⟨-, d, hack⟩ := h
      exact hack.senderMove.length_le hle
    · rw [h.1]
      exact hle
  · refine unallocating_acknowledgeHistory.bind fun _ => unallocating_of_frame ?_
    refine unseen_get.bind fun _ => (unseen_ofOption trivial).bind fun _ => (unseen_ofExcept fun _ => trivial).bind fun _ => ?_
    exact (unseen_ofExcept fun _ => trivial).bind fun _ => unseen_modify fun _ => by rfl

theorem unallocating_shutdownPass (p : Platform T) (env : Transmission) (elapsedMs : Nat) (progress : LocalShutdown) :
    unallocating.Follows (shutdownPass p env elapsedMs progress) := by
  refine follows_shutdownPass_of trivial (fun now => unseen_get.follows.bind fun _ => ?_) elapsedMs progress
  exact (unallocating_of_frame (frame_planDifference _ _)).bind fun _ => unallocating_transmit p env _ now

/-! ### Methods that keep the ends tidy -/

/-- The driver, as far as its ledger is sound and tidy. -/
def tidying : Simulation DriverError (SessionDriver T) (Ledger T) := keeping ledger fun l => l.Sound ∧ l.Tidy

/-- A method that follows the ledger and allocates nothing keeps the ends tidy. -/
theorem tidying_of_unallocating {m : Driving T α} {s : SessionDriver T} (h : bookkeeping.FollowsFrom m s)
    (hm : unallocating.FollowsFrom m s) : tidying.FollowsFrom m s := by
  refine followsFrom_keeping.mpr ?_
  rintro ⟨hs, htidy⟩
  have hkeep : ∀ t : SessionDriver T, bookkeeping.Reaches s.ledger t.ledger →
      (unallocating (T := T)).Reaches (unallocating.view s) (unallocating.view t) → t.ledger.Sound ∧ t.ledger.Tidy := by
    intro t hreach hquiet
    obtain ⟨hallocated, hsent⟩ := unallocating_reaches hquiet
    exact ⟨invariant_reaches hs hreach, htidy.toApart.reaches hreach (Nat.le_of_eq hallocated), hsent htidy.sent_le⟩
  exact ((h hs).and (hm trivial)).mono (fun _ t ht => hkeep t ht.1 ht.2) fun _ t ht => hkeep t ht.1.1 ht.2.1

theorem tidying_follows {m : Driving T α} (h : bookkeeping.Follows m) (hm : unallocating.Follows m) : tidying.Follows m :=
  fun s => tidying_of_unallocating (h s) (hm s)

theorem tidying_unseen {m : Driving T α} (h : bookkeeping.Unseen m) : tidying.Follows m :=
  (Unseen.of_view (W := tidying) (f := id) h (fun _ => rfl) fun _ => trivial).follows

/-- A state is allocated after a sent one, or after an operation. -/
theorem tidying_allocateState {s : SessionDriver T} (h : s.ledger.Idle ∨ s.ledger.Extended) :
    tidying.FollowsFrom allocateState s := by
  refine followsFrom_keeping.mpr ?_
  rintro ⟨hs, htidy⟩
  refine (wp_allocateState s).mono (fun _ t ht => ?_) fun _ t ht => ?_
  · rw [ht.1]
    exact ⟨hs.step (.allocate _), htidy.toApart.allocate hs h, htidy.sent_le⟩
  · rw [ht.1]
    exact ⟨hs, htidy⟩

/-- Without a new state to send, the latest one is known to the peer or sent. -/
theorem idle_of_noNewState {s : SessionDriver T} (hs : s.ledger.Sound) {nowMs timeoutMs : Nat}
    (h : s.synchronization.planSend nowMs timeoutMs = .error .noNewState) : s.ledger.Idle := by
  unfold SynchronizationState.planSend at h
  split at h
  · cases h
  · split at h
    · rename_i herror
      rw [selectBase_error herror] at h
      cases h
    · rename_i base hbase
      split at h
      · rename_i hle
        have hmem := selectBase_ok hbase
        rw [List.map_reverse, List.mem_reverse] at hmem
        rcases hmem with rfl | hsent
        · exact Or.inl (Nat.le_antisymm hle hs.sender.known_le)
        · refine Or.inr ?_
          rw [show s.ledger.synchronization.localLatest = base from
            Nat.le_antisymm hle (hs.sender.le_latest base hsent)]
          exact hsent
      · cases h

theorem tidying_sendInstruction (p : Platform T) (env : Transmission) {wakePlan : WakePlan} (now : Nat)
    {s : SessionDriver T} (hwake : SendScheduler.Current wakePlan s.scheduler) :
    tidying.FollowsFrom (sendInstruction p env wakePlan now) s := by
  refine followsFrom_keeping_bind (m := planOrAllocate now) (f := sendPlanned p env wakePlan now)
    (Q := fun plan t => Planned t.synchronization now plan ∧ t.scheduler = s.scheduler) ?_ ?_
  · intro hs
    refine ((?_ : wp (planOrAllocate now) (fun _ t => t.ledger.Sound ∧ t.ledger.Tidy)
      (fun _ t => t.ledger.Sound ∧ t.ledger.Tidy) s).and (wp_planOrAllocate now s)).mono
      (fun _ _ h => ⟨h.1, h.2.2⟩) fun _ _ h => h.1
    simp only [planOrAllocate, wp_bind, wp_get]
    split
    · exact hs
    · rename_i hnone
      rw [wp_bind]
      refine (followsFrom_keeping.mp (tidying_allocateState (Or.inl (idle_of_noNewState hs.1 hnone))) hs).mono
        (fun _ t ht => ?_) fun _ _ h => h
      exact (wp_planSend now t).mono (fun _ _ h => h.1 ▸ ht) fun _ _ h => h.1 ▸ ht
    · exact hs
  · rintro plan t ⟨hplan, hscheduler⟩
    exact tidying_of_unallocating (follows_sendPlanned p env hplan (hscheduler ▸ hwake))
      (unallocating_sendPlanned p env wakePlan now plan t)

theorem tidying_pass (p : Platform T) (env : Transmission) (elapsedMs : Nat) : tidying.Follows (pass p env elapsedMs) := by
  refine (tidying_unseen (unseen_nowMs _)).bind fun now => (tidying_unseen (unseen_publishReachability now)).bind fun _ => ?_
  refine unseen_get.follows.bind fun _ => .ite (unseen_throw trivial).follows ?_
  refine (tidying_unseen (unseen_onReassembler _)).bind fun _ => ?_
  refine Follows.bind (tidying_unseen (unseen_modify (ledger_expirePrediction now))) fun _ => ?_
  refine Follows.bind (tidying_unseen (unseen_modify (ledger_updatePredictionPolicy now))) fun _ s => ?_
  refine followsFrom_keeping_bind (Q := fun answer t => ∀ plan, answer = .send plan → SendScheduler.Current plan t.scheduler)
    (fun hs => ?_) fun answer t ht => ?_
  · have hledger : wp (pollScheduler now) (fun _ t => t.ledger = s.ledger) (fun _ t => t.ledger = s.ledger) s := by
      rw [pollScheduler, wp_bind, wp_get, onScheduler, wp_zoom]
      exact wp_intro (fun _ _ _ => rfl) fun _ _ _ => rfl
    exact (hledger.and (wp_pollScheduler now s)).mono (fun _ _ h => ⟨h.1 ▸ hs, h.2.2⟩) fun _ _ h => h.1 ▸ hs
  · cases answer with
    | send plan => exact (tidying_sendInstruction p env now (ht plan rfl)).bind fun _ => (unseen_pure _).follows
    | pending wakeAtMs => exact (tidying_unseen (unseen_runWait now wakeAtMs)).bind (fun _ => (unseen_pure _).follows) t

theorem tidying_appendOperation (operation : ClientOperation) (s : SessionDriver T) (hs : s.ledger.Sound ∧ s.ledger.Tidy) :
    wp (appendOperation operation) (fun _ t => (t.ledger.Sound ∧ t.ledger.Tidy) ∧ t.ledger.Extended)
      (fun _ t => t.ledger.Sound ∧ t.ledger.Tidy) s := by
  have hroom : wp (appendOperation operation)
      (fun _ _ => s.clientHistory.operations.length < maxClientOperationsAfterAck) (fun _ _ => True) s := by
    rw [appendOperation, wp_bind, onClientHistory, wp_zoom]
    refine wp_intro (fun _ h hok => ?_) fun _ _ _ => trivial
    rw [wp_modify]
    unfold ClientHistory.append at hok
    split at hok
    · cases hok
    · rename_i hne
      exact Nat.lt_of_le_of_ne hs.2.operations_le hne
  refine ((wp_appendOperation operation s).and hroom).mono (fun _ t ht => ?_) fun _ t ht => ?_
  · rw [ht.1]
    exact ⟨⟨hs.1.accept operation, hs.2.toApart.accept operation ht.2, hs.2.sent_le⟩, Ledger.extended_accept hs.1 operation⟩
  · rw [ht.1.1]
    exact hs

theorem tidying_advanceClient (operation : ClientOperation) (nowMs : Nat) :
    tidying.Follows (advanceClient operation nowMs : Driving T Nat) := by
  intro s
  refine followsFrom_keeping_bind (Q := fun _ t => t.ledger.Extended) (tidying_appendOperation operation s) fun _ t hextended => ?_
  refine (tidying_allocateState (Or.inr hextended)).bind fun _ => ?_
  exact (tidying_unseen (unseen_onScheduler (SendScheduler.neverStale_noteLocalChange nowMs))).bind fun _ =>
    (unseen_pure _).follows

theorem tidying_predictInput (p : Platform T) (state : Nat) (bytes : Bytes) (nowMs : Nat) :
    tidying.Follows (predictInput p state bytes nowMs) := by
  refine tidying_follows (follows_predictInput p state bytes nowMs) (unallocating_of_frame ?_)
  exact frame_predictInput (fun requested _ _ => by cases requested <;> rfl) p state bytes nowMs

theorem tidying_handleCommand (p : Platform T) (elapsedMs : Nat) (command : SessionCommand) :
    tidying.Follows (handleCommand p elapsedMs command) := by
  refine (tidying_unseen (unseen_nowMs _)).bind fun now => ?_
  cases command with
  | input bytes =>
    exact .ite (unseen_pure _).follows ((tidying_advanceClient _ now).bind fun state => tidying_predictInput p state bytes now)
  | resize columns rows =>
    refine (tidying_advanceClient _ now).bind fun _ => unseen_get.follows.bind fun _ => ?_
    exact tidying_predictInput p _ [] now
  | repaint => exact tidying_unseen (unseen_modify fun _ => by rfl)

/-! ### The answer to a shutdown -/

/-- What `receive` does with a datagram, up to the acknowledgement of the peer's shutdown; without a result, the
    acknowledgement is due. -/
def readDatagram (p : Platform T) (elapsedMs decodedAtMs handledAtMs : Nat)
    (received : Except ErrorKind (Bytes × SocketAddr)) (loop : TaskLoop) : Driving T (Option AfterDatagram) := do
  match ← classifyReceive elapsedMs received with
  | none => return some .again
  | some (datagram, source) =>
    match loop with
    | .run => do
      match ← handleDatagram p decodedAtMs handledAtMs datagram source with
      | .continue => return some .again
      | .remoteShutdown => return none
    | .localShutdown _ => do
      match ← decodeDatagram p decodedAtMs datagram source with
      | none => return some .again
      | some instruction =>
        let acknowledged := instruction.acknowledgedState == shutdownState
        if instruction.isShutdown then do
          handleRemoteShutdown p instruction
          return none
        else do
          let self ← get
          let ordinary :=
            if acknowledged then
              { instruction with acknowledgedState := self.synchronization.knownReceiverState }
            else instruction
          handleNormalInstruction p handledAtMs ordinary
          let self ← get
          if acknowledged ∨ self.finalTerminal.isSome then return some (.finish .localClosed) else return some .again

/-- The acknowledgement of the peer's shutdown, in either loop. -/
def answerShutdown (p : Platform T) (env : Transmission) (handledAtMs repliedAtMs : Nat) :
    TaskLoop → Driving T AfterDatagram
  | .run => do
    let now ← nowMs repliedAtMs
    if ← sendShutdownAcknowledgement p env now then return .finish .remoteClosed else return .exit .cancelled
  | .localShutdown _ => do
    let now ← nowMs handledAtMs
    if ← sendShutdownAcknowledgement p env now then return .finish .localClosed else return .exit .cancelled

/-- `receive` is the one and then, if it is due, the other. -/
theorem wp_receive_iff (env : Transmission) (elapsedMs decodedAtMs handledAtMs repliedAtMs : Nat)
    (received : Except ErrorKind (Bytes × SocketAddr)) (loop : TaskLoop) {Q : AfterDatagram → SessionDriver T → Prop}
    {E : DriverError → SessionDriver T → Prop} {s : SessionDriver T} :
    wp (receive p env elapsedMs decodedAtMs handledAtMs repliedAtMs received loop) Q E s ↔
      wp (readDatagram p elapsedMs decodedAtMs handledAtMs received loop)
        (fun after t => match after with
          | some after => Q after t
          | none => wp (answerShutdown p env handledAtMs repliedAtMs loop) Q E t) E s := by
  rw [receive, readDatagram, wp_bind, wp_bind]
  refine iff_of_eq (congrArg (fun post => wp (classifyReceive elapsedMs received) post E s) ?_)
  funext classified t
  cases classified with
  | none => rfl
  | some datagram =>
    cases loop with
    | run =>
      simp only [wp_bind]
      refine congrArg (fun post => wp _ post E t) ?_
      funext outcome u
      cases outcome <;> rfl
    | localShutdown progress =>
      simp only [wp_bind, handleShutdownDatagram]
      refine congrArg (fun post => wp _ post E t) ?_
      funext decoded u
      cases decoded with
      | none => rfl
      | some instruction =>
        simp only [wp_bind, wp_ite, wp_get, wp_pure, answerShutdown]

theorem tidying_decodeDatagram (p : Platform T) (elapsedMs : Nat) (datagram : Bytes) (source : SocketAddr) :
    tidying.Follows (decodeDatagram p elapsedMs datagram source) :=
  tidying_unseen (unseen_decodeDatagram p elapsedMs datagram source)

theorem tidying_handleRemoteShutdown (p : Platform T) (instruction : TransportInstruction) :
    tidying.Follows (handleRemoteShutdown p instruction) :=
  tidying_follows (follows_handleRemoteShutdown p instruction) (unallocating_handleRemoteShutdown p instruction)

theorem tidying_handleNormalInstruction (p : Platform T) (elapsedMs : Nat) (instruction : TransportInstruction) :
    tidying.Follows (handleNormalInstruction p elapsedMs instruction) :=
  tidying_follows (follows_handleNormalInstruction p elapsedMs instruction)
    (unallocating_handleNormalInstruction p elapsedMs instruction)

theorem tidying_readDatagram (p : Platform T) (elapsedMs decodedAtMs handledAtMs : Nat)
    (received : Except ErrorKind (Bytes × SocketAddr)) (loop : TaskLoop) :
    tidying.Follows (readDatagram p elapsedMs decodedAtMs handledAtMs received loop) := by
  refine (tidying_unseen (unseen_classifyReceive elapsedMs received)).bind fun classified => ?_
  cases classified with
  | none => exact (unseen_pure _).follows
  | some datagram =>
    cases loop with
    | run =>
      refine Follows.bind ((tidying_decodeDatagram p _ _ _).bind fun decoded => ?_) fun outcome => ?_
      · cases decoded with
        | none => exact (unseen_pure _).follows
        | some instruction =>
          refine .ite ?_ ?_
          · exact (tidying_handleRemoteShutdown p instruction).bind fun _ => (unseen_pure _).follows
          · exact (tidying_handleNormalInstruction p _ instruction).bind fun _ => (unseen_pure _).follows
      · cases outcome <;> exact (unseen_pure _).follows
    | localShutdown progress =>
      refine (tidying_decodeDatagram p _ _ _).bind fun decoded => ?_
      cases decoded with
      | none => exact (unseen_pure _).follows
      | some instruction =>
        refine .ite ?_ ?_
        · exact (tidying_handleRemoteShutdown p instruction).bind fun _ => (unseen_pure _).follows
        · refine unseen_get.follows.bind fun _ => (tidying_handleNormalInstruction p _ _).bind fun _ => ?_
          exact (unseen_get.bind fun _ => .ite (unseen_pure _) (unseen_pure _)).follows

/-- A datagram after which no acknowledgement is due keeps the ends tidy. -/
theorem tidying_receive (p : Platform T) (env : Transmission) (elapsedMs decodedAtMs handledAtMs repliedAtMs : Nat)
    (received : Except ErrorKind (Bytes × SocketAddr)) (loop : TaskLoop) {s : SessionDriver T}
    (hquiet : ∀ t, readDatagram p elapsedMs decodedAtMs handledAtMs received loop s ≠ .ok none t) :
    tidying.FollowsFrom (receive p env elapsedMs decodedAtMs handledAtMs repliedAtMs received loop) s := by
  refine followsFrom_keeping.mpr fun hs => (wp_receive_iff _ _ _ _ _ _ _).mpr ?_
  have hread := followsFrom_keeping.mp (tidying_readDatagram p elapsedMs decodedAtMs handledAtMs received loop s) hs
  refine wp_intro (fun after t hok => ?_) fun e t herror => hread.error herror
  cases after with
  | none => exact absurd hok (hquiet t)
  | some after => exact hread.ok hok

theorem tidying_emitOutput (p : Platform T) : tidying.Follows (emitOutput p) :=
  tidying_follows (follows_emitOutput p) (unallocating_of_frame (frame_emitOutput (fun _ _ _ => by rfl) p))

end SessionDriver

/-! ### Runs -/

namespace Session
open SessionDriver

variable {s : Session T}

/-- The step of the task reads a shutdown of the peer, and goes on to acknowledge it. -/
def Answers (p : Platform T) (s : Session T) : SessionAction → Prop
  | .drive input => ∃ loop wait received decodedAtMs handledAtMs repliedAtMs t,
      s.task = .waiting loop wait .rest ∧ wait.receiveEnabled = true ∧
      input.ready = .datagram received decodedAtMs handledAtMs repliedAtMs ∧
      readDatagram p input.elapsedMs decodedAtMs handledAtMs received loop s.driver = .ok none t
  | _ => False

theorem tidy_perform {m : Driving T α} (next : α → TaskState) (hm : tidying.FollowsFrom m s.driver)
    (hs : s.driver.ledger.Sound ∧ s.driver.ledger.Tidy) :
    (s.perform m next).driver.ledger.Sound ∧ (s.perform m next).driver.ledger.Tidy :=
  perform_of_wp (I := fun _ d => d.ledger.Sound ∧ d.ledger.Tidy) (followsFrom_keeping.mp hm hs)

/-- A wait that does not receive leaves a datagram where it is. -/
theorem step_disabled {input : TaskInput} {loop : TaskLoop} {wait : Wait} {received : Except ErrorKind (Bytes × SocketAddr)}
    {decodedAtMs handledAtMs repliedAtMs : Nat} (htask : s.task = .waiting loop wait .rest)
    (hdisabled : wait.receiveEnabled = false) (hready : input.ready = .datagram received decodedAtMs handledAtMs repliedAtMs) :
    s.step p (.drive input) = s := by
  simp [Session.step, drive, htask, pollRest, hready, hdisabled]

theorem tidy_drive {input : TaskInput} {t : Session T} (hdrives : Drives p input s t)
    (hreceive : ∀ loop wait received decodedAtMs handledAtMs repliedAtMs, s.task = .waiting loop wait .rest →
      input.ready = .datagram received decodedAtMs handledAtMs repliedAtMs →
      ∀ u, readDatagram p input.elapsedMs decodedAtMs handledAtMs received loop s.driver ≠ .ok none u)
    (hs : s.driver.ledger.Sound ∧ s.driver.ledger.Tidy) : t.driver.ledger.Sound ∧ t.driver.ledger.Tidy := by
  cases hdrives with
  | rest => exact hs
  | leave => exact hs
  | poll => exact hs
  | wake => exact hs
  | pass => exact tidy_perform _ (tidying_pass p _ _ _) hs
  | shutdownPass progress =>
    exact tidy_perform _ (tidying_follows (follows_shutdownPass p _ _ progress) (unallocating_shutdownPass p _ _ progress) _) hs
  | command loop wait command => exact tidy_perform _ (tidying_handleCommand p _ command _) hs
  | begin => exact tidy_perform _ (tidying_unseen (unseen_beginLocalShutdown _) _) hs
  | output => exact tidy_perform _ (tidying_emitOutput p _) hs
  | receive loop wait received decodedAtMs handledAtMs repliedAtMs htask hready =>
    exact tidy_perform _ (tidying_receive p _ _ _ _ _ _ _ (hreceive loop wait received _ _ _ htask hready)) hs
  | finish => exact hs
  | lastOutput => exact tidy_perform _ (tidying_emitOutput p _) hs

theorem tidy_step {action : SessionAction} (hquiet : ¬s.Answers p action)
    (hs : s.driver.ledger.Sound ∧ s.driver.ledger.Tidy) :
    (s.step p action).driver.ledger.Sound ∧ (s.step p action).driver.ledger.Tidy := by
  by_cases hdisabled : s.step p action = s
  · rw [hdisabled]
    exact hs
  · refine invariant_step (I := fun s => s.driver.ledger.Sound ∧ s.driver.ledger.Tidy) (fun {s t} hwork hs => ?_)
      (fun input t haction hdrives => ?_) hs
    · have hdriver : t.driver = s.driver := congrArg Prod.fst hwork
      rw [hdriver]
      exact hs
    · subst haction
      refine tidy_drive hdrives (fun loop wait received _ _ _ htask hready u hread => ?_) hs
      cases henabled : wait.receiveEnabled with
      | false => exact hdisabled (step_disabled htask henabled hready)
      | true => exact hquiet ⟨loop, wait, received, _, _, _, u, htask, henabled, hready, hread⟩

end Session

theorem Connection.tidy (c : Connection p) : c.driver.ledger.Tidy := by
  obtain ⟨initialTerminal, h⟩ := c.ledger_eq
  have hs := SessionDriver.sound_initial c.serverAddr initialTerminal c.mode
  have hempty : (SessionDriver.initial c.serverAddr initialTerminal c.mode).ledger.Apart := by
    refine ⟨fun a b x y hx hy hab => ?_, Nat.zero_le _⟩
    have ha := hs.bookkept.keys_le a (OrderedMap.mem_keys.mpr ⟨x, hx⟩)
    have hb := hs.bookkept.keys_le b (OrderedMap.mem_keys.mpr ⟨y, hy⟩)
    exact absurd (Nat.le_zero.mp hb) (by omega)
  have happend := hempty.accept (.resize c.columns c.rows) (show 0 < maxClientOperationsAfterAck by decide)
  rw [h]
  exact ⟨happend.allocate (hs.accept _) (Or.inr (Ledger.extended_accept hs _)), Nat.zero_le _⟩

/-- A run of a session up to the first step that goes on to acknowledge a shutdown of the peer. -/
structure UnansweredRun (p : Platform T) where
  connection : Connection p
  actions : List SessionAction
  quiet : ∀ before action after, actions = before ++ action :: after →
    ¬((Session.start connection.driver).run p before).Answers p action

namespace UnansweredRun

/-- The driver at the end of the run. -/
def driver (r : UnansweredRun p) : SessionDriver T := ((Session.start r.connection.driver).run p r.actions).driver

theorem tidy (r : UnansweredRun p) : r.driver.ledger.Sound ∧ r.driver.ledger.Tidy := by
  have hbefore : ∀ before after, r.actions = before ++ after →
      ((Session.start r.connection.driver).run p before).driver.ledger.Sound ∧
        ((Session.start r.connection.driver).run p before).driver.ledger.Tidy := by
    intro before
    induction before using List.reverseRecOn with
    | nil => exact fun _ _ => ⟨r.connection.sound, r.connection.tidy⟩
    | append_singleton before action ih =>
      intro after hsplit
      rw [List.append_assoc, List.singleton_append] at hsplit
      rw [Session.run, List.foldl_append]
      exact Session.tidy_step (r.quiet before action after hsplit) (ih _ hsplit)
  exact hbefore r.actions [] (List.append_nil _).symm

/-- Whatever is sent, deferred, refused, evicted, commanded and acknowledged, and however long the peer is
    silent, the ends that the history keeps are bounded by its log, which is within its limit. -/
theorem checkpoints_bounded (r : UnansweredRun p) :
    r.driver.clientHistory.checkpoints.size ≤ 2 * r.driver.clientHistory.operations.length + 34 ∧
      r.driver.clientHistory.operations.length ≤ maxClientOperationsAfterAck ∧
      r.driver.clientHistory.checkpoints.size ≤ 2 * maxClientOperationsAfterAck + 34 := by
  obtain ⟨hs, htidy⟩ := r.tidy
  have hsize : r.driver.clientHistory.checkpoints.size ≤ r.driver.clientHistory.operations.length + 34 := htidy.size_le hs
  have hlog : r.driver.clientHistory.operations.length ≤ maxClientOperationsAfterAck := htidy.operations_le
  exact ⟨by omega, hlog, by omega⟩

end UnansweredRun
end MoshClient
