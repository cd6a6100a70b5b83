import MoshClient.Replica
import MoshClient.Theorems.Endpoints

/-! The representation invariant of a synchronization state, after any operations in any order. A plan
    that is committed late is refused by its generation, so a committed plan fits the numbers as they are. -/

namespace MoshClient
open Machine Limits Effect

namespace SynchronizationState

variable {s t : SynchronizationState}

/-- The sent states and the references are increasing windows of bounded length, the first above the known
    receiver state and up to the latest local state, the second from the throwaway floor up to the latest
    remote state. -/
structure Represented (s : SynchronizationState) : Prop where
  sender : SenderSound s
  sent_length : s.sentStates.length ≤ maxSentStatesAfterAck
  receiver : ReceiverSound s
  latest_last : s.receivedStates.getLast? = some s.remoteLatest

theorem ReceiverSound.getLast? (hs : ReceiverSound s) : s.receivedStates.getLast? = some s.remoteLatest := by
  rcases List.eq_nil_or_concat s.receivedStates with hnil | ⟨older, last, hlast⟩
  · exact absurd (hnil ▸ hs.latest_mem) List.not_mem_nil
  · rw [List.concat_eq_append] at hlast
    have hmem := hs.latest_mem
    have hinc := hs.increasing
    rw [hlast, List.mem_append, List.mem_singleton] at hmem
    rw [hlast, List.pairwise_append] at hinc
    rw [hlast, List.getLast?_concat, Option.some.injEq]
    rcases hmem with hmem | hmem
    · have hlt := hinc.2.2 _ hmem last (List.mem_singleton_self last)
      have hle := hs.le_latest last (hlast ▸ List.mem_append_right older (List.mem_singleton_self last))
      omega
    · exact hmem.symm

/-- No number of the state has fallen. -/
structure Rises (s t : SynchronizationState) : Prop where
  grows : Grows s t
  floor : s.remoteThrowawayFloor ≤ t.remoteThrowawayFloor

theorem Rises.refl (s : SynchronizationState) : Rises s s := ⟨.refl s, Nat.le_refl _⟩

/-! ### Operations on the sender's numbers -/

theorem SameReceiver.applicable {plan : ApplyPlan} (h : SameReceiver s t) (hp : Applicable s plan) :
    Applicable t plan := by
  obtain ⟨hgeneration, hbase, htarget, hthrowaway, hlt, hfloor, hretain, hbecomes⟩ := hp
  have hcan : t.canRetainReceivedState plan.targetState = s.canRetainReceivedState plan.targetState := by
    simp only [canRetainReceivedState, firstEvictable, h.received, h.floor]
  refine ⟨?_, ?_, ?_, hthrowaway, hlt, ?_, ?_, ?_⟩
  · rw [hgeneration, h.generation]
  · rw [h.received]; exact hbase
  · rw [h.received]; exact htarget
  · rw [h.floor]; exact hfloor
  · rw [hcan]; exact hretain
  · rw [h.latest]; exact hbecomes

/-- The receiver's numbers are unchanged, and the sent states keep their form. -/
structure SenderMove (s t : SynchronizationState) : Prop where
  receiver : SameReceiver s t
  grows : Grows s t
  sound : SenderSound s → SenderSound t
  length_le : s.sentStates.length ≤ maxSentStatesAfterAck → t.sentStates.length ≤ maxSentStatesAfterAck

theorem SenderMove.refl (s : SynchronizationState) : SenderMove s s := ⟨.refl s, .refl s, id, id⟩

theorem SenderMove.rises (h : SenderMove s t) : Rises s t := ⟨h.grows, Nat.le_of_eq h.receiver.floor.symm⟩

theorem SenderMove.represented (h : SenderMove s t) (hs : Represented s) : Represented t := by
  have hreceiver := h.receiver.sound hs.receiver
  exact ⟨h.sound hs.sender, h.length_le hs.sent_length, hreceiver, hreceiver.getLast?⟩

theorem senderMove_advance (s : SynchronizationState) : SenderMove s (exec advanceLocal s) := by
  apply exec_of_wp
  refine (wp_advanceLocal s).mono (fun _ u h => ?_) fun _ u h => ?_
  · obtain ⟨-, -, rfl⟩ := h
    exact ⟨⟨rfl, rfl, rfl, rfl⟩, ⟨Nat.le_succ _, Nat.le_refl _, Nat.le_refl _⟩, SenderSound.advance, id⟩
  · obtain ⟨rfl, -⟩ := h
    exact .refl _

theorem senderMove_commit (s : SynchronizationState) (plan : SendPlan) : SenderMove s (exec (commitSend plan) s) := by
  apply exec_of_wp
  refine wp_intro (fun commit u hok => ?_) fun e u herror => ?_
  · have hc := (wp_commitSend s plan).ok hok
    refine ⟨hc.receiver, ⟨?_, ?_, ?_⟩, fun hs => hs.commit hc, fun hlen => ?_⟩
    · exact Nat.le_of_eq hc.latest.symm
    · exact Nat.le_of_eq hc.known.symm
    · exact Nat.le_of_eq hc.receiver.latest.symm
    · obtain ⟨-, rfl⟩ := commitSend_ok hok
      show (if _ then _ else _ : List SentState).length ≤ _
      split
      · exact length_recordSent_le hlen
      · exact hlen
  · obtain ⟨rfl, -⟩ := (wp_commitSend s plan).error herror
    exact .refl _

theorem Acknowledged.senderMove {n : Nat} {d : AcknowledgementDisposition} (h : Acknowledged n s d t) :
    SenderMove s t := by
  refine ⟨h.sameReceiver, h.grows, h.senderSound, fun hlen => ?_⟩
  cases h with
  | kept => exact hlen
  | moved => exact Nat.le_trans (List.length_filter_le _ _) hlen

theorem senderMove_beginShutdownReceive (s : SynchronizationState) (instruction : TransportInstruction) :
    SenderMove s (exec (beginShutdownReceive instruction) s) := by
  apply exec_of_wp
  refine (wp_beginShutdownReceive instruction s).mono (fun _ u h => ?_) fun _ u h => ?_
  · obtain ⟨-, d, hack⟩ := h
    exact hack.senderMove
  · obtain ⟨rfl, -⟩ := h
    exact .refl _

/-! ### Eviction -/

/-- What a capacity eviction removes: the smallest reference other than the throwaway floor, and nothing
    else that is not below the floor. -/
structure EvictsSmallest (s : SynchronizationState) (plan : ApplyPlan) (commit : ReceiveCommit)
    (t : SynchronizationState) : Prop where
  mem_iff : ∀ n, n ∈ t.receivedStates ↔
    n = plan.targetState ∨
      n ∈ s.receivedStates ∧ t.remoteThrowawayFloor ≤ n ∧ commit.capacityEvictedState ≠ some n
  retained : ∀ n, commit.capacityEvictedState = some n → n ∈ s.receivedStates
  smallest : ∀ n, commit.capacityEvictedState = some n →
    ∀ k ∈ s.receivedStates, t.remoteThrowawayFloor < k → n ≤ k
  ne_floor : ∀ n, commit.capacityEvictedState = some n → t.remoteThrowawayFloor < n
  ne_target : commit.capacityEvictedState ≠ some plan.targetState
  ne_latest : ∀ n, commit.capacityEvictedState = some n → n < s.remoteLatest ∧ n < t.remoteLatest

/-- A full window that starts above its floor has the floor before its first evictable reference, or no
    reference at the floor. -/
theorem evictable_cases {older newer : List Nat} {number : Nat} (hs : s.receivedStates = older ++ number :: newer)
    (holder : older.length = s.firstEvictable) :
    older = [s.remoteThrowawayFloor] ∨ older = [] ∧ number ≠ s.remoteThrowawayFloor := by
  unfold firstEvictable at holder
  split at holder
  · rename_i hhead
    obtain ⟨first, rfl⟩ := List.length_eq_one_iff.mp holder
    rw [hs, List.singleton_append, List.head?_cons, Option.some.injEq] at hhead
    exact Or.inl (by rw [hhead])
  · rename_i hhead
    obtain rfl := List.length_eq_zero_iff.mp holder
    rw [hs, List.nil_append, List.head?_cons, Option.some.injEq] at hhead
    exact Or.inr ⟨rfl, hhead⟩

theorem Raised.evictsSmallest {plan : ApplyPlan} {r u : SynchronizationState} {evicted : Option Nat}
    (hs : ReceiverSound s) (hr : Raised s plan r) (hu : Evicted r u evicted) {n : Nat} (hn : evicted = some n) :
    n ∈ s.receivedStates ∧ r.remoteThrowawayFloor < n ∧
      (∀ k ∈ s.receivedStates, r.remoteThrowawayFloor < k → n ≤ k) ∧ n < s.remoteLatest := by
  subst hn
  cases hu with
  | full older _ newer hlen hsplit holder _ =>
    have hinc := hr.increasing hs
    rw [hsplit, List.pairwise_append, List.pairwise_cons] at hinc
    obtain ⟨-, ⟨hnewer, -⟩, holderlt⟩ := hinc
    have hmem := hr.mem_iff.mp (hsplit ▸ List.mem_append_right older List.mem_cons_self)
    have hcases := evictable_cases hsplit holder
    refine ⟨hmem.1, ?_, fun k hk hfloor => ?_, ?_⟩
    · rcases hcases with hfirst | ⟨-, hne⟩
      · exact holderlt _ (hfirst ▸ List.mem_singleton_self _) n List.mem_cons_self
      · omega
    · have hk' := hr.mem_iff.mpr ⟨hk, Nat.le_of_lt hfloor⟩
      rw [hsplit, List.mem_append, List.mem_cons] at hk'
      rcases hk' with hold | rfl | hnew
      · rcases hcases with hfirst | ⟨hempty, -⟩
        · rw [hfirst, List.mem_singleton] at hold
          omega
        · exact absurd (hempty ▸ hold) List.not_mem_nil
      · exact Nat.le_refl _
      · exact Nat.le_of_lt (hnewer k hnew)
    · -- A full window has more than two references, so a newer one follows.
      have hle := r.firstEvictable_le
      rw [hsplit, List.length_append, List.length_cons, holder] at hlen
      cases newer with
      | nil =>
        simp only [List.length_nil, maxReceivedReferenceStates] at hlen
        omega
      | cons next rest =>
        have hnext := hr.mem_iff.mp (hsplit ▸ List.mem_append_right older
          (List.mem_cons_of_mem n (List.mem_cons_self (a := next) (l := rest))))
        exact Nat.lt_of_lt_of_le (hnewer next List.mem_cons_self) (hs.le_latest next hnext.1)

theorem commitReceive_ok {plan : ApplyPlan} {commit : ReceiveCommit} (h : commitReceive plan s = .ok commit t) :
    plan.generation = s.receiverGeneration ∧ t.receiverGeneration = s.receiverGeneration + 1 ∧
      commit.capacityEvictedState = (s.raiseFloor plan).evictReceived.2 ∧
      t.remoteThrowawayFloor = (s.raiseFloor plan).remoteThrowawayFloor := by
  unfold commitReceive at h
  split at h
  · cases h
  · rename_i hfresh
    push Not at hfresh
    split at h
    · cases h
    · rename_i generation hnext
      obtain ⟨rfl, -⟩ := checkedAdd_eq_some.mp hnext
      cases h
      exact ⟨hfresh.1, rfl, rfl, (evictReceived_fields _).1⟩

theorem evictsSmallest_of_commit {plan : ApplyPlan} {commit : ReceiveCommit} (hs : ReceiverSound s)
    (hp : Applicable s plan) (h : commitReceive plan s = .ok commit t) : EvictsSmallest s plan commit t := by
  have hc := (wp_commitReceive hs hp).ok h
  obtain ⟨-, -, hevicted, hfloor⟩ := commitReceive_ok h
  have hsmallest := fun {n} => (raised_raiseFloor hs hp).evictsSmallest hs (evicted_evictReceived _) (n := n)
  rw [← hevicted, ← hfloor] at hsmallest
  refine ⟨hc.mem_iff, fun n hn => (hsmallest hn).1, fun n hn => (hsmallest hn).2.2.1, fun n hn => (hsmallest hn).2.1,
    hc.target_kept, fun n hn => ⟨(hsmallest hn).2.2.2, ?_⟩⟩
  rw [hc.latest]
  exact Nat.lt_of_lt_of_le (hsmallest hn).2.2.2 (Nat.le_max_left _ _)

end SynchronizationState

namespace Replica
open SynchronizationState

/-! ### One operation after another -/

/-- What holds after every operation: a plan of the receiver's present generation is one that the receiver
    could answer now. -/
structure Invariant (r : Replica) : Prop where
  represented : r.state.Represented
  generation_le : ∀ plan ∈ r.applyPlans, plan.generation ≤ r.state.receiverGeneration
  applicable : ∀ plan ∈ r.applyPlans, plan.generation = r.state.receiverGeneration → Applicable r.state plan

theorem invariant_new : Invariant new := by
  refine ⟨⟨senderSound_new, Nat.zero_le _, receiverSound_new, rfl⟩, ?_, ?_⟩
  · exact fun plan h => absurd h List.not_mem_nil
  · exact fun plan h => absurd h List.not_mem_nil

theorem Invariant.senderMove {r : Replica} (hr : Invariant r) {t : SynchronizationState} (h : SenderMove r.state t)
    (plans : List SendPlan) : Invariant { r with state := t, sendPlans := plans } := by
  refine ⟨h.represented hr.represented, fun plan hplan => ?_, fun plan hplan hg => ?_⟩
  · simp only [h.receiver.generation]
    exact hr.generation_le plan hplan
  · simp only [h.receiver.generation] at hg
    exact h.receiver.applicable (hr.applicable plan hplan hg)

theorem senderMove_beginReceive (r : Replica) (instruction : TransportInstruction) :
    SenderMove r.state (r.beginReceive instruction).state := by
  have hwp := wp_beginReceive instruction r.state
  unfold beginReceive
  split
  · rename_i e t herror
    obtain ⟨rfl, -⟩ := hwp.error herror
    exact .refl _
  · rename_i transition t hok
    obtain ⟨-, hack, -⟩ := hwp.ok hok
    split <;> exact hack.senderMove

theorem Invariant.beginReceive {r : Replica} (hr : Invariant r) (instruction : TransportInstruction) :
    Invariant (r.beginReceive instruction) := by
  have hwp := wp_beginReceive instruction r.state
  unfold Replica.beginReceive
  split
  · rename_i e t herror
    obtain ⟨rfl, -⟩ := hwp.error herror
    exact hr
  · rename_i transition t hok
    obtain ⟨hvalid, hack, hremote⟩ := hwp.ok hok
    have ht := hr.senderMove hack.senderMove r.sendPlans
    split
    · rename_i plan hplan
      obtain ⟨happlicable, -, -⟩ :=
        applicable_of_disposition (hvalid.of_localLatest hack.localLatest_eq) (hremote ▸ hplan)
      refine ⟨ht.represented, fun q hq => ?_, fun q hq hg => ?_⟩
      · rcases List.mem_append.mp hq with hq | hq
        · exact ht.generation_le q hq
        · rw [List.mem_singleton.mp hq]
          exact Nat.le_of_eq happlicable.generation
      · rcases List.mem_append.mp hq with hq | hq
        · exact ht.applicable q hq hg
        · rw [List.mem_singleton.mp hq]
          exact happlicable
    · exact ht

/-- A plan is committed in its generation, in which it is applicable; after it, none is. -/
theorem Invariant.commitReceive_cases {r : Replica} (hr : Invariant r) {plan : ApplyPlan} (hplan : plan ∈ r.applyPlans) :
    wp (SynchronizationState.commitReceive plan)
      (fun commit t => Constructed r.state plan commit t ∧ EvictsSmallest r.state plan commit t ∧
        t.receiverGeneration = r.state.receiverGeneration + 1)
      (fun _ t => t = r.state) r.state := by
  refine wp_intro (fun commit t hok => ?_) fun e t herror => ?_
  · obtain ⟨hgeneration, hnext, -, -⟩ := commitReceive_ok hok
    have happlicable := hr.applicable plan hplan hgeneration
    have hreceiver := hr.represented.receiver
    exact ⟨(wp_commitReceive hreceiver happlicable).ok hok, evictsSmallest_of_commit hreceiver happlicable hok, hnext⟩
  · exact commitReceive_error herror

theorem Invariant.commitReceive {r : Replica} (hr : Invariant r) (index : Nat) : Invariant (r.commitReceive index) := by
  unfold Replica.commitReceive
  split
  · exact hr
  · rename_i plan hplan
    have hwp := hr.commitReceive_cases (List.mem_of_getElem? hplan)
    refine exec_of_wp (P := fun t => Invariant { r with state := t }) ?_
    refine hwp.mono (fun commit t h => ?_) fun e t h => ?_
    · obtain ⟨hc, -, hnext⟩ := h
      refine ⟨⟨hc.sender.sound hr.represented.sender, ?_, hc.sound, hc.sound.getLast?⟩, fun q hq => ?_, fun q hq hg => ?_⟩
      · rw [hc.sender.sent]
        exact hr.represented.sent_length
      · have hle := hr.generation_le q hq
        simp only [hnext]
        omega
      · have hle := hr.generation_le q hq
        simp only [hnext] at hg
        omega
    · subst h
      exact hr

theorem Invariant.step {r : Replica} (hr : Invariant r) (action : ReplicaAction) : Invariant (r.step action) := by
  cases action with
  | advanceLocal => exact hr.senderMove (senderMove_advance r.state) r.sendPlans
  | planSend nowMs timeoutMs =>
    simp only [Replica.step, Replica.planSend]
    split
    · exact hr
    · exact hr.senderMove (.refl r.state) _
  | commitSend index =>
    simp only [Replica.step, Replica.commitSend]
    split
    · exact hr
    · exact hr.senderMove (senderMove_commit r.state _) r.sendPlans
  | beginReceive instruction => exact hr.beginReceive instruction
  | beginShutdownReceive instruction =>
    exact hr.senderMove (senderMove_beginShutdownReceive r.state instruction) r.sendPlans
  | commitReceive index => exact hr.commitReceive index

theorem invariant_run (actions : List ReplicaAction) : Invariant (run actions) := by
  refine List.foldlRecOn actions step invariant_new fun r hr action _ => ?_
  exact hr.step action

/-- No operation lets a number fall. -/
theorem Invariant.rises {r : Replica} (hr : Invariant r) (action : ReplicaAction) :
    Rises r.state (r.step action).state := by
  cases action with
  | advanceLocal => exact (senderMove_advance r.state).rises
  | planSend nowMs timeoutMs =>
    simp only [Replica.step, Replica.planSend]
    split <;> exact .refl _
  | commitSend index =>
    simp only [Replica.step, Replica.commitSend]
    split
    · exact .refl _
    · exact (senderMove_commit r.state _).rises
  | beginReceive instruction => exact (senderMove_beginReceive r instruction).rises
  | beginShutdownReceive instruction => exact (senderMove_beginShutdownReceive r.state instruction).rises
  | commitReceive index =>
    simp only [Replica.step, Replica.commitReceive]
    split
    · exact .refl _
    · rename_i plan hplan
      refine exec_of_wp ((hr.commitReceive_cases (List.mem_of_getElem? hplan)).mono (fun commit t h => ?_) ?_)
      · obtain ⟨hc, -, -⟩ := h
        exact ⟨hc.grows, hc.floor_mono⟩
      · rintro e t rfl
        exact .refl _

/-! ### Times of sending -/

/-- Up to the plans made by `latest`, states were sent in the order of their times, and a plan of the
    present generation was made after each of them. -/
structure Timed (latest : Nat) (r : Replica) : Prop where
  sorted : r.state.sentStates.Pairwise fun a b => a.sentAtMs ≤ b.sentAtMs
  sent_le : ∀ sent ∈ r.state.sentStates, sent.sentAtMs ≤ latest
  planned_le : ∀ plan ∈ r.sendPlans, plan.plannedAtMs ≤ latest
  generation_le : ∀ plan ∈ r.sendPlans, plan.generation ≤ r.state.senderGeneration
  planned_after : ∀ plan ∈ r.sendPlans, plan.generation = r.state.senderGeneration →
    ∀ sent ∈ r.state.sentStates, sent.sentAtMs ≤ plan.plannedAtMs

theorem timed_new : Timed 0 new := by
  constructor
  · exact List.Pairwise.nil
  all_goals exact fun _ h => absurd h List.not_mem_nil

/-- The operation sends nothing: some sent states may go. -/
structure SentKept (s t : SynchronizationState) : Prop where
  sublist : t.sentStates.Sublist s.sentStates
  generation : s.senderGeneration ≤ t.senderGeneration

theorem SentKept.refl (s : SynchronizationState) : SentKept s s := ⟨List.Sublist.refl _, Nat.le_refl _⟩

theorem sentKept_advance (s : SynchronizationState) : SentKept s (exec advanceLocal s) := by
  apply exec_of_wp
  refine (wp_advanceLocal s).mono (fun _ u h => ?_) fun _ u h => ?_
  · obtain ⟨-, -, rfl⟩ := h
    exact ⟨List.Sublist.refl _, Nat.le_succ _⟩
  · obtain ⟨rfl, -⟩ := h
    exact .refl _

theorem sentKept_acknowledged {n : Nat} {d : AcknowledgementDisposition} {s t : SynchronizationState}
    (h : Acknowledged n s d t) : SentKept s t := by
  cases h with
  | kept => exact .refl _
  | moved => exact ⟨List.filter_sublist, Nat.le_succ _⟩

theorem sentKept_beginReceive (r : Replica) (instruction : TransportInstruction) :
    SentKept r.state (r.beginReceive instruction).state ∧ (r.beginReceive instruction).sendPlans = r.sendPlans := by
  have hwp := wp_beginReceive instruction r.state
  unfold beginReceive
  split
  · rename_i e t herror
    obtain ⟨rfl, -⟩ := hwp.error herror
    exact ⟨.refl _, rfl⟩
  · rename_i transition t hok
    obtain ⟨-, hack, -⟩ := hwp.ok hok
    split <;> exact ⟨sentKept_acknowledged hack, rfl⟩

theorem sentKept_beginShutdownReceive (s : SynchronizationState) (instruction : TransportInstruction) :
    SentKept s (exec (beginShutdownReceive instruction) s) := by
  apply exec_of_wp
  refine (wp_beginShutdownReceive instruction s).mono (fun _ u h => ?_) fun _ u h => ?_
  · obtain ⟨-, d, hack⟩ := h
    exact sentKept_acknowledged hack
  · obtain ⟨rfl, -⟩ := h
    exact .refl _

theorem Invariant.sentKept_commitReceive {r : Replica} (hr : Invariant r) (index : Nat) :
    SentKept r.state (r.commitReceive index).state ∧ (r.commitReceive index).sendPlans = r.sendPlans := by
  unfold Replica.commitReceive
  split
  · exact ⟨.refl _, rfl⟩
  · rename_i plan hplan
    refine ⟨exec_of_wp ((hr.commitReceive_cases (List.mem_of_getElem? hplan)).mono (fun commit t h => ?_) ?_), rfl⟩
    · obtain ⟨hc, -, -⟩ := h
      exact ⟨hc.sender.sent ▸ List.Sublist.refl _, Nat.le_of_eq hc.sender.generation.symm⟩
    · rintro e t rfl
      exact .refl _

theorem Timed.kept {latest : Nat} {r r' : Replica} (hr : Timed latest r) (h : SentKept r.state r'.state)
    (hplans : r'.sendPlans = r.sendPlans) : Timed latest r' := by
  have hle : ∀ plan ∈ r'.sendPlans, plan.generation ≤ r.state.senderGeneration := by
    rw [hplans]
    exact hr.generation_le
  refine ⟨hr.sorted.sublist h.sublist, fun sent hsent => hr.sent_le sent (h.sublist.subset hsent), ?_, ?_, ?_⟩
  · rw [hplans]
    exact hr.planned_le
  · exact fun plan hplan => Nat.le_trans (hle plan hplan) h.generation
  · intro plan hplan hg sent hsent
    have hnow : plan.generation = r.state.senderGeneration :=
      Nat.le_antisymm (hle plan hplan) (hg ▸ h.generation)
    exact hr.planned_after plan (hplans ▸ hplan) hnow sent (h.sublist.subset hsent)

theorem Timed.planSend {latest : Nat} {r : Replica} (hr : Timed latest r) {nowMs : Nat} (hnow : latest ≤ nowMs)
    (timeoutMs : Nat) : Timed nowMs (r.planSend nowMs timeoutMs) := by
  have hlater : Timed nowMs r :=
    ⟨hr.sorted, fun sent h => Nat.le_trans (hr.sent_le sent h) hnow,
      fun plan h => Nat.le_trans (hr.planned_le plan h) hnow, hr.generation_le, hr.planned_after⟩
  unfold Replica.planSend
  split
  · exact hlater
  · rename_i plan hplan
    have hplanned := planned_of_planSend hplan
    refine ⟨hlater.sorted, hlater.sent_le, fun q hq => ?_, fun q hq => ?_, fun q hq hg => ?_⟩
    · rcases List.mem_append.mp hq with hq | hq
      · exact hlater.planned_le q hq
      · rw [List.mem_singleton.mp hq, hplanned.plannedAt]
    · rcases List.mem_append.mp hq with hq | hq
      · exact hlater.generation_le q hq
      · rw [List.mem_singleton.mp hq, hplanned.generation]
    · rcases List.mem_append.mp hq with hq | hq
      · exact hlater.planned_after q hq hg
      · rw [List.mem_singleton.mp hq, hplanned.plannedAt]
        exact hlater.sent_le

theorem Timed.commitSend {latest : Nat} {r : Replica} (hr : Timed latest r) (hi : Invariant r) (index : Nat) :
    Timed latest (r.commitSend index) := by
  unfold Replica.commitSend
  split
  · exact hr
  · rename_i plan hplan
    have hmem := List.mem_of_getElem? hplan
    refine exec_of_wp (P := fun t => Timed latest { r with state := t }) ?_
    refine wp_intro (fun commit t hok => ?_) fun e t herror => ?_
    · obtain ⟨hgeneration, rfl⟩ := commitSend_ok hok
      obtain ⟨older, hsub, hrecord⟩ := recordSent_last hi.represented.sender.increasing
        fun sent h => hi.represented.sender.le_latest _ (List.mem_map_of_mem h)
      have hafter := hr.planned_after plan hmem hgeneration
      have hsent : ∃ last, ((if r.state.knownReceiverState < r.state.localLatest then
          (recordSent r.state.localLatest plan.plannedAtMs r.state.sentStates).1 else r.state.sentStates) = last) ∧
          (last.Pairwise fun a b => a.sentAtMs ≤ b.sentAtMs) ∧ ∀ sent ∈ last, sent.sentAtMs ≤ latest := by
        refine ⟨_, rfl, ?_⟩
        split
        · rw [hrecord]
          refine ⟨List.pairwise_append.mpr ⟨hr.sorted.sublist hsub, List.pairwise_singleton _ _, ?_⟩, fun sent h => ?_⟩
          · intro a ha b hb
            rw [List.mem_singleton.mp hb]
            exact hafter a (hsub.subset ha)
          · rcases List.mem_append.mp h with h | h
            · exact hr.sent_le sent (hsub.subset h)
            · rw [List.mem_singleton.mp h]
              exact hr.planned_le plan hmem
        · exact ⟨hr.sorted, hr.sent_le⟩
      obtain ⟨last, hlast, hsorted, hle⟩ := hsent
      refine ⟨?_, ?_, hr.planned_le, fun q hq => Nat.le_succ_of_le (hr.generation_le q hq), fun q hq hg => ?_⟩
      · simp only [hlast]
        exact hsorted
      · simp only [hlast]
        exact hle
      · have := hr.generation_le q hq
        simp only at hg
        omega
    · obtain ⟨rfl, -⟩ := (wp_commitSend r.state plan).error herror
      exact hr

theorem Timed.step {latest : Nat} {r : Replica} (hr : Timed latest r) (hi : Invariant r) {action : ReplicaAction}
    (hnone : action.planTime = none) : Timed latest (r.step action) := by
  cases action with
  | advanceLocal => exact hr.kept (sentKept_advance r.state) rfl
  | planSend nowMs timeoutMs => cases hnone
  | commitSend index => exact hr.commitSend hi index
  | beginReceive instruction =>
    obtain ⟨hkept, hplans⟩ := sentKept_beginReceive r instruction
    exact hr.kept hkept hplans
  | beginShutdownReceive instruction => exact hr.kept (sentKept_beginShutdownReceive r.state instruction) rfl
  | commitReceive index =>
    obtain ⟨hkept, hplans⟩ := hi.sentKept_commitReceive index
    exact hr.kept hkept hplans

theorem timed_foldl (actions : List ReplicaAction) {latest : Nat} {r : Replica} (hr : Timed latest r)
    (hi : Invariant r) (hsorted : (latest :: actions.filterMap ReplicaAction.planTime).Pairwise (· ≤ ·)) :
    ∃ latest, Timed latest (actions.foldl step r) := by
  induction actions generalizing latest r with
  | nil => exact ⟨latest, hr⟩
  | cons action actions ih =>
    cases htime : action.planTime with
    | none =>
      rw [List.filterMap_cons_none htime] at hsorted
      exact ih (hr.step hi htime) (hi.step action) hsorted
    | some nowMs =>
      rw [List.filterMap_cons_some htime] at hsorted
      obtain ⟨hle, hrest⟩ := List.pairwise_cons.mp hsorted
      have hnow : Timed nowMs (r.step action) := by
        cases action with
        | planSend time timeoutMs =>
          cases htime
          exact hr.planSend (hle nowMs List.mem_cons_self) timeoutMs
        | _ => cases htime
      exact ih hnow (hi.step action) hrest

/-! ### Every run -/

/-- What holds after any operations: the form of the two windows, the order of the times of sending if the
    plans were made in order, that no further operation lets a number fall, and what a commit evicts. -/
structure WellFormed (actions : List ReplicaAction) : Prop where
  represented : (run actions).state.Represented
  times : (actions.filterMap ReplicaAction.planTime).Pairwise (· ≤ ·) →
    (run actions).state.sentStates.Pairwise fun a b => a.sentAtMs ≤ b.sentAtMs
  rises : ∀ action, Rises (run actions).state ((run actions).step action).state
  evicts : ∀ plan ∈ (run actions).applyPlans, ∀ commit t,
    SynchronizationState.commitReceive plan (run actions).state = .ok commit t →
      EvictsSmallest (run actions).state plan commit t

theorem representation (actions : List ReplicaAction) : WellFormed actions := by
  have hi := invariant_run actions
  refine ⟨hi.represented, fun hsorted => ?_, hi.rises, fun plan hplan commit t hok => ?_⟩
  · have hsorted' : (0 :: actions.filterMap ReplicaAction.planTime).Pairwise (· ≤ ·) :=
      List.pairwise_cons.mpr ⟨fun _ _ => Nat.zero_le _, hsorted⟩
    obtain ⟨latest, ht⟩ := timed_foldl actions timed_new invariant_new hsorted'
    exact ht.sorted
  · exact ((hi.commitReceive_cases hplan).ok hok).2.1

end Replica
end MoshClient
