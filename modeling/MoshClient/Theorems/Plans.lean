import MoshClient.Lib.Version
import MoshClient.Theorems.Replica

/-! Plans are used once. A plan carries the generation in which it was made, and the generation changes
    exactly when the plan no longer fits; so a plan is committed if and only if nothing happened in between
    that it depends on, and an operation that fails changes nothing. -/

namespace MoshClient
open Machine Limits Effect

namespace SynchronizationState
variable {s t : SynchronizationState}

/-! ### What a plan reads -/

/-- What a send plan reads has not changed. -/
structure SameSend (s t : SynchronizationState) : Prop where
  generation : t.senderGeneration = s.senderGeneration
  latest : t.localLatest = s.localLatest
  known : t.knownReceiverState = s.knownReceiverState
  remote : t.remoteLatest = s.remoteLatest

theorem SameSend.refl (s : SynchronizationState) : SameSend s s := ⟨rfl, rfl, rfl, rfl⟩

/-- What a send plan reads has changed for good. -/
structure PastSend (s t : SynchronizationState) : Prop where
  generation_le : s.senderGeneration ≤ t.senderGeneration
  remote_le : s.remoteLatest ≤ t.remoteLatest
  moved : s.senderGeneration < t.senderGeneration ∨ s.remoteLatest < t.remoteLatest

/-- What an apply plan reads has not changed. -/
structure SameApply (s t : SynchronizationState) : Prop where
  generation : t.receiverGeneration = s.receiverGeneration
  received : t.receivedStates = s.receivedStates

theorem SenderMove.sameApply (h : SenderMove s t) : SameApply s t := ⟨h.receiver.generation, h.receiver.received⟩

/-- A send is committed exactly when it fits the numbers as they are, and the generations are not exhausted. -/
theorem commitSend_ok_iff {plan : SendPlan} : (∃ commit t, commitSend plan s = .ok commit t) ↔
    (plan.generation = s.senderGeneration ∧ plan.targetState = s.localLatest ∧ plan.acknowledgedState = s.remoteLatest ∧
      plan.throwawayState = s.knownReceiverState) ∧ s.senderGeneration + 1 < 2 ^ 64 := by
  unfold commitSend
  constructor
  · rintro ⟨commit, t, h⟩
    split at h
    · cases h
    · rename_i hfresh
      push Not at hfresh
      split at h
      · cases h
      · rename_i hnext
        exact ⟨hfresh, (checkedAdd_eq_some.mp hnext).2⟩
  · rintro ⟨⟨hgeneration, htarget, hack, hthrowaway⟩, hnext⟩
    rw [if_neg (by simp [hgeneration, htarget, hack, hthrowaway]), checkedAdd_eq_some.mpr ⟨rfl, hnext⟩]
    simp only
    split <;> exact ⟨_, _, rfl⟩

theorem commitReceive_ok_iff {plan : ApplyPlan} : (∃ commit t, commitReceive plan s = .ok commit t) ↔
    (plan.generation = s.receiverGeneration ∧ plan.baseState ∈ s.receivedStates ∧ plan.targetState ∉ s.receivedStates) ∧
      s.receiverGeneration + 1 < 2 ^ 64 := by
  unfold commitReceive
  constructor
  · rintro ⟨commit, t, h⟩
    split at h
    · cases h
    · rename_i hfresh
      push Not at hfresh
      split at h
      · cases h
      · rename_i hnext
        exact ⟨hfresh, (checkedAdd_eq_some.mp hnext).2⟩
  · rintro ⟨⟨hgeneration, hbase, htarget⟩, hnext⟩
    rw [if_neg (by simp [hgeneration, hbase, htarget]), checkedAdd_eq_some.mpr ⟨rfl, hnext⟩]
    exact ⟨_, _, rfl⟩

/-! ### Errors -/

/-- An operation that fails leaves the state as it was. -/
structure Atomic (s : SynchronizationState) : Prop where
  advanceLocal : ∀ e t, advanceLocal s = .error e t → t = s
  commitSend : ∀ plan e t, commitSend plan s = .error e t → t = s
  beginReceive : ∀ instruction e t, beginReceive instruction s = .error e t → t = s
  beginShutdownReceive : ∀ instruction e t, beginShutdownReceive instruction s = .error e t → t = s
  commitReceive : ∀ plan e t, commitReceive plan s = .error e t → t = s

theorem atomic (s : SynchronizationState) : Atomic s where
  advanceLocal _ _ h := ((wp_advanceLocal s).error h).1
  commitSend plan _ _ h := ((wp_commitSend s plan).error h).1
  beginReceive instruction _ _ h := ((wp_beginReceive instruction s).error h).1
  beginShutdownReceive instruction _ _ h := ((wp_beginShutdownReceive instruction s).error h).1
  commitReceive _ _ _ h := commitReceive_error h

end SynchronizationState

namespace Replica
open SynchronizationState

/-! ### Plans of a send -/

/-- The operation outdates the plans of a send: the local state advances, a send is committed, an
    acknowledgement advances the known receiver state, or a commit changes the latest remote state. -/
def OutdatesSend (r : Replica) : ReplicaAction → Prop
  | .advanceLocal => ∃ number t, SynchronizationState.advanceLocal r.state = .ok number t
  | .planSend _ _ => False
  | .commitSend index => ∃ plan commit t, r.sendPlans[index]? = some plan ∧
      SynchronizationState.commitSend plan r.state = .ok commit t
  | .beginReceive instruction => (r.beginReceive instruction).state.knownReceiverState ≠ r.state.knownReceiverState
  | .beginShutdownReceive instruction =>
    (exec (SynchronizationState.beginShutdownReceive instruction) r.state).knownReceiverState ≠ r.state.knownReceiverState
  | .commitReceive index => (r.commitReceive index).state.remoteLatest ≠ r.state.remoteLatest

/-- What an operation does to what a send plan reads. -/
def StepsSend (outdates : Prop) (s t : SynchronizationState) : Prop :=
  (¬outdates → SameSend s t) ∧ (outdates → PastSend s t)

theorem stepsSend_same {outdates : Prop} (s : SynchronizationState) (h : ¬outdates) : StepsSend outdates s s :=
  ⟨fun _ => .refl s, fun houtdates => absurd houtdates h⟩

theorem stepsSend_next {outdates : Prop} {s t : SynchronizationState} (h : outdates)
    (hgeneration : t.senderGeneration = s.senderGeneration + 1) (hremote : t.remoteLatest = s.remoteLatest) :
    StepsSend outdates s t :=
  ⟨fun hnot => absurd h hnot, fun _ => ⟨by omega, by omega, Or.inl (by omega)⟩⟩

/-- An acknowledgement outdates the plans exactly when it moves the known receiver state. -/
theorem stepsSend_acknowledged {n : Nat} {d : AcknowledgementDisposition} {s t : SynchronizationState}
    (h : Acknowledged n s d t) : StepsSend (t.knownReceiverState ≠ s.knownReceiverState) s t := by
  cases h with
  | kept => exact stepsSend_same s fun hne => hne rfl
  | moved hlt => exact stepsSend_next (Nat.ne_of_gt hlt) rfl rfl

theorem stepsSend_step {r : Replica} (hr : Invariant r) (action : ReplicaAction) :
    StepsSend (OutdatesSend r action) r.state (r.step action).state := by
  cases action with
  | advanceLocal =>
    simp only [step, exec, OutdatesSend]
    have hwp := wp_advanceLocal r.state
    cases h : SynchronizationState.advanceLocal r.state with
    | ok number t =>
      obtain ⟨-, -, rfl⟩ := hwp.ok h
      exact stepsSend_next ⟨_, _, rfl⟩ rfl rfl
    | error e t =>
      obtain ⟨rfl, -⟩ := hwp.error h
      refine stepsSend_same _ ?_
      rintro ⟨_, _, hok⟩
      cases hok
  | planSend nowMs timeoutMs =>
    simp only [step, Replica.planSend, OutdatesSend]
    split <;> exact stepsSend_same _ id
  | commitSend index =>
    simp only [step, Replica.commitSend, OutdatesSend]
    cases hplan : r.sendPlans[index]? with
    | none =>
      refine stepsSend_same _ ?_
      rintro ⟨_, _, _, hnone, -⟩
      cases hnone
    | some plan =>
      simp only [exec]
      cases h : SynchronizationState.commitSend plan r.state with
      | ok commit t =>
        obtain ⟨-, rfl⟩ := commitSend_ok h
        exact stepsSend_next ⟨plan, _, _, rfl, h⟩ rfl rfl
      | error e t =>
        obtain ⟨rfl, -⟩ := (wp_commitSend r.state plan).error h
        refine stepsSend_same _ ?_
        rintro ⟨plan', _, _, hplan', hok⟩
        obtain rfl := Option.some.inj hplan'
        rw [h] at hok
        cases hok
  | beginReceive instruction =>
    simp only [step, Replica.beginReceive, OutdatesSend]
    have hwp := wp_beginReceive instruction r.state
    cases h : SynchronizationState.beginReceive instruction r.state with
    | error e t =>
      obtain ⟨rfl, -⟩ := hwp.error h
      exact stepsSend_same _ fun hne => hne rfl
    | ok transition t =>
      obtain ⟨-, hack, -⟩ := hwp.ok h
      simp only
      split <;> exact stepsSend_acknowledged hack
  | beginShutdownReceive instruction =>
    simp only [step, exec, OutdatesSend]
    have hwp := wp_beginShutdownReceive instruction r.state
    cases h : SynchronizationState.beginShutdownReceive instruction r.state with
    | error e t =>
      obtain ⟨rfl, -⟩ := hwp.error h
      exact stepsSend_same _ fun hne => hne rfl
    | ok transition t =>
      obtain ⟨-, d, hack⟩ := hwp.ok h
      exact stepsSend_acknowledged hack
  | commitReceive index =>
    simp only [step, Replica.commitReceive, OutdatesSend]
    cases hplan : r.applyPlans[index]? with
    | none => exact stepsSend_same _ fun hne => hne rfl
    | some plan =>
      refine exec_of_wp (P := fun t => StepsSend (t.remoteLatest ≠ r.state.remoteLatest) r.state t) ?_
      refine (hr.commitReceive_cases (List.mem_of_getElem? hplan)).mono (fun commit t h => ?_) fun e t h => ?_
      · obtain ⟨hc, -, -⟩ := h
        have hle : r.state.remoteLatest ≤ t.remoteLatest := hc.latest ▸ Nat.le_max_left _ _
        exact ⟨fun hsame => ⟨hc.sender.generation, hc.sender.latest, hc.sender.known, not_not.mp hsame⟩,
          fun hne => ⟨Nat.le_of_eq hc.sender.generation.symm, hle, Or.inr (Nat.lt_of_le_of_ne hle (Ne.symm hne))⟩⟩
      · subst h
        exact stepsSend_same _ fun hne => hne rfl

/-- What a send plan reads. -/
def sendVersion : Version step where
  Invariant := Invariant
  Outdates := OutdatesSend
  Same r r' := SameSend r.state r'.state
  Past r r' := PastSend r.state r'.state
  invariant_step hr action := hr.step action
  same_refl r := .refl r.state
  same_trans h h' :=
    ⟨h'.generation.trans h.generation, h'.latest.trans h.latest, h'.known.trans h.known, h'.remote.trans h.remote⟩
  past_trans h h' := ⟨h.generation_le.trans h'.generation_le, h.remote_le.trans h'.remote_le,
    h.moved.imp (fun hlt => hlt.trans_le h'.generation_le) fun hlt => hlt.trans_le h'.remote_le⟩
  past_of_same h h' := ⟨h.generation ▸ h'.generation_le, h.remote ▸ h'.remote_le, h.generation ▸ h.remote ▸ h'.moved⟩
  past_same h h' := ⟨h'.generation ▸ h.generation_le, h'.remote ▸ h.remote_le, h'.generation ▸ h'.remote ▸ h.moved⟩
  same_step hr := (stepsSend_step hr _).1
  past_step hr := (stepsSend_step hr _).2

/-! ### Plans of an application -/

/-- The operation outdates the plans of an application: one of them is committed. -/
def OutdatesApply (r : Replica) : ReplicaAction → Prop
  | .commitReceive index => ∃ plan commit t, r.applyPlans[index]? = some plan ∧
      SynchronizationState.commitReceive plan r.state = .ok commit t
  | _ => False

theorem sameApply_step {r : Replica} {action : ReplicaAction} (h : ¬OutdatesApply r action) :
    SameApply r.state (r.step action).state := by
  cases action with
  | advanceLocal => exact (senderMove_advance r.state).sameApply
  | planSend nowMs timeoutMs =>
    simp only [step, Replica.planSend]
    split <;> exact ⟨rfl, rfl⟩
  | commitSend index =>
    simp only [step, Replica.commitSend]
    split
    · exact ⟨rfl, rfl⟩
    · exact (senderMove_commit r.state _).sameApply
  | beginReceive instruction => exact (senderMove_beginReceive r instruction).sameApply
  | beginShutdownReceive instruction => exact (senderMove_beginShutdownReceive r.state instruction).sameApply
  | commitReceive index =>
    simp only [step, Replica.commitReceive]
    cases hplan : r.applyPlans[index]? with
    | none => exact ⟨rfl, rfl⟩
    | some plan =>
      simp only [exec]
      cases hcommit : SynchronizationState.commitReceive plan r.state with
      | ok commit t => exact absurd ⟨plan, commit, t, hplan, hcommit⟩ h
      | error e t =>
        rw [commitReceive_error hcommit]
        exact ⟨rfl, rfl⟩

theorem generation_lt_step {r : Replica} {action : ReplicaAction} (h : OutdatesApply r action) :
    r.state.receiverGeneration < (r.step action).state.receiverGeneration := by
  cases action with
  | commitReceive index =>
    obtain ⟨plan, commit, t, hplan, hcommit⟩ := h
    obtain ⟨-, hnext, -⟩ := commitReceive_ok hcommit
    simp only [step, Replica.commitReceive, hplan, exec, hcommit, hnext]
    exact Nat.lt_succ_self _
  | _ => exact h.elim

/-- What an apply plan reads. -/
def applyVersion : Version step where
  Invariant := Invariant
  Outdates := OutdatesApply
  Same r r' := SameApply r.state r'.state
  Past r r' := r.state.receiverGeneration < r'.state.receiverGeneration
  invariant_step hr action := hr.step action
  same_refl _ := ⟨rfl, rfl⟩
  same_trans h h' := ⟨h'.generation.trans h.generation, h'.received.trans h.received⟩
  past_trans := Nat.lt_trans
  past_of_same h h' := h.generation ▸ h'
  past_same h h' := h'.generation ▸ h
  same_step _ := sameApply_step
  past_step _ := generation_lt_step

/-! ### Every run -/

theorem run_append (actions : List ReplicaAction) (action : ReplicaAction) (rest : List ReplicaAction) :
    run (actions ++ action :: rest) = rest.foldl step ((run actions).step action) := by
  rw [run, List.foldl_append, List.foldl_cons]
  rfl

/-- A send that was planned is committed exactly when nothing outdated it in between. -/
theorem commitSend_iff_current {r : Replica} (hr : Invariant r) {nowMs timeoutMs : Nat} {plan : SendPlan}
    (hplan : r.state.planSend nowMs timeoutMs = .ok plan) (between : List ReplicaAction) :
    (∃ commit t, SynchronizationState.commitSend plan (between.foldl step r).state = .ok commit t) ↔
      sendVersion.Current r between ∧ (between.foldl step r).state.senderGeneration + 1 < 2 ^ 64 := by
  have hplanned := planned_of_planSend hplan
  rw [commitSend_ok_iff, hplanned.generation, hplanned.target, hplanned.acknowledged, hplanned.throwaway]
  refine and_congr_left fun _ => ⟨fun hfits => ?_, fun hcurrent => ?_⟩
  · by_contra hpast
    rcases (sendVersion.past_run hr hpast).moved with hgeneration | hremote
    · exact absurd hfits.1 (Nat.ne_of_lt hgeneration)
    · exact absurd hfits.2.2.1 (Nat.ne_of_lt hremote)
  · have hsame := sendVersion.same_run hr hcurrent
    exact ⟨hsame.generation.symm, hsame.latest.symm, hsame.remote.symm, hsame.known.symm⟩

/-- A state that can be applied is committed exactly when no other one was in between. -/
theorem commitReceive_iff_current {r : Replica} (hr : Invariant r) {plan : ApplyPlan} (happlicable : Applicable r.state plan)
    (between : List ReplicaAction) :
    (∃ commit t, SynchronizationState.commitReceive plan (between.foldl step r).state = .ok commit t) ↔
      applyVersion.Current r between ∧ (between.foldl step r).state.receiverGeneration + 1 < 2 ^ 64 := by
  rw [commitReceive_ok_iff, happlicable.generation]
  refine and_congr_left fun _ => ⟨fun hfits => ?_, fun hcurrent => ?_⟩
  · by_contra hpast
    exact absurd hfits.1 (Nat.ne_of_lt (applyVersion.past_run hr hpast))
  · have hsame := applyVersion.same_run hr hcurrent
    refine ⟨hsame.generation.symm, ?_, ?_⟩
    · rw [hsame.received]
      exact happlicable.base_mem
    · rw [hsame.received]
      exact happlicable.target_new

/-- After any operations: a planned send is committed if and only if nothing it depends on happened since, a
    planned application if and only if none was committed since, generations left in both cases; no plan is
    committed twice; and an operation that fails leaves every field as it was. -/
theorem plans_single_use (actions : List ReplicaAction) :
    (∀ nowMs timeoutMs plan, (run actions).state.planSend nowMs timeoutMs = .ok plan → ∀ between,
      let planned := run (actions ++ [.planSend nowMs timeoutMs])
      let r := run (actions ++ .planSend nowMs timeoutMs :: between)
      (∃ commit t, SynchronizationState.commitSend plan r.state = .ok commit t) ↔
        sendVersion.Current planned between ∧ r.state.senderGeneration + 1 < 2 ^ 64) ∧
    (∀ instruction transition s plan, SynchronizationState.beginReceive instruction (run actions).state = .ok transition s →
      transition.remoteState = .apply plan → ∀ between,
      let begun := run (actions ++ [.beginReceive instruction])
      let r := run (actions ++ .beginReceive instruction :: between)
      (∃ commit t, SynchronizationState.commitReceive plan r.state = .ok commit t) ↔
        applyVersion.Current begun between ∧ r.state.receiverGeneration + 1 < 2 ^ 64) ∧
    (∀ index plan commit s, (run actions).sendPlans[index]? = some plan →
      SynchronizationState.commitSend plan (run actions).state = .ok commit s → ∀ later commit' t,
        SynchronizationState.commitSend plan (run (actions ++ .commitSend index :: later)).state ≠ .ok commit' t) ∧
    (∀ index plan commit s, (run actions).applyPlans[index]? = some plan →
      SynchronizationState.commitReceive plan (run actions).state = .ok commit s → ∀ later commit' t,
        SynchronizationState.commitReceive plan (run (actions ++ .commitReceive index :: later)).state ≠ .ok commit' t) ∧
    ∀ s : SynchronizationState, s.Atomic := by
  have hr := invariant_run actions
  refine ⟨?_, ?_, ?_, ?_, atomic⟩
  · intro nowMs timeoutMs plan hplan between
    simp only [run_append, List.foldl_nil]
    have hstate : ((run actions).step (.planSend nowMs timeoutMs)).state = (run actions).state := by
      simp only [step, Replica.planSend, hplan]
    exact commitSend_iff_current (hr.step _) (hstate ▸ hplan) between
  · intro instruction transition s plan hbegin happly between
    simp only [run_append, List.foldl_nil]
    have hnext := hr.step (.beginReceive instruction)
    have hplans : ((run actions).step (.beginReceive instruction)).state = s ∧
        plan ∈ ((run actions).step (.beginReceive instruction)).applyPlans := by
      simp only [step, Replica.beginReceive, hbegin, happly]
      simp
    have hwp := (wp_beginReceive instruction (run actions).state).ok hbegin
    obtain ⟨hvalid, hack, hremote⟩ := hwp
    obtain ⟨happlicable, -, -⟩ := applicable_of_disposition (hvalid.of_localLatest hack.localLatest_eq) (hremote ▸ happly)
    exact commitReceive_iff_current hnext (hplans.1 ▸ happlicable) between
  · intro index plan commit s hplan hcommit later commit' t hagain
    have hpast := sendVersion.past_cons later hr (i := .commitSend index) ⟨plan, commit, s, hplan, hcommit⟩
    obtain ⟨hgeneration, -, hremote, -⟩ := (commitSend_ok_iff.mp ⟨_, _, hcommit⟩).1
    obtain ⟨hgeneration', -, hremote', -⟩ := (commitSend_ok_iff.mp ⟨_, _, hagain⟩).1
    rw [run_append] at hgeneration' hremote'
    rcases hpast.moved with hlt | hlt
    · exact Nat.ne_of_lt hlt (hgeneration.symm.trans hgeneration')
    · exact Nat.ne_of_lt hlt (hremote.symm.trans hremote')
  · intro index plan commit s hplan hcommit later commit' t hagain
    have hpast := applyVersion.past_cons later hr (i := .commitReceive index) ⟨plan, commit, s, hplan, hcommit⟩
    obtain ⟨hgeneration, -⟩ := (commitReceive_ok_iff.mp ⟨_, _, hcommit⟩).1
    obtain ⟨hgeneration', -⟩ := (commitReceive_ok_iff.mp ⟨_, _, hagain⟩).1
    rw [run_append] at hgeneration'
    exact Nat.ne_of_lt hpast (hgeneration.symm.trans hgeneration')

end Replica
end MoshClient
