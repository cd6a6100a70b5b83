import MoshClient.Synchronization

/-! What each operation of the synchronization state does. The sender's numbers and the receiver's
    numbers each keep an invariant of their own, and an operation that fails leaves both as they were. -/

namespace MoshClient.SynchronizationState
open Machine Limits Effect

variable {s t : SynchronizationState}

def sentNumbers (s : SynchronizationState) : List Nat := s.sentStates.map SentState.number

/-- The sent states are the newest unacknowledged ones, in the order of their numbers. -/
structure SenderSound (s : SynchronizationState) : Prop where
  increasing : s.sentNumbers.Pairwise (· < ·)
  known_lt : ∀ n ∈ s.sentNumbers, s.knownReceiverState < n
  le_latest : ∀ n ∈ s.sentNumbers, n ≤ s.localLatest
  known_le : s.knownReceiverState ≤ s.localLatest

/-- The retained references are an increasing window from the throwaway floor to the latest state. -/
structure ReceiverSound (s : SynchronizationState) : Prop where
  increasing : s.receivedStates.Pairwise (· < ·)
  length_le : s.receivedStates.length ≤ maxReceivedReferenceStates
  floor_le : ∀ n ∈ s.receivedStates, s.remoteThrowawayFloor ≤ n
  latest_mem : s.remoteLatest ∈ s.receivedStates
  le_latest : ∀ n ∈ s.receivedStates, n ≤ s.remoteLatest

/-- The receiver's numbers are unchanged. -/
structure SameReceiver (s t : SynchronizationState) : Prop where
  latest : t.remoteLatest = s.remoteLatest
  floor : t.remoteThrowawayFloor = s.remoteThrowawayFloor
  received : t.receivedStates = s.receivedStates
  generation : t.receiverGeneration = s.receiverGeneration

/-- The sender's numbers are unchanged. -/
structure SameSender (s t : SynchronizationState) : Prop where
  latest : t.localLatest = s.localLatest
  known : t.knownReceiverState = s.knownReceiverState
  sent : t.sentStates = s.sentStates
  generation : t.senderGeneration = s.senderGeneration

theorem SameReceiver.refl (s : SynchronizationState) : SameReceiver s s := ⟨rfl, rfl, rfl, rfl⟩

theorem SameReceiver.sound (h : SameReceiver s t) (hs : ReceiverSound s) : ReceiverSound t := by
  obtain ⟨hinc, hlen, hfloor, hmem, hle⟩ := hs
  constructor
  · rw [h.received]; exact hinc
  · rw [h.received]; exact hlen
  · rw [h.received, h.floor]; exact hfloor
  · rw [h.received, h.latest]; exact hmem
  · rw [h.received, h.latest]; exact hle

theorem SameSender.sound (h : SameSender s t) (hs : SenderSound s) : SenderSound t := by
  have hn : t.sentNumbers = s.sentNumbers := congrArg (List.map SentState.number) h.sent
  obtain ⟨hinc, hlt, hle, hk⟩ := hs
  constructor
  · rw [hn]; exact hinc
  · rw [hn, h.known]; exact hlt
  · rw [hn, h.latest]; exact hle
  · rw [h.known, h.latest]; exact hk

theorem senderSound_new : SenderSound new :=
  ⟨List.Pairwise.nil, fun _ h => (List.not_mem_nil h).elim, fun _ h => (List.not_mem_nil h).elim, Nat.le_refl 0⟩

theorem receiverSound_new : ReceiverSound new := by
  constructor <;> simp [new, maxReceivedReferenceStates]

/-! ### Advancing the local state -/

theorem wp_advanceLocal (s : SynchronizationState) :
    wp advanceLocal
      (fun n t => n = s.localLatest + 1 ∧ n < 2 ^ 64 ∧
        t = { s with localLatest := s.localLatest + 1, senderGeneration := s.senderGeneration + 1 })
      (fun e t => t = s ∧ (e = .stateNumberExhausted ∨ e = .generationExhausted)) s := by
  unfold wp advanceLocal
  cases h₁ : checkedAdd s.localLatest 1 with
  | none => simp
  | some n =>
    cases h₂ : checkedAdd s.senderGeneration 1 with
    | none => simp
    | some g =>
      obtain ⟨rfl, hn⟩ := checkedAdd_eq_some.mp h₁
      obtain ⟨rfl, -⟩ := checkedAdd_eq_some.mp h₂
      exact ⟨rfl, hn, rfl⟩

theorem SenderSound.advance (hs : SenderSound s) :
    SenderSound { s with localLatest := s.localLatest + 1, senderGeneration := s.senderGeneration + 1 } :=
  ⟨hs.increasing, hs.known_lt, fun n hn => Nat.le_succ_of_le (hs.le_latest n hn), Nat.le_succ_of_le hs.known_le⟩

/-! ### Planning a send -/

/-- What `planSend` promises of a plan. -/
structure Planned (s : SynchronizationState) (nowMs : Nat) (plan : SendPlan) : Prop where
  generation : plan.generation = s.senderGeneration
  target : plan.targetState = s.localLatest
  acknowledged : plan.acknowledgedState = s.remoteLatest
  throwaway : plan.throwawayState = s.knownReceiverState
  plannedAt : plan.plannedAtMs = nowMs
  base_lt : plan.baseState < s.localLatest
  base_sent : plan.baseState = s.knownReceiverState ∨ plan.baseState ∈ s.sentNumbers

theorem selectBase_ok {nowMs timeoutMs known base : Nat} {sent : List SentState}
    (h : selectBase nowMs timeoutMs known sent = .ok base) :
    base = known ∨ base ∈ sent.map SentState.number := by
  induction sent with
  | nil => exact Or.inl (Except.ok.inj h).symm
  | cons x older ih =>
    simp only [selectBase] at h
    split at h
    · cases h
    · split at h
      · exact Or.inr (by cases h; exact List.mem_cons_self)
      · exact (ih h).imp_right (List.mem_cons_of_mem _)

theorem planned_of_planSend {nowMs timeoutMs : Nat} {plan : SendPlan}
    (h : s.planSend nowMs timeoutMs = .ok plan) : Planned s nowMs plan := by
  unfold planSend at h
  split at h
  · cases h
  · split at h
    · cases h
    · rename_i base hbase
      split at h
      · cases h
      · rename_i hlt
        cases h
        refine ⟨rfl, rfl, rfl, rfl, rfl, Nat.lt_of_not_le hlt, ?_⟩
        rcases selectBase_ok hbase with hk | hsent
        · exact Or.inl hk
        · exact Or.inr (by simpa [sentNumbers] using hsent)

theorem selectBase_error {nowMs timeoutMs known : Nat} {sent : List SentState} {e : SynchronizationError}
    (h : selectBase nowMs timeoutMs known sent = .error e) : e = .timeMovedBackwards := by
  induction sent with
  | nil => cases h
  | cons x older ih =>
    simp only [selectBase] at h
    split at h
    · exact (Except.error.inj h).symm
    · split at h
      · cases h
      · exact ih h

theorem planSend_error {nowMs timeoutMs : Nat} {e : SynchronizationError}
    (h : s.planSend nowMs timeoutMs = .error e) : e ≠ .stalePlan := by
  unfold planSend at h
  split at h
  · cases h
    simp
  · split at h
    · rename_i e' hbase
      cases h
      simp [selectBase_error hbase]
    · split at h
      · cases h
        simp
      · cases h

theorem Planned.throwaway_le {nowMs : Nat} {plan : SendPlan} (h : Planned s nowMs plan) (hs : SenderSound s) :
    plan.throwawayState ≤ plan.baseState := by
  rw [h.throwaway]
  rcases h.base_sent with hk | hsent
  · exact Nat.le_of_eq hk.symm
  · exact Nat.le_of_lt (hs.known_lt _ hsent)

/-! ### Committing a send -/

theorem map_number_resend (number sentAtMs : Nat) (l : List SentState) :
    (resend number sentAtMs l).map SentState.number = l.map SentState.number := by
  induction l with
  | nil => rfl
  | cons x l ih =>
    simp only [resend]
    split
    · rfl
    · simp [ih]

/-- A committed send leaves the sent numbers, or appends the target and drops the oldest when the window
    is full. -/
inductive Recorded (target : Nat) (before after : List Nat) : Option Nat → Prop where
  | again (hmem : target ∈ before) (h : after = before) : Recorded target before after none
  | added (hnew : target ∉ before) (h : after = before ++ [target]) : Recorded target before after none
  | evicted (hnew : target ∉ before) (oldest : Nat) (rest : List Nat) (hb : before = oldest :: rest)
      (h : after = rest ++ [target]) : Recorded target before after (some oldest)

theorem recorded_recordSent (number sentAtMs : Nat) (l : List SentState) :
    Recorded number (l.map SentState.number) ((recordSent number sentAtMs l).1.map SentState.number)
      (recordSent number sentAtMs l).2 := by
  have hany : (l.any fun sent => sent.number == number) = true ↔ number ∈ l.map SentState.number := by
    simp
  unfold recordSent
  split
  · rename_i h
    exact .again (hany.mp h) (map_number_resend _ _ _)
  · rename_i h
    have hnew : number ∉ l.map SentState.number := fun hm => h (hany.mpr hm)
    split
    · rename_i hlen
      match l, hlen with
      | x :: rest, _ => exact .evicted hnew x.number (rest.map SentState.number) rfl (by simp)
    · exact .added hnew (by simp)

/-- What a committed send of the latest local state does: it enters the sent states, unless the receiver
    is known to hold it. -/
structure Committed (s : SynchronizationState) (evicted : Option Nat) (t : SynchronizationState) : Prop where
  receiver : SameReceiver s t
  latest : t.localLatest = s.localLatest
  known : t.knownReceiverState = s.knownReceiverState
  recorded : s.knownReceiverState < s.localLatest → Recorded s.localLatest s.sentNumbers t.sentNumbers evicted
  unrecorded : ¬s.knownReceiverState < s.localLatest → t.sentNumbers = s.sentNumbers ∧ evicted = none

theorem wp_commitSend (s : SynchronizationState) (plan : SendPlan) :
    wp (commitSend plan) (fun commit t => Committed s commit.capacityEvictedState t)
      (fun e t => t = s ∧ (e = .generationExhausted ∨ e = .stalePlan ∧ ∀ nowMs, ¬Planned s nowMs plan)) s := by
  unfold wp commitSend
  split
  · rename_i a t h
    split at h
    · cases h
    · rename_i hfresh
      push Not at hfresh
      obtain ⟨-, htarget, -, -⟩ := hfresh
      split at h
      · cases h
      · split at h
        · rename_i hlt
          cases h
          refine ⟨⟨rfl, rfl, rfl, rfl⟩, rfl, rfl, fun _ => ?_, fun hnot => absurd (htarget ▸ hlt) hnot⟩
          rw [← htarget]
          exact recorded_recordSent _ _ _
        · rename_i hlt
          cases h
          exact ⟨⟨rfl, rfl, rfl, rfl⟩, rfl, rfl, fun hlt' => absurd (htarget ▸ hlt') hlt, fun _ => ⟨rfl, rfl⟩⟩
  · rename_i e t h
    split at h
    · rename_i hstale
      cases h
      refine ⟨rfl, Or.inr ⟨rfl, fun nowMs hp => ?_⟩⟩
      rcases hstale with hg | ht | ha | hk
      · exact hg hp.generation
      · exact ht hp.target
      · exact ha hp.acknowledged
      · exact hk hp.throwaway
    · split at h
      · cases h
        exact ⟨rfl, Or.inl rfl⟩
      · split at h <;> cases h

theorem Recorded.mem {target : Nat} {before after : List Nat} {evicted : Option Nat}
    (h : Recorded target before after evicted) {n : Nat} (hn : n ∈ after) : n = target ∨ n ∈ before := by
  cases h with
  | again _ h => exact Or.inr (h ▸ hn)
  | added _ h =>
    rw [h, List.mem_append, List.mem_singleton] at hn
    exact hn.symm
  | evicted _ oldest rest hb h =>
    rw [h, List.mem_append, List.mem_singleton] at hn
    exact hn.symm.imp_right fun hr => hb ▸ List.mem_cons_of_mem _ hr

theorem Recorded.increasing {target : Nat} {before after : List Nat} {evicted : Option Nat}
    (h : Recorded target before after evicted) (hinc : before.Pairwise (· < ·)) (hle : ∀ n ∈ before, n ≤ target) :
    after.Pairwise (· < ·) := by
  have happend : ∀ l : List Nat, l.Pairwise (· < ·) → (∀ n ∈ l, n ∈ before) → target ∉ before →
      (l ++ [target]).Pairwise (· < ·) := by
    intro l hl hsub hnew
    rw [List.pairwise_append]
    refine ⟨hl, List.pairwise_singleton _ _, fun a ha b hb => ?_⟩
    rw [List.mem_singleton] at hb
    subst hb
    exact Nat.lt_of_le_of_ne (hle a (hsub a ha)) fun heq => hnew (heq ▸ hsub a ha)
  cases h with
  | again _ h => exact h ▸ hinc
  | added hnew h => exact h ▸ happend before hinc (fun _ hn => hn) hnew
  | evicted hnew oldest rest hb h =>
    subst hb
    exact h ▸ happend rest (List.pairwise_cons.mp hinc).2 (fun _ hn => List.mem_cons_of_mem _ hn) hnew

/-- The state that makes room is older than every state that stays. -/
theorem Recorded.evicted_lt {target oldest : Nat} {before after : List Nat}
    (h : Recorded target before after (some oldest)) (hinc : before.Pairwise (· < ·))
    (hle : ∀ n ∈ before, n ≤ target) : oldest ∈ before ∧ ∀ n ∈ after, oldest < n := by
  cases h with
  | evicted hnew _ rest hb h =>
    subst hb h
    refine ⟨List.mem_cons_self, fun n hn => ?_⟩
    rw [List.mem_append, List.mem_singleton] at hn
    rcases hn with hn | rfl
    · exact (List.pairwise_cons.mp hinc).1 n hn
    · exact Nat.lt_of_le_of_ne (hle _ List.mem_cons_self) fun heq => hnew (heq ▸ List.mem_cons_self)

theorem SenderSound.commit {evicted : Option Nat} (hs : SenderSound s) (hc : Committed s evicted t) :
    SenderSound t := by
  by_cases h : s.knownReceiverState < s.localLatest
  · have hrec := hc.recorded h
    refine ⟨hrec.increasing hs.increasing hs.le_latest, fun n hn => ?_, fun n hn => ?_, ?_⟩
    · rw [hc.known]
      rcases hrec.mem hn with rfl | hn
      · exact h
      · exact hs.known_lt n hn
    · rw [hc.latest]
      rcases hrec.mem hn with rfl | hn
      · exact Nat.le_refl _
      · exact hs.le_latest n hn
    · rw [hc.known, hc.latest]; exact hs.known_le
  · have hsent := (hc.unrecorded h).1
    constructor
    · rw [hsent]; exact hs.increasing
    · rw [hsent, hc.known]; exact hs.known_lt
    · rw [hsent, hc.latest]; exact hs.le_latest
    · rw [hc.known, hc.latest]; exact hs.known_le

/-! ### Times of sending -/

theorem resend_last {number sentAtMs : Nat} {l : List SentState} (hinc : (l.map SentState.number).Pairwise (· < ·))
    (hle : ∀ sent ∈ l, sent.number ≤ number) (hmem : number ∈ l.map SentState.number) :
    ∃ older, older.Sublist l ∧ resend number sentAtMs l = older ++ [⟨number, sentAtMs⟩] := by
  induction l with
  | nil => exact absurd hmem List.not_mem_nil
  | cons x l ih =>
    obtain ⟨hlt, hinc'⟩ := List.pairwise_cons.mp hinc
    simp only [resend]
    split
    · rename_i hx
      -- Nothing is newer than the greatest number, so `x` is the last entry.
      have hnil : l = [] := by
        refine List.eq_nil_iff_forall_not_mem.mpr fun y hy => ?_
        have hgt := hlt y.number (List.mem_map_of_mem hy)
        have hley := hle y (List.mem_cons_of_mem _ hy)
        omega
      subst hnil hx
      exact ⟨[], List.nil_sublist _, rfl⟩
    · rename_i hx
      have hmem' : number ∈ l.map SentState.number := by
        rcases List.mem_cons.mp hmem with h | h
        · exact absurd h.symm hx
        · exact h
      obtain ⟨older, hsub, heq⟩ := ih hinc' (fun y hy => hle y (List.mem_cons_of_mem _ hy)) hmem'
      exact ⟨x :: older, hsub.cons_cons x, by rw [heq]; rfl⟩

/-- A committed send of the greatest number stands last, after entries that were there before. -/
theorem recordSent_last {number sentAtMs : Nat} {l : List SentState}
    (hinc : (l.map SentState.number).Pairwise (· < ·)) (hle : ∀ sent ∈ l, sent.number ≤ number) :
    ∃ older, older.Sublist l ∧ (recordSent number sentAtMs l).1 = older ++ [⟨number, sentAtMs⟩] := by
  unfold recordSent
  split
  · rename_i h
    exact resend_last hinc hle (by simpa using h)
  · split
    · exact ⟨l.tail, List.tail_sublist l, rfl⟩
    · exact ⟨l, List.Sublist.refl l, rfl⟩

theorem length_recordSent_le {number sentAtMs : Nat} {l : List SentState} (hlen : l.length ≤ maxSentStatesAfterAck) :
    (recordSent number sentAtMs l).1.length ≤ maxSentStatesAfterAck := by
  have hresend : (resend number sentAtMs l).length = l.length := by
    have h := congrArg List.length (map_number_resend number sentAtMs l)
    simpa using h
  unfold recordSent
  split
  · rw [hresend]
    exact hlen
  · split
    · rename_i hfull
      rw [List.length_append, List.length_tail, List.length_singleton, hfull]
      decide
    · rename_i hroom
      rw [List.length_append, List.length_singleton]
      omega

/-- A plan that is committed was made in the same generation, and its target is entered with the time of
    the plan. -/
theorem commitSend_ok {plan : SendPlan} {commit : SendCommit} (h : commitSend plan s = .ok commit t) :
    plan.generation = s.senderGeneration ∧
      t =
        { s with
          sentStates := if s.knownReceiverState < s.localLatest then
              (recordSent s.localLatest plan.plannedAtMs s.sentStates).1
            else s.sentStates
          senderGeneration := s.senderGeneration + 1 } := by
  unfold commitSend at h
  split at h
  · cases h
  · rename_i hfresh
    push Not at hfresh
    obtain ⟨hgeneration, htarget, -, -⟩ := hfresh
    split at h
    · cases h
    · rename_i generation hnext
      obtain ⟨rfl, -⟩ := checkedAdd_eq_some.mp hnext
      rw [htarget] at h
      refine ⟨hgeneration, ?_⟩
      split at h
      · rename_i hlt
        simp only [show s.knownReceiverState < s.localLatest from hlt, if_true]
        cases h
        rfl
      · rename_i hlt
        simp only [show ¬s.knownReceiverState < s.localLatest from hlt, if_false]
        cases h
        rfl

/-! ### Acknowledgements -/

/-- An acknowledgement leaves the state, or moves the known receiver state to a sent state. -/
inductive Acknowledged (acknowledgement : Nat) (s : SynchronizationState) :
    AcknowledgementDisposition → SynchronizationState → Prop where
  | kept (d : AcknowledgementDisposition) (hd : ∀ old new, d ≠ .advanced old new) :
      Acknowledged acknowledgement s d s
  | moved (hlt : s.knownReceiverState < acknowledgement) (hsent : acknowledgement ∈ s.sentNumbers) :
      Acknowledged acknowledgement s (.advanced s.knownReceiverState acknowledgement)
        { s with
          knownReceiverState := acknowledgement
          sentStates := s.sentStates.filter fun sent => decide (sent.number > acknowledgement)
          senderGeneration := s.senderGeneration + 1 }

theorem wp_observeAcknowledgement (acknowledgement : Nat) (s : SynchronizationState) :
    wp (observeAcknowledgement acknowledgement) (Acknowledged acknowledgement s)
      (fun e t => t = s ∧ e = .generationExhausted ∧ 2 ^ 64 ≤ s.senderGeneration + 1) s := by
  unfold wp observeAcknowledgement
  by_cases hlt : acknowledgement < s.knownReceiverState
  · simp only [if_pos hlt]
    exact .kept _ fun _ _ => by simp
  · by_cases heq : acknowledgement = s.knownReceiverState
    · simp only [if_neg hlt, if_pos heq]
      exact .kept _ fun _ _ => by simp
    · by_cases hany : s.sentStates.any (fun sent => sent.number == acknowledgement) = true
      · simp only [if_neg hlt, if_neg heq, hany, not_true_eq_false, if_false]
        cases hg : checkedAdd s.senderGeneration 1 with
        | none => exact ⟨rfl, rfl, checkedAdd_eq_none.mp hg⟩
        | some g =>
          obtain ⟨rfl, -⟩ := checkedAdd_eq_some.mp hg
          refine .moved (by omega) ?_
          simpa [sentNumbers] using hany
      · simp only [if_neg hlt, if_neg heq, hany]
        exact .kept _ fun _ _ => by simp

theorem Acknowledged.sameReceiver {acknowledgement : Nat} {d : AcknowledgementDisposition}
    (h : Acknowledged acknowledgement s d t) : SameReceiver s t := by
  cases h <;> exact ⟨rfl, rfl, rfl, rfl⟩

theorem Acknowledged.localLatest_eq {acknowledgement : Nat} {d : AcknowledgementDisposition}
    (h : Acknowledged acknowledgement s d t) : t.localLatest = s.localLatest := by
  cases h <;> rfl

theorem Acknowledged.known_cases {acknowledgement : Nat} {d : AcknowledgementDisposition}
    (h : Acknowledged acknowledgement s d t) :
    t.knownReceiverState = s.knownReceiverState ∨
      t.knownReceiverState = acknowledgement ∧ s.knownReceiverState < acknowledgement := by
  cases h with
  | kept => exact Or.inl rfl
  | moved hlt => exact Or.inr ⟨rfl, hlt⟩

theorem Acknowledged.mem_sentNumbers {acknowledgement : Nat} {d : AcknowledgementDisposition}
    (h : Acknowledged acknowledgement s d t) {n : Nat} (hn : n ∈ t.sentNumbers) : n ∈ s.sentNumbers := by
  cases h with
  | kept => exact hn
  | moved =>
    simp only [sentNumbers, List.mem_map, List.mem_filter] at hn ⊢
    obtain ⟨x, ⟨hx, -⟩, rfl⟩ := hn
    exact ⟨x, hx, rfl⟩

theorem Acknowledged.senderSound {acknowledgement : Nat} {d : AcknowledgementDisposition}
    (h : Acknowledged acknowledgement s d t) (hs : SenderSound s) : SenderSound t := by
  have hmem := fun {n} => h.mem_sentNumbers (n := n)
  cases h with
  | kept => exact hs
  | moved hlt hsent =>
    refine ⟨?_, fun n hn => ?_, fun n hn => hs.le_latest n (hmem hn), hs.le_latest _ hsent⟩
    · exact hs.increasing.sublist (List.filter_sublist.map SentState.number)
    · simp only [sentNumbers, List.mem_map, List.mem_filter, decide_eq_true_eq] at hn
      obtain ⟨x, ⟨-, hx⟩, rfl⟩ := hn
      exact hx

/-! ### Receiving an instruction -/

/-- What `beginReceive` promises of a plan that it answers. -/
structure Applicable (s : SynchronizationState) (plan : ApplyPlan) : Prop where
  generation : plan.generation = s.receiverGeneration
  base_mem : plan.baseState ∈ s.receivedStates
  target_new : plan.targetState ∉ s.receivedStates
  throwaway_le : plan.throwawayState ≤ plan.baseState
  base_lt : plan.baseState < plan.targetState
  floor_le : s.remoteThrowawayFloor ≤ plan.targetState
  retainable : s.canRetainReceivedState plan.targetState = true
  becomes : plan.becomesLatest = decide (plan.targetState > s.remoteLatest)

/-- The numbers of an instruction that `validateInstruction` accepts. -/
structure Valid (s : SynchronizationState) (instruction : TransportInstruction) : Prop where
  version : instruction.protocolVersion = protocolVersion
  acknowledged_le : instruction.acknowledgedState ≤ s.localLatest
  base_lt : instruction.baseState < instruction.newState
  discard_le : instruction.discardBeforeState ≤ instruction.baseState

theorem validateInstruction_ok {instruction : TransportInstruction} :
    s.validateInstruction instruction = .ok () ↔ Valid s instruction := by
  unfold validateInstruction
  constructor
  · intro h
    split at h
    · cases h
    · split at h
      · cases h
      · split at h
        · cases h
        · split at h
          · cases h
          · rename_i h₁ h₂ h₃ h₄
            exact ⟨not_not.mp h₁, Nat.le_of_not_lt h₂, Nat.lt_of_not_le h₃, Nat.le_of_not_lt h₄⟩
  · rintro ⟨h₁, h₂, h₃, h₄⟩
    rw [if_neg (not_not.mpr h₁), if_neg (Nat.not_lt.mpr h₂), if_neg (Nat.not_le.mpr h₃),
      if_neg (Nat.not_lt.mpr h₄)]

theorem applicable_of_disposition {instruction : TransportInstruction} {plan : ApplyPlan}
    (hv : Valid s instruction) (h : s.disposition instruction = .apply plan) :
    Applicable s plan ∧ plan.targetState = instruction.newState ∧
      plan.throwawayState = instruction.discardBeforeState := by
  unfold disposition at h
  split at h
  · cases h
  · rename_i hfloor
    split at h
    · cases h
    · rename_i hnew
      split at h
      · cases h
      · rename_i hbase
        split at h
        · cases h
        · rename_i hretain
          cases h
          exact ⟨⟨rfl, not_not.mp hbase, hnew, hv.discard_le, hv.base_lt,
            Nat.le_of_not_lt fun hlt => hfloor (Or.inl hlt), by simpa using hretain, rfl⟩, rfl, rfl⟩

theorem wp_beginReceive (instruction : TransportInstruction) (s : SynchronizationState) :
    wp (beginReceive instruction)
      (fun transition t => Valid s instruction ∧
        Acknowledged instruction.acknowledgedState s transition.acknowledgement t ∧
        transition.remoteState = t.disposition instruction)
      (fun e t => t = s ∧ (¬Valid s instruction ∧ e ≠ .stalePlan ∨
        e = .generationExhausted ∧ 2 ^ 64 ≤ s.senderGeneration + 1)) s := by
  have hack := wp_observeAcknowledgement instruction.acknowledgedState s
  unfold wp beginReceive
  cases hv : s.validateInstruction instruction with
  | error e =>
    refine ⟨rfl, Or.inl ⟨fun hvalid => ?_, ?_⟩⟩
    · rw [validateInstruction_ok.mpr hvalid] at hv
      cases hv
    · rintro rfl
      unfold validateInstruction at hv
      split_ifs at hv
      all_goals cases hv
  | ok u =>
    cases ho : observeAcknowledgement instruction.acknowledgedState s with
    | error e t =>
      obtain ⟨rfl, rfl, hg⟩ := hack.error ho
      exact ⟨rfl, Or.inr ⟨rfl, hg⟩⟩
    | ok d t => exact ⟨validateInstruction_ok.mp hv, hack.ok ho, rfl⟩

/-- A shutdown starts from a retained reference, and its acknowledgement is observed. -/
theorem wp_beginShutdownReceive (instruction : TransportInstruction) (s : SynchronizationState) :
    wp (beginShutdownReceive instruction)
      (fun transition t => (transition = ⟨instruction.baseState, instruction.stateDifference⟩ ∧
        transition.baseState ∈ t.receivedStates) ∧ ∃ d, Acknowledged instruction.acknowledgedState s d t)
      (fun e t => t = s ∧ e ≠ .stalePlan) s := by
  have hack := wp_observeAcknowledgement instruction.acknowledgedState s
  unfold wp beginShutdownReceive
  split_ifs with hinvalid
  · exact ⟨rfl, by simp⟩
  · push Not at hinvalid
    obtain ⟨-, -, -, -, -, hbase⟩ := hinvalid
    cases ho : observeAcknowledgement instruction.acknowledgedState s with
    | error e t =>
      obtain ⟨rfl, rfl, -⟩ := hack.error ho
      exact ⟨rfl, by simp⟩
    | ok d t =>
      have ht := hack.ok ho
      exact ⟨⟨rfl, ht.sameReceiver.received ▸ hbase⟩, d, ht⟩

theorem Valid.of_localLatest {instruction : TransportInstruction} (h : Valid s instruction)
    (heq : t.localLatest = s.localLatest) : Valid t instruction :=
  ⟨h.version, heq ▸ h.acknowledged_le, h.base_lt, h.discard_le⟩

/-! ### Committing a received state -/

/-- Nothing is evicted from a window with room; a full one drops its first evictable reference. -/
inductive Evicted (s t : SynchronizationState) : Option Nat → Prop where
  | room (hlen : s.receivedStates.length ≠ maxReceivedReferenceStates) (h : t.receivedStates = s.receivedStates) :
      Evicted s t none
  | full (older : List Nat) (number : Nat) (newer : List Nat)
      (hlen : s.receivedStates.length = maxReceivedReferenceStates)
      (hs : s.receivedStates = older ++ number :: newer) (holder : older.length = s.firstEvictable)
      (h : t.receivedStates = older ++ newer) : Evicted s t (some number)

theorem firstEvictable_le (s : SynchronizationState) : s.firstEvictable ≤ 1 := by
  unfold firstEvictable
  split <;> omega

theorem evicted_evictReceived (s : SynchronizationState) : Evicted s s.evictReceived.1 s.evictReceived.2 := by
  unfold evictReceived
  split
  · rename_i hlen
    have hlt : s.firstEvictable < s.receivedStates.length := by
      rw [hlen]
      exact Nat.lt_of_le_of_lt s.firstEvictable_le (by decide)
    rw [List.getElem?_eq_getElem hlt]
    refine .full (s.receivedStates.take s.firstEvictable) _ (s.receivedStates.drop (s.firstEvictable + 1)) hlen
      ?_ (by rw [List.length_take]; omega) (List.eraseIdx_eq_take_drop_succ _ _)
    rw [List.getElem_cons_drop, List.take_append_drop]
  · rename_i hlen
    exact .room hlen rfl

section Evicted
variable {evicted : Option Nat}

theorem Evicted.sublist (h : Evicted s t evicted) : t.receivedStates.Sublist s.receivedStates := by
  cases h with
  | room _ h => exact h ▸ List.Sublist.refl _
  | full older number newer _ hs _ h =>
    rw [h, hs]
    exact (List.sublist_cons_self number newer).append_left older

theorem Evicted.length_lt (h : Evicted s t evicted) (hlen : s.receivedStates.length ≤ maxReceivedReferenceStates) :
    t.receivedStates.length < maxReceivedReferenceStates := by
  cases h with
  | room hne h => rw [h]; omega
  | full older number newer hlen hs _ h =>
    rw [hs, List.length_append, List.length_cons] at hlen
    rw [h, List.length_append]
    omega

theorem Evicted.mem_iff (h : Evicted s t evicted) (hinc : s.receivedStates.Pairwise (· < ·)) {n : Nat} :
    n ∈ t.receivedStates ↔ n ∈ s.receivedStates ∧ evicted ≠ some n := by
  cases h with
  | room _ h => simp [h]
  | full older number newer _ hs _ h =>
    -- The numbers are distinct, so only the evicted place held the evicted number.
    rw [hs, List.pairwise_append, List.pairwise_cons] at hinc
    have holder : number ∉ older := fun hm => Nat.lt_irrefl _ (hinc.2.2 _ hm _ List.mem_cons_self)
    have hnewer : number ∉ newer := fun hm => Nat.lt_irrefl _ (hinc.2.1.1 _ hm)
    rw [h, hs]
    simp only [List.mem_append, List.mem_cons, ne_eq, Option.some.injEq]
    constructor
    · rintro (hm | hm)
      · exact ⟨Or.inl hm, fun heq => holder (heq ▸ hm)⟩
      · exact ⟨Or.inr (Or.inr hm), fun heq => hnewer (heq ▸ hm)⟩
    · rintro ⟨hm | heq | hm, hne⟩
      · exact Or.inl hm
      · exact absurd heq.symm hne
      · exact Or.inr hm

/-- With a newer number in its place, an evicted one leaves as many references above any state. -/
theorem Evicted.above_le (h : Evicted s t evicted) {target : Nat} (hlt : ∀ n, evicted = some n → n < target)
    (a : Nat) :
    Increasing.above a s.receivedStates ≤ Increasing.above a (Increasing.insert target t.receivedStates) := by
  rw [Increasing.above_insert]
  cases h with
  | room _ h => rw [h]; omega
  | full older number newer _ hs _ h =>
    have hn := hlt number rfl
    rw [h, hs]
    simp only [Increasing.above, List.countP_append, List.countP_cons, decide_eq_true_eq]
    split <;> split <;> omega

theorem Evicted.above_evicted {number : Nat} (h : Evicted s t (some number))
    (hinc : s.receivedStates.Pairwise (· < ·)) :
    maxReceivedReferenceStates ≤ Increasing.above number t.receivedStates + 2 := by
  cases h with
  | full older _ newer hlen hs holder h =>
    have hle := s.firstEvictable_le
    rw [hs, List.pairwise_append, List.pairwise_cons] at hinc
    have hnewer : Increasing.above number newer = newer.length := Increasing.above_of_forall hinc.2.1.1
    have happend : newer.length ≤ Increasing.above number (older ++ newer) := by
      rw [← hnewer]
      simp only [Increasing.above, List.countP_append]
      omega
    rw [hs, List.length_append, List.length_cons] at hlen
    rw [h]
    omega

end Evicted

theorem evictReceived_fields (s : SynchronizationState) :
    s.evictReceived.1.remoteThrowawayFloor = s.remoteThrowawayFloor ∧
      s.evictReceived.1.remoteLatest = s.remoteLatest ∧ SameSender s s.evictReceived.1 := by
  unfold evictReceived
  split <;> exact ⟨rfl, rfl, rfl, rfl, rfl, rfl⟩

theorem lt_of_canRetain {target : Nat} {older newer : List Nat} {number : Nat}
    (hretain : s.canRetainReceivedState target = true)
    (hlen : s.receivedStates.length = maxReceivedReferenceStates)
    (hs : s.receivedStates = older ++ number :: newer) (holder : older.length = s.firstEvictable) :
    number < target := by
  unfold canRetainReceivedState at hretain
  rw [if_neg (by omega), ← holder, hs] at hretain
  simpa using hretain

/-- Raising the floor: the new latest state may raise it, and the references below it go. -/
structure Raised (s : SynchronizationState) (plan : ApplyPlan) (r : SynchronizationState) : Prop where
  sender : SameSender s r
  received : r.receivedStates = s.receivedStates.filter fun n => decide (r.remoteThrowawayFloor ≤ n)
  floor_le : r.remoteThrowawayFloor ≤ plan.targetState
  floor_mono : s.remoteThrowawayFloor ≤ r.remoteThrowawayFloor
  floor_max : r.remoteThrowawayFloor ≤ max s.remoteThrowawayFloor plan.throwawayState
  latest : s.remoteLatest < plan.targetState ∧ r.remoteLatest = plan.targetState ∨
    plan.targetState < s.remoteLatest ∧ r = s

theorem raised_raiseFloor {plan : ApplyPlan} (hs : ReceiverSound s) (hp : Applicable s plan) :
    Raised s plan (s.raiseFloor plan) := by
  have hne : plan.targetState ≠ s.remoteLatest := fun h => hp.target_new (h ▸ hs.latest_mem)
  have hbase := hp.throwaway_le
  have hlt := hp.base_lt
  have hfloor := hp.floor_le
  unfold raiseFloor
  split
  · rename_i hb
    rw [hp.becomes, decide_eq_true_eq] at hb
    exact ⟨⟨rfl, rfl, rfl, rfl⟩, rfl, by simp only; omega, Nat.le_max_left _ _, Nat.le_refl _, Or.inl ⟨hb, rfl⟩⟩
  · rename_i hb
    rw [hp.becomes, decide_eq_true_eq] at hb
    refine ⟨⟨rfl, rfl, rfl, rfl⟩, ?_, hfloor, Nat.le_refl _, Nat.le_max_left _ _, Or.inr ⟨by omega, rfl⟩⟩
    rw [eq_comm, List.filter_eq_self]
    intro n hn
    exact decide_eq_true (hs.floor_le n hn)

theorem Raised.increasing {plan : ApplyPlan} {r : SynchronizationState} (h : Raised s plan r)
    (hs : ReceiverSound s) : r.receivedStates.Pairwise (· < ·) := by
  rw [h.received]
  exact hs.increasing.filter _

theorem Raised.mem_iff {plan : ApplyPlan} {r : SynchronizationState} (h : Raised s plan r) {n : Nat} :
    n ∈ r.receivedStates ↔ n ∈ s.receivedStates ∧ r.remoteThrowawayFloor ≤ n := by
  rw [h.received, List.mem_filter, decide_eq_true_eq]

/-- The evicted state is older than the target, and it is not the latest one. -/
theorem Raised.evicted_lt {plan : ApplyPlan} {r : SynchronizationState} (h : Raised s plan r)
    (hs : ReceiverSound s) (hp : Applicable s plan) {older newer : List Nat} {number : Nat}
    (hlen : r.receivedStates.length = maxReceivedReferenceStates)
    (hr : r.receivedStates = older ++ number :: newer) (holder : older.length = r.firstEvictable) :
    number < plan.targetState ∧ number < max s.remoteLatest plan.targetState := by
  have hmem : number ∈ s.receivedStates := (h.mem_iff.mp (hr ▸ by simp)).1
  have hle := hs.le_latest number hmem
  rcases h.latest with ⟨hlt, -⟩ | ⟨hlt, rfl⟩
  · omega
  · have := lt_of_canRetain hp.retainable hlen hr holder
    omega

/-- What constructing the target of a plan does to the receiver's numbers. -/
structure Constructed (s : SynchronizationState) (plan : ApplyPlan) (commit : ReceiveCommit)
    (t : SynchronizationState) : Prop where
  sender : SameSender s t
  discard : commit.discardBeforeState = t.remoteThrowawayFloor
  floor_le : t.remoteThrowawayFloor ≤ plan.targetState
  floor_mono : s.remoteThrowawayFloor ≤ t.remoteThrowawayFloor
  floor_max : t.remoteThrowawayFloor ≤ max s.remoteThrowawayFloor plan.throwawayState
  latest : t.remoteLatest = max s.remoteLatest plan.targetState
  mem_iff : ∀ n, n ∈ t.receivedStates ↔
    n = plan.targetState ∨
      n ∈ s.receivedStates ∧ t.remoteThrowawayFloor ≤ n ∧ commit.capacityEvictedState ≠ some n
  target_kept : commit.capacityEvictedState ≠ some plan.targetState
  sound : ReceiverSound t
  /-- A state that makes room has all but one of the window's places above it. -/
  evicted_above : ∀ n, commit.capacityEvictedState = some n →
    maxReceivedReferenceStates ≤ Increasing.above n t.receivedStates + 1
  /-- From the floor on, the number of references above a state does not fall. -/
  above_mono : ∀ n, t.remoteThrowawayFloor ≤ n →
    Increasing.above n s.receivedStates ≤ Increasing.above n t.receivedStates

/-- Raising the floor, evicting and inserting the target together construct it. -/
theorem constructed_insert {plan : ApplyPlan} {r u : SynchronizationState} {evicted : Option Nat}
    (hs : ReceiverSound s) (hp : Applicable s plan) (hr : Raised s plan r) (hu : Evicted r u evicted)
    (hfloor : u.remoteThrowawayFloor = r.remoteThrowawayFloor) (hlatest : u.remoteLatest = r.remoteLatest)
    (hsender : SameSender r u) (generation : Nat) :
    Constructed s plan ⟨u.remoteThrowawayFloor, evicted⟩
      { u with
        receivedStates := Increasing.insert plan.targetState u.receivedStates
        receiverGeneration := generation } := by
  have hinc := hr.increasing hs
  have hlt : ∀ n, evicted = some n → n < plan.targetState ∧ n < max s.remoteLatest plan.targetState := by
    rintro n rfl
    cases hu with
    | full older _ newer hlen hsplit holder _ => exact hr.evicted_lt hs hp hlen hsplit holder
  have hmem : ∀ n, n ∈ u.receivedStates ↔
      n ∈ s.receivedStates ∧ u.remoteThrowawayFloor ≤ n ∧ evicted ≠ some n := by
    intro n
    rw [hu.mem_iff hinc, hr.mem_iff, hfloor, and_assoc]
  have hlatest' : u.remoteLatest = max s.remoteLatest plan.targetState := by
    rw [hlatest]
    rcases hr.latest with ⟨h, h'⟩ | ⟨h, rfl⟩
    · omega
    · omega
  have hnew : plan.targetState ∉ u.receivedStates := fun h => hp.target_new ((hmem _).mp h).1
  have hlen : r.receivedStates.length ≤ maxReceivedReferenceStates := by
    rw [hr.received]
    exact Nat.le_trans (List.length_filter_le _ _) hs.length_le
  refine ⟨⟨?_, ?_, ?_, ?_⟩, rfl, by simpa only [hfloor] using hr.floor_le, by simpa only [hfloor] using hr.floor_mono,
    by simpa only [hfloor] using hr.floor_max, hlatest', fun n => ?_, fun he => ?_, ?_, ?_, ?_⟩
  · exact hsender.latest.trans hr.sender.latest
  · exact hsender.known.trans hr.sender.known
  · exact hsender.sent.trans hr.sender.sent
  · exact hsender.generation.trans hr.sender.generation
  · rw [Increasing.mem_insert, hmem]
  · exact Nat.lt_irrefl _ (hlt _ he).1
  · constructor
    · exact Increasing.increasing_insert (hinc.sublist hu.sublist) hnew
    · rw [Increasing.length_insert]
      exact hu.length_lt hlen
    · intro n hn
      rcases Increasing.mem_insert.mp hn with rfl | hn
      · simpa only [hfloor] using hr.floor_le
      · exact ((hmem n).mp hn).2.1
    · -- The latest state is the target, or it was retained: it is above the evicted one.
      refine Increasing.mem_insert.mpr ?_
      rcases hr.latest with ⟨-, h⟩ | ⟨h, rfl⟩
      · exact Or.inl (hlatest.trans h)
      · refine Or.inr ((hmem _).mpr ⟨hlatest ▸ hs.latest_mem, ?_, fun he => ?_⟩)
        · rw [hlatest, hfloor]
          exact hs.floor_le _ hs.latest_mem
        · exact Nat.lt_irrefl _ (Nat.lt_of_lt_of_eq (hlt u.remoteLatest he).2 hlatest'.symm)
    · intro n hn
      simp only [hlatest']
      rcases Increasing.mem_insert.mp hn with rfl | hn
      · exact Nat.le_max_right _ _
      · exact Nat.le_trans (hs.le_latest n ((hmem n).mp hn).1) (Nat.le_max_left _ _)
  · rintro n rfl
    have habove := hu.above_evicted hinc
    simp only [Increasing.above_insert, if_pos (hlt n rfl).1]
    omega
  · intro n hn
    have hfilter : Increasing.above n r.receivedStates = Increasing.above n s.receivedStates := by
      rw [hr.received]
      exact Increasing.above_filter fun b _ hb => decide_eq_true (by simp only at hn; omega)
    rw [← hfilter]
    exact hu.above_le (fun m hm => (hlt m hm).1) n

theorem wp_commitReceive {plan : ApplyPlan} (hs : ReceiverSound s) (hp : Applicable s plan) :
    wp (commitReceive plan) (Constructed s plan) (fun e t => t = s ∧ e = .generationExhausted) s := by
  unfold wp commitReceive
  rw [if_neg (by simp [hp.generation, hp.base_mem, hp.target_new])]
  cases hg : checkedAdd s.receiverGeneration 1 with
  | none => exact ⟨rfl, rfl⟩
  | some g =>
    obtain ⟨hfloor, hlatest, hsender⟩ := evictReceived_fields (s.raiseFloor plan)
    exact constructed_insert hs hp (raised_raiseFloor hs hp) (evicted_evictReceived _) hfloor hlatest hsender g

theorem commitReceive_mem {plan : ApplyPlan} {commit : ReceiveCommit} (h : commitReceive plan s = .ok commit t) :
    SameSender s t ∧ ∀ n ∈ t.receivedStates, n = plan.targetState ∨ n ∈ s.receivedStates := by
  unfold commitReceive at h
  split at h
  · cases h
  · split at h
    · cases h
    · cases h
      have hraise : SameSender s (s.raiseFloor plan) ∧
          (s.raiseFloor plan).receivedStates.Sublist s.receivedStates := by
        unfold raiseFloor
        split
        · exact ⟨⟨rfl, rfl, rfl, rfl⟩, List.filter_sublist⟩
        · exact ⟨⟨rfl, rfl, rfl, rfl⟩, List.Sublist.refl _⟩
      obtain ⟨hsame, hsub⟩ := hraise
      obtain ⟨-, -, hevict⟩ := evictReceived_fields (s.raiseFloor plan)
      refine ⟨⟨hevict.latest.trans hsame.latest, hevict.known.trans hsame.known, hevict.sent.trans hsame.sent,
        hevict.generation.trans hsame.generation⟩, fun n hn => ?_⟩
      rcases Increasing.mem_insert.mp hn with rfl | hn
      · exact Or.inl rfl
      · exact Or.inr (hsub.subset ((evicted_evictReceived _).sublist.subset hn))

theorem commitReceive_error {plan : ApplyPlan} {e : SynchronizationError} (h : commitReceive plan s = .error e t) : t = s := by
  unfold commitReceive at h
  split at h
  · cases h
    rfl
  · split at h
    · cases h
      rfl
    · cases h

theorem planSend_noNewState {nowMs timeoutMs : Nat} (h : s.planSend nowMs timeoutMs = .error .noNewState)
    (hsent : s.sentStates = []) : s.localLatest ≤ s.knownReceiverState := by
  unfold planSend at h
  rw [hsent] at h
  split at h
  · cases h
  · simp only [List.reverse_nil, selectBase] at h
    split at h
    · assumption
    · cases h

/-! ### The generation of the sender

Every operation that changes the sender's numbers takes the next generation, which has to fit in 64 bits. -/

theorem wp_advanceLocal_generation (s : SynchronizationState) :
    wp advanceLocal (fun _ _ => s.senderGeneration + 1 < 2 ^ 64) (fun _ _ => True) s := by
  refine wp_intro (fun n t hok => ?_) fun _ _ _ => trivial
  unfold advanceLocal at hok
  split at hok
  · cases hok
  · split at hok
    · cases hok
    · exact (checkedAdd_eq_some.mp ‹_›).2

theorem wp_commitSend_generation (s : SynchronizationState) (plan : SendPlan) :
    wp (commitSend plan) (fun _ _ => s.senderGeneration + 1 < 2 ^ 64) (fun _ _ => True) s := by
  refine wp_intro (fun n t hok => ?_) fun _ _ _ => trivial
  unfold commitSend at hok
  split at hok
  · cases hok
  · split at hok
    · cases hok
    · exact (checkedAdd_eq_some.mp ‹_›).2

theorem observeAcknowledgement_generation {n : Nat} {d : AcknowledgementDisposition}
    (hok : observeAcknowledgement n s = .ok d t) (hs : s.senderGeneration < 2 ^ 64) : t.senderGeneration < 2 ^ 64 := by
  unfold observeAcknowledgement at hok
  split at hok
  · cases hok
    exact hs
  · split at hok
    · cases hok
      exact hs
    · split at hok
      · cases hok
        exact hs
      · split at hok
        · cases hok
        · rename_i hnext
          cases hok
          obtain ⟨rfl, hlt⟩ := checkedAdd_eq_some.mp hnext
          exact hlt

theorem beginReceive_generation {instruction : TransportInstruction} {transition : ReceiveTransition}
    (hok : beginReceive instruction s = .ok transition t) (hs : s.senderGeneration < 2 ^ 64) :
    t.senderGeneration < 2 ^ 64 := by
  unfold beginReceive at hok
  split at hok
  · cases hok
  · split at hok
    · cases hok
    · cases hok
      exact observeAcknowledgement_generation ‹_› hs

theorem beginShutdownReceive_generation {instruction : TransportInstruction} {transition : ShutdownTransition}
    (hok : beginShutdownReceive instruction s = .ok transition t) (hs : s.senderGeneration < 2 ^ 64) :
    t.senderGeneration < 2 ^ 64 := by
  unfold beginShutdownReceive at hok
  split at hok
  · cases hok
  · split at hok
    · cases hok
    · cases hok
      exact observeAcknowledgement_generation ‹_› hs

/-! ### The latest sent state -/

theorem suffix_filter_above {l : List SentState} (hinc : (l.map SentState.number).Pairwise (· < ·)) (n : Nat) :
    (l.filter fun sent => decide (sent.number > n)) <:+ l := by
  induction l with
  | nil => exact List.suffix_rfl
  | cons x l ih =>
    rw [List.map_cons, List.pairwise_cons] at hinc
    by_cases hx : x.number > n
    · refine ⟨[], List.filter_eq_self.mpr fun sent hsent => ?_⟩
      rcases List.mem_cons.mp hsent with rfl | hlater
      · exact decide_eq_true hx
      · have := hinc.1 _ (List.mem_map_of_mem hlater)
        exact decide_eq_true (by omega)
    · rw [List.filter_cons_of_neg (by simpa using hx)]
      exact (ih hinc.2).trans (List.suffix_cons x l)

/-- An acknowledgement leaves the latest sent state, unless it acknowledges it. -/
theorem Acknowledged.latestUnacknowledged {n sentAtMs : Nat} {d : AcknowledgementDisposition} (h : Acknowledged n s d t)
    (hs : SenderSound s) (ht : t.latestUnacknowledgedSentAtMs = some sentAtMs) :
    s.latestUnacknowledgedSentAtMs = some sentAtMs := by
  cases h with
  | kept => exact ht
  | moved =>
    obtain ⟨older, holder⟩ := suffix_filter_above hs.increasing n
    obtain ⟨sent, hsent, rfl⟩ := Option.map_eq_some_iff.mp ht
    unfold latestUnacknowledgedSentAtMs
    rw [← holder, List.getLast?_append, show (s.sentStates.filter _).getLast? = some sent from hsent]
    rfl

/-- The target of a committed plan becomes the latest sent state. -/
theorem latestUnacknowledged_commitSend {nowMs : Nat} {plan : SendPlan} {commit : SendCommit} (hs : SenderSound s)
    (hplan : Planned s nowMs plan) (h : commitSend plan s = .ok commit t) :
    t.latestUnacknowledgedSentAtMs = some nowMs := by
  obtain ⟨-, rfl⟩ := commitSend_ok h
  have hlt : s.knownReceiverState < s.localLatest := by
    have hbase := hplan.throwaway_le hs
    rw [hplan.throwaway] at hbase
    exact Nat.lt_of_le_of_lt hbase hplan.base_lt
  have hle : ∀ sent ∈ s.sentStates, sent.number ≤ s.localLatest := fun sent hsent =>
    hs.le_latest _ (List.mem_map_of_mem hsent)
  obtain ⟨older, -, hlast⟩ := recordSent_last hs.increasing hle
  unfold latestUnacknowledgedSentAtMs
  rw [if_pos hlt, hlast, List.getLast?_concat, hplan.plannedAt]
  rfl

end MoshClient.SynchronizationState
