import MoshClient.Theorems.Timing
import Mathlib.Tactic.Tauto

/-! The send scheduler is exact. The deadlines that are pending are listed once, each with its reason; a
    poll answers with a send when the earliest of them has come and the send is not deferred, gives exactly
    the reasons that have come, and otherwise asks to be woken after now and not after the time of the send. -/

namespace MoshClient
open Machine Limits Effect

/-! ### Sets of reasons -/

namespace SendReasons

/-- The reasons of a list, together. -/
def union : List SendReasons → SendReasons
  | [] => none
  | reason :: rest => ⟨reason.bits ||| (union rest).bits⟩

theorem union_append (l₁ l₂ : List SendReasons) : union (l₁ ++ l₂) = ⟨(union l₁).bits ||| (union l₂).bits⟩ := by
  induction l₁ with
  | nil => exact congrArg mk (BitVec.zero_or).symm
  | cons reason rest ih => rw [List.cons_append, union, ih, union, BitVec.or_assoc]

/-- The reasons that the scheduler knows. -/
def all : List SendReasons := [stateChange, retransmission, acknowledgement, heartbeat]

theorem contains_or (a b : BitVec 8) (reason : SendReasons) :
    (mk (a ||| b)).contains reason = ((mk a).contains reason || (mk b).contains reason) := by
  rw [Bool.eq_iff_iff, Bool.or_eq_true]
  simp only [contains, bne_iff_ne, BitVec.and_or_distrib_right, ne_eq, ← not_and_or]
  exact not_congr BitVec.or_eq_zero_iff

/-- A reason is in the union of some reasons exactly when it is one of them. -/
theorem contains_union {l : List SendReasons} {reason : SendReasons} (hl : ∀ r ∈ l, r ∈ all) (hreason : reason ∈ all) :
    (union l).contains reason = true ↔ reason ∈ l := by
  have hone : ∀ r ∈ all, ∀ r' ∈ all, r'.contains r = true ↔ r = r' := by decide
  induction l with
  | nil => simp [union, none, contains]
  | cons r rest ih =>
    have hrest := ih fun r' hr' => hl r' (List.mem_cons_of_mem r hr')
    rw [union, contains_or, Bool.or_eq_true, List.mem_cons]
    exact or_congr (hone reason hreason r (hl r List.mem_cons_self)) hrest

end SendReasons

namespace SendScheduler

/-! ### Pending deadlines -/

/-- A deadline that may not be set, with its reason. -/
def pending (reason : SendReasons) (deadline : Option Nat) : List (SendReasons × Nat) :=
  deadline.toList.map (Prod.mk reason)

theorem mem_pending {reason : SendReasons} {deadline : Option Nat} {d : SendReasons × Nat} :
    d ∈ pending reason deadline ↔ d.1 = reason ∧ deadline = some d.2 := by
  obtain ⟨r, due⟩ := d
  cases deadline with
  | none => simp [pending]
  | some due' => simp [pending, eq_comm]

/-- A local change is collected for a while, and waits for the frame after the last send. -/
def stateDueMs (s : SendScheduler) (timing : RttEstimator) : Option Nat :=
  s.localChangeAtMs.map fun changedAt =>
    max (changedAt + stateChangeCollectionMs) ((s.lastSendMs.map (· + timing.frameIntervalMs)).getD 0)

def acknowledgementDueMs (s : SendScheduler) : Option Nat := s.acknowledgementAtMs.map (· + maxAcknowledgementDelayMs)

def retransmissionDueMs (timing : RttEstimator) (unacknowledgedMs : Option Nat) : Option Nat :=
  unacknowledgedMs.map (· + timing.retransmissionTimeoutMs)

def heartbeatDueMs (s : SendScheduler) : Nat := s.lastSendMs.getD s.startedAtMs + heartbeatIntervalMs

/-- The deadlines that are pending, each with its reason. -/
def deadlines (s : SendScheduler) (timing : RttEstimator) (unacknowledgedMs : Option Nat) : List (SendReasons × Nat) :=
  pending .stateChange (s.stateDueMs timing) ++ pending .retransmission (retransmissionDueMs timing unacknowledgedMs) ++
    pending .acknowledgement s.acknowledgementDueMs ++ pending .heartbeat (some s.heartbeatDueMs)

theorem deadlines_ne_nil (s : SendScheduler) (timing : RttEstimator) (unacknowledgedMs : Option Nat) :
    (s.deadlines timing unacknowledgedMs).map Prod.snd ≠ [] := by
  simp [deadlines, pending]

/-- The earliest pending deadline. -/
def dueAtMs (s : SendScheduler) (timing : RttEstimator) (unacknowledgedMs : Option Nat) : Nat :=
  ((s.deadlines timing unacknowledgedMs).map Prod.snd).min (s.deadlines_ne_nil timing unacknowledgedMs)

/-- The time of the next send: the earliest deadline, or the end of the deferral. -/
def sendAtMs (s : SendScheduler) (timing : RttEstimator) (unacknowledgedMs : Option Nat) : Nat :=
  max (s.dueAtMs timing unacknowledgedMs) (s.sendNotBeforeMs.getD 0)

/-- The reasons whose deadline has come. -/
def dueReasons (nowMs : Nat) (deadlines : List (SendReasons × Nat)) : List SendReasons :=
  (deadlines.filter fun d => decide (d.2 ≤ nowMs)).map Prod.fst

variable {s : SendScheduler} {timing : RttEstimator} {unacknowledgedMs : Option Nat} {nowMs : Nat}

theorem mem_deadlines {d : SendReasons × Nat} : d ∈ s.deadlines timing unacknowledgedMs ↔
    (d.1 = .stateChange ∧ s.stateDueMs timing = some d.2) ∨
    (d.1 = .retransmission ∧ retransmissionDueMs timing unacknowledgedMs = some d.2) ∨
    (d.1 = .acknowledgement ∧ s.acknowledgementDueMs = some d.2) ∨
    (d.1 = .heartbeat ∧ s.heartbeatDueMs = d.2) := by
  simp only [deadlines, List.mem_append, mem_pending, or_assoc, Option.some.injEq]

theorem mem_times {due : Nat} : due ∈ (s.deadlines timing unacknowledgedMs).map Prod.snd ↔
    s.stateDueMs timing = some due ∨ retransmissionDueMs timing unacknowledgedMs = some due ∨
      s.acknowledgementDueMs = some due ∨ s.heartbeatDueMs = due := by
  rw [List.mem_map]
  constructor
  · rintro ⟨d, hd, rfl⟩
    exact (mem_deadlines.mp hd).imp And.right (Or.imp And.right (Or.imp And.right And.right))
  · rintro (hdue | hdue | hdue | hdue)
    · exact ⟨(.stateChange, due), mem_deadlines.mpr (Or.inl ⟨rfl, hdue⟩), rfl⟩
    · exact ⟨(.retransmission, due), mem_deadlines.mpr (Or.inr (Or.inl ⟨rfl, hdue⟩)), rfl⟩
    · exact ⟨(.acknowledgement, due), mem_deadlines.mpr (Or.inr (Or.inr (Or.inl ⟨rfl, hdue⟩))), rfl⟩
    · exact ⟨(.heartbeat, due), mem_deadlines.mpr (Or.inr (Or.inr (Or.inr ⟨rfl, hdue⟩))), rfl⟩

/-- The earliest deadline has come exactly when some deadline has. -/
theorem dueAtMs_le_iff : s.dueAtMs timing unacknowledgedMs ≤ nowMs ↔
    ∃ due ∈ (s.deadlines timing unacknowledgedMs).map Prod.snd, due ≤ nowMs :=
  ⟨fun hle => ⟨_, List.min_mem (s.deadlines_ne_nil timing unacknowledgedMs), hle⟩,
    fun ⟨_, hmem, hle⟩ => (List.min_le_of_mem hmem).trans hle⟩

/-! ### The reasons of a poll -/

theorem dueReasons_append (nowMs : Nat) (l₁ l₂ : List (SendReasons × Nat)) :
    dueReasons nowMs (l₁ ++ l₂) = dueReasons nowMs l₁ ++ dueReasons nowMs l₂ := by
  simp only [dueReasons, List.filter_append, List.map_append]

theorem union_pending (nowMs : Nat) (reason : SendReasons) (deadline : Option Nat) :
    SendReasons.union (dueReasons nowMs (pending reason deadline)) =
      SendReasons.insertIf (dueBy nowMs deadline) reason .none := by
  cases deadline with
  | none => rfl
  | some due =>
    by_cases h : due ≤ nowMs
    · simp [pending, dueReasons, dueBy, SendReasons.insertIf, SendReasons.union, SendReasons.none, h]
    · simp [pending, dueReasons, dueBy, SendReasons.insertIf, SendReasons.union, h]

/-- The reasons that a poll collects are those whose deadline has come. -/
theorem reasons_eq_union (s : SendScheduler) (timing : RttEstimator) (unacknowledgedMs : Option Nat) (nowMs : Nat) :
    (SendReasons.none
      |> SendReasons.insertIf (dueBy nowMs (s.stateDueMs timing)) .stateChange
      |> SendReasons.insertIf (dueBy nowMs (retransmissionDueMs timing unacknowledgedMs)) .retransmission
      |> SendReasons.insertIf (dueBy nowMs s.acknowledgementDueMs) .acknowledgement
      |> SendReasons.insertIf (decide (s.heartbeatDueMs ≤ nowMs)) .heartbeat) =
    SendReasons.union (dueReasons nowMs (s.deadlines timing unacknowledgedMs)) := by
  have hbits : ∀ b₁ b₂ b₃ b₄ : Bool, (SendReasons.none |> SendReasons.insertIf b₁ .stateChange
      |> SendReasons.insertIf b₂ .retransmission |> SendReasons.insertIf b₃ .acknowledgement
      |> SendReasons.insertIf b₄ .heartbeat) =
      ⟨((SendReasons.insertIf b₁ .stateChange .none).bits ||| (SendReasons.insertIf b₂ .retransmission .none).bits |||
        (SendReasons.insertIf b₃ .acknowledgement .none).bits) ||| (SendReasons.insertIf b₄ .heartbeat .none).bits⟩ := by
    decide
  simp only [deadlines, dueReasons_append, SendReasons.union_append, union_pending]
  exact hbits _ _ _ _

theorem mem_dueReasons {reason : SendReasons} {l : List (SendReasons × Nat)} :
    reason ∈ dueReasons nowMs l ↔ ∃ dueMs ≤ nowMs, (reason, dueMs) ∈ l := by
  simp [dueReasons, and_comm]

/-- A reason is among those collected exactly when its own deadline has come. -/
theorem contains_dueReasons {reason : SendReasons} (hreason : reason ∈ SendReasons.all) :
    (SendReasons.union (dueReasons nowMs (s.deadlines timing unacknowledgedMs))).contains reason = true ↔
      ∃ dueMs ≤ nowMs, (reason, dueMs) ∈ s.deadlines timing unacknowledgedMs := by
  rw [← mem_dueReasons]
  refine SendReasons.contains_union (fun r hr => ?_) hreason
  obtain ⟨dueMs, -, hd⟩ := mem_dueReasons.mp hr
  rcases mem_deadlines.mp hd with ⟨rfl, -⟩ | ⟨rfl, -⟩ | ⟨rfl, -⟩ | ⟨rfl, -⟩ <;> simp [SendReasons.all]

/-- Nothing is collected exactly when the earliest deadline is still to come. -/
theorem union_eq_none_iff :
    SendReasons.union (dueReasons nowMs (s.deadlines timing unacknowledgedMs)) = .none ↔
      ¬s.dueAtMs timing unacknowledgedMs ≤ nowMs := by
  rw [dueAtMs_le_iff, ← reasons_eq_union, reasons_eq_none_iff]
  simp only [ne_eq, dueBy_iff, decide_eq_true_eq, ← not_or, mem_times]
  refine not_congr ⟨?_, ?_⟩
  · rintro (⟨due, hdue, hle⟩ | ⟨due, hdue, hle⟩ | ⟨due, hdue, hle⟩ | hle)
    · exact ⟨due, Or.inl hdue, hle⟩
    · exact ⟨due, Or.inr (Or.inl hdue), hle⟩
    · exact ⟨due, Or.inr (Or.inr (Or.inl hdue)), hle⟩
    · exact ⟨_, Or.inr (Or.inr (Or.inr rfl)), hle⟩
  · rintro ⟨due, hdue | hdue | hdue | rfl, hle⟩
    · exact Or.inl ⟨due, hdue, hle⟩
    · exact Or.inr (Or.inl ⟨due, hdue, hle⟩)
    · exact Or.inr (Or.inr (Or.inl ⟨due, hdue, hle⟩))
    · exact Or.inr (Or.inr (Or.inr hle))

/-! ### The deadlines fit -/

/-- No deadline is past the end of the clock. -/
def Fits (s : SendScheduler) (timing : RttEstimator) (unacknowledgedMs : Option Nat) : Prop :=
  ∀ due ∈ (s.deadlines timing unacknowledgedMs).map Prod.snd, due < 2 ^ 64

theorem checkedDeadline_of_lt {startMs delayMs : Nat} (h : startMs + delayMs < 2 ^ 64) :
    checkedDeadline startMs delayMs = .ok (startMs + delayMs) := by
  unfold checkedDeadline
  rw [checkedAdd_eq_some.mpr ⟨rfl, h⟩]

theorem deadlineAfter_of_lt {startMs : Option Nat} {delayMs : Nat}
    (h : ∀ due, startMs.map (· + delayMs) = some due → due < 2 ^ 64) :
    deadlineAfter startMs delayMs = .ok (startMs.map (· + delayMs)) := by
  cases startMs with
  | none => rfl
  | some startMs =>
    show (checkedDeadline startMs delayMs).map some = _
    rw [checkedDeadline_of_lt (h _ rfl)]
    rfl

theorem localChangeDue_of_lt (h : ∀ due, s.stateDueMs timing = some due → due < 2 ^ 64) :
    s.localChangeDue timing.frameIntervalMs = .ok (s.stateDueMs timing) := by
  unfold stateDueMs at h ⊢
  unfold localChangeDue
  cases hchange : s.localChangeAtMs with
  | none => rfl
  | some changedAt =>
    have hmax := Nat.max_lt.mp (h _ (congrArg (Option.map _) hchange))
    have hcollection := checkedDeadline_of_lt hmax.1
    have hframe : deadlineAfter s.lastSendMs timing.frameIntervalMs = .ok (s.lastSendMs.map (· + timing.frameIntervalMs)) :=
      deadlineAfter_of_lt fun due hdue => by simpa [hdue] using hmax.2
    simp only [hcollection, hframe, bind, Except.bind, pure, Except.pure, Option.map_some]
    cases s.lastSendMs with
    | none => simp
    | some lastMs => rfl

/-- The time that a poll computes to wake up at is the earliest deadline. -/
theorem foldl_min_eq_dueAtMs (s : SendScheduler) (timing : RttEstimator) (unacknowledgedMs : Option Nat) :
    ([s.stateDueMs timing, s.acknowledgementDueMs, retransmissionDueMs timing unacknowledgedMs].filterMap id).foldl min
      s.heartbeatDueMs = s.dueAtMs timing unacknowledgedMs := by
  have hmem : ∀ due, due ∈ s.heartbeatDueMs ::
        [s.stateDueMs timing, s.acknowledgementDueMs, retransmissionDueMs timing unacknowledgedMs].filterMap id ↔
      due ∈ (s.deadlines timing unacknowledgedMs).map Prod.snd := by
    intro due
    simp only [List.mem_cons, List.mem_filterMap, id_eq, exists_eq_right, List.not_mem_nil, or_false, mem_times,
      eq_comm (a := due), eq_comm (a := some due)]
    tauto
  exact Nat.le_antisymm (List.min_le_of_mem ((hmem _).mpr (List.min_mem _)))
    (List.min_le_of_mem ((hmem _).mp (List.min_mem (List.cons_ne_nil _ _))))

/-- What a poll answers when every deadline fits. -/
theorem pollAt_of_fits (hsent : ∀ sentAt, unacknowledgedMs = some sentAt → sentAt ≤ nowMs)
    (hfits : s.Fits timing unacknowledgedMs) :
    s.pollAt nowMs timing unacknowledgedMs = .ok (
      if s.dueAtMs timing unacknowledgedMs ≤ nowMs then
        if s.sendNotBeforeMs.getD 0 ≤ nowMs then
          .send ⟨s.generation, nowMs, SendReasons.union (dueReasons nowMs (s.deadlines timing unacknowledgedMs))⟩
        else .pending (s.sendNotBeforeMs.getD 0)
      else .pending (s.dueAtMs timing unacknowledgedMs)) := by
  have hbefore : ¬(unacknowledgedMs.any fun sentAt => decide (sentAt > nowMs)) = true := by
    cases unacknowledgedMs with
    | none => simp
    | some sentAt => simpa using hsent sentAt rfl
  have hstate := localChangeDue_of_lt fun due hdue => hfits due (mem_times.mpr (Or.inl hdue))
  have hretransmission := deadlineAfter_of_lt fun due hdue => hfits due (mem_times.mpr (Or.inr (Or.inl hdue)))
  have hack := deadlineAfter_of_lt fun due hdue => hfits due (mem_times.mpr (Or.inr (Or.inr (Or.inl hdue))))
  have hheartbeat := checkedDeadline_of_lt (hfits _ (mem_times.mpr (Or.inr (Or.inr (Or.inr rfl)))))
  have hreasons := reasons_eq_union s timing unacknowledgedMs nowMs
  have hwake := foldl_min_eq_dueAtMs s timing unacknowledgedMs
  unfold heartbeatDueMs acknowledgementDueMs retransmissionDueMs at hreasons hwake
  unfold pollAt
  rw [if_neg hbefore, hstate, hack, hretransmission, hheartbeat]
  simp only [bind, Except.bind, hreasons, hwake, ne_eq, union_eq_none_iff, not_not]
  by_cases hdue : s.dueAtMs timing unacknowledgedMs ≤ nowMs
  · rw [if_pos hdue, if_pos hdue]
    cases s.sendNotBeforeMs with
    | none => simp [pure, Except.pure]
    | some notBefore =>
      simp only [Option.getD_some, pure, Except.pure]
      split_ifs with hdefer hallowed hallowed
      · omega
      · rfl
      · rfl
      · omega
  · rw [if_neg hdue, if_neg hdue]
    rfl

theorem wp_poll_of_fits (hnow : s.lastObservedMs ≤ nowMs)
    (hsent : ∀ sentAt, unacknowledgedMs = some sentAt → sentAt ≤ nowMs) (hfits : s.Fits timing unacknowledgedMs) :
    wp (poll nowMs timing unacknowledgedMs)
      (fun answer t => t = { s with lastObservedMs := nowMs } ∧ answer =
        if s.dueAtMs timing unacknowledgedMs ≤ nowMs then
          if s.sendNotBeforeMs.getD 0 ≤ nowMs then
            .send ⟨s.generation, nowMs, SendReasons.union (dueReasons nowMs (s.deadlines timing unacknowledgedMs))⟩
          else .pending (s.sendNotBeforeMs.getD 0)
        else .pending (s.dueAtMs timing unacknowledgedMs))
      (fun _ _ => False) s := by
  have hanswer : ({ s with lastObservedMs := nowMs } : SendScheduler).pollAt nowMs timing unacknowledgedMs = _ :=
    pollAt_of_fits hsent hfits
  simp only [poll, wp_bind, wp_get, wp_ofExcept]
  unfold wp observeTime
  rw [if_neg (Nat.not_lt.mpr hnow)]
  refine ⟨fun answer h => ⟨rfl, ?_⟩, fun e h => ?_⟩
  · exact (Except.ok.inj (hanswer.symm.trans h)).symm
  · cases hanswer.symm.trans h

/-- A poll at a time that is not before the last one, with every deadline on the clock: it answers with a
    send exactly when the earliest deadline and the end of the deferral have both come, the reasons of the
    send are exactly those whose deadline has come, and otherwise the time to wake up at is after now and
    not after the time of the next send. -/
theorem poll_exact (s : SendScheduler) (nowMs : Nat) (timing : RttEstimator) (unacknowledgedMs : Option Nat)
    (hnow : s.lastObservedMs ≤ nowMs) (hsent : ∀ sentAt, unacknowledgedMs = some sentAt → sentAt ≤ nowMs)
    (hfits : s.Fits timing unacknowledgedMs) :
    ∃ answer, poll nowMs timing unacknowledgedMs s = .ok answer { s with lastObservedMs := nowMs } ∧
      ((∃ plan, answer = .send plan) ↔ s.sendAtMs timing unacknowledgedMs ≤ nowMs) ∧
      (∀ plan, answer = .send plan →
        plan.reasons = SendReasons.union (dueReasons nowMs (s.deadlines timing unacknowledgedMs)) ∧
        ∀ reason ∈ SendReasons.all, plan.reasons.contains reason = true ↔
          ∃ dueMs ≤ nowMs, (reason, dueMs) ∈ s.deadlines timing unacknowledgedMs) ∧
      (∀ wakeAtMs, answer = .pending wakeAtMs → nowMs < wakeAtMs ∧ wakeAtMs ≤ s.sendAtMs timing unacknowledgedMs) := by
  obtain ⟨answer, t, hpoll, rfl, hanswer⟩ := (wp_poll_of_fits hnow hsent hfits).returns
  refine ⟨answer, hpoll, ?_⟩
  have hsend : s.sendAtMs timing unacknowledgedMs ≤ nowMs ↔
      s.dueAtMs timing unacknowledgedMs ≤ nowMs ∧ s.sendNotBeforeMs.getD 0 ≤ nowMs := Nat.max_le
  have hlater : s.dueAtMs timing unacknowledgedMs ≤ s.sendAtMs timing unacknowledgedMs := Nat.le_max_left _ _
  have hdeferred : s.sendNotBeforeMs.getD 0 ≤ s.sendAtMs timing unacknowledgedMs := Nat.le_max_right _ _
  by_cases hdue : s.dueAtMs timing unacknowledgedMs ≤ nowMs
  · by_cases hallowed : s.sendNotBeforeMs.getD 0 ≤ nowMs
    · rw [if_pos hdue, if_pos hallowed] at hanswer
      refine ⟨⟨fun _ => hsend.mpr ⟨hdue, hallowed⟩, fun _ => ⟨_, hanswer⟩⟩, fun plan hplan => ?_, fun wakeAtMs hwake => ?_⟩
      · rw [hanswer] at hplan
        cases hplan
        exact ⟨rfl, fun reason hreason => contains_dueReasons hreason⟩
      · rw [hanswer] at hwake
        cases hwake
    · rw [if_pos hdue, if_neg hallowed] at hanswer
      subst hanswer
      refine ⟨⟨fun ⟨_, h⟩ => (by cases h), fun h => absurd (hsend.mp h).2 hallowed⟩, fun plan hplan => (by cases hplan), ?_⟩
      rintro _ ⟨⟩
      exact ⟨Nat.lt_of_not_le hallowed, hdeferred⟩
  · rw [if_neg hdue] at hanswer
    subst hanswer
    refine ⟨⟨fun ⟨_, h⟩ => (by cases h), fun h => absurd (hsend.mp h).1 hdue⟩, fun plan hplan => (by cases hplan), ?_⟩
    rintro _ ⟨⟩
    exact ⟨Nat.lt_of_not_le hdue, hlater⟩

/-- Ten seconds after the last send, with a change and an acknowledgement waiting, one send gives every
    reason. -/
theorem poll_exact_after_jump :
    let s : SendScheduler := ⟨0, 1000, some 1000, some 900, some 950, some 1200, 7⟩
    s.lastObservedMs ≤ 11000 ∧ s.Fits RttEstimator.new (some 1000) ∧
      ∃ answer, poll 11000 RttEstimator.new (some 1000) s = .ok answer { s with lastObservedMs := 11000 } ∧
        ∃ plan, answer = .send plan ∧ ∀ reason ∈ SendReasons.all, plan.reasons.contains reason = true := by
  intro s
  have hfits : s.Fits RttEstimator.new (some 1000) := by
    unfold Fits
    decide
  obtain ⟨answer, hpoll, hsend, hreasons, -⟩ := poll_exact s 11000 RttEstimator.new (some 1000) (by decide) (by simp) hfits
  obtain ⟨plan, rfl⟩ := hsend.mpr (by decide)
  refine ⟨by decide, hfits, _, hpoll, plan, rfl, fun reason hreason => ?_⟩
  rw [(hreasons plan rfl).1]
  revert reason
  decide

end SendScheduler
end MoshClient
