import Mathlib.Data.List.Induction
import MoshClient.Theorems.Timing
import MoshClient.Theorems.Synchronization

/-! The round-trip estimate over any sequence of samples. The smoothed time stays between the smallest and
    the largest accepted sample although each step truncates, the variation stays below the largest possible
    deviation, and so no checked operation of the estimate fails. -/

namespace MoshClient
open Machine Limits Effect

theorem checkedMul_of_lt {a b : Nat} (h : a * b < 2 ^ 64) : checkedMul a b = some (a * b) := if_pos h

theorem clamp_mem {low high : Nat} (n : Nat) (h : low ≤ high) : low ≤ clamp n low high ∧ clamp n low high ≤ high :=
  ⟨Nat.le_max_left _ _, Nat.max_le.mpr ⟨h, Nat.min_le_right _ _⟩⟩

namespace RttEstimator

/-! ### One sample -/

/-- The timeout of an estimate, in exact arithmetic. -/
def timeoutOf (smoothed variation : Nat) : Nat :=
  clamp (divCeil (smoothed + max (4 * variation) 8) 8) minRetransmissionTimeoutMs maxRetransmissionTimeoutMs

/-- The estimate after the accepted samples. -/
structure Tracks (accepted : List Nat) (e : RttEstimator) : Prop where
  accepted_le : ∀ sample ∈ accepted, sample ≤ maxRttSampleMs
  fresh : accepted = [] → e = new
  smoothed : accepted ≠ [] → ∃ smoothed, e.smoothedRttEighths = some smoothed
  between : ∀ smoothed low high, e.smoothedRttEighths = some smoothed →
    (∀ sample ∈ accepted, low ≤ sample ∧ sample ≤ high) → 8 * low ≤ smoothed ∧ smoothed ≤ 8 * high
  variation : e.rttVariationEighths ≤ 8 * maxRttSampleMs
  timeout : ∀ smoothed, e.smoothedRttEighths = some smoothed →
    e.retransmissionTimeoutMs = timeoutOf smoothed e.rttVariationEighths

theorem tracks_new : Tracks [] new where
  accepted_le _ h := by cases h
  fresh _ := rfl
  smoothed h := absurd rfl h
  between _ _ _ h := by cases h
  variation := Nat.zero_le _
  timeout _ h := by cases h

variable {accepted : List Nat} {e : RttEstimator} {sampleMs : Nat}

theorem Tracks.smoothed_le (h : Tracks accepted e) {smoothed : Nat} (hs : e.smoothedRttEighths = some smoothed) :
    smoothed ≤ 8 * maxRttSampleMs :=
  (h.between smoothed 0 maxRttSampleMs hs fun sample hsample => ⟨Nat.zero_le _, h.accepted_le sample hsample⟩).2

theorem calculateRtoMs_eq {smoothed variation : Nat} (hs : smoothed ≤ 8 * maxRttSampleMs)
    (hv : variation ≤ 8 * maxRttSampleMs) : calculateRtoMs smoothed variation = some (timeoutOf smoothed variation) := by
  simp only [maxRttSampleMs] at hs hv
  have hmul : checkedMul variation 4 = some (4 * variation) := by
    rw [checkedMul_of_lt (by omega), Nat.mul_comm]
  have hadd : checkedAdd smoothed (max (4 * variation) 8) = some (smoothed + max (4 * variation) 8) :=
    checkedAdd_eq_some.mpr ⟨rfl, by omega⟩
  simp only [calculateRtoMs, hmul, Option.bind_eq_bind, Option.bind_some, clockGranularityMs, Nat.one_mul, hadd, timeoutOf]

/-- The smoothed time and the variation after a sample, in exact arithmetic. -/
def smoothWith (e : RttEstimator) (sampleMs : Nat) : Nat × Nat :=
  match e.smoothedRttEighths with
  | none => (sampleMs * 8, sampleMs * 4)
  | some smoothed =>
    ((smoothed * 7 + sampleMs * 8) / 8,
      (e.rttVariationEighths * 3 + (max smoothed (sampleMs * 8) - min smoothed (sampleMs * 8))) / 4)

theorem Tracks.wp_smooth (h : Tracks accepted e) (hsample : sampleMs ≤ maxRttSampleMs) :
    wp (smooth sampleMs (sampleMs * 8))
      (fun smoothed t => smoothed = (e.smoothWith sampleMs).1 ∧
        t = ⟨some (e.smoothWith sampleMs).1, (e.smoothWith sampleMs).2, e.retransmissionTimeoutMs⟩)
      (fun _ _ => False) e := by
  have hv := h.variation
  have hle := fun smoothed (hs : e.smoothedRttEighths = some smoothed) => h.smoothed_le hs
  simp only [maxRttSampleMs] at hsample hv hle
  unfold smooth smoothWith
  rw [wp_bind, wp_get]
  cases hs : e.smoothedRttEighths with
  | none =>
    simp only [wp_bind, wp_ofOption, wp_modify, wp_pure, checkedMul_of_lt (show sampleMs * 4 < 2 ^ 64 by omega)]
    refine ⟨?_, by simp⟩
    rintro _ ⟨⟩
    exact ⟨trivial, rfl⟩
  | some smoothed =>
    have hsmoothed := hle smoothed hs
    have hvariation : (checkedMul e.rttVariationEighths 3).bind (fun weighted => checkedAdd weighted
        (max smoothed (sampleMs * 8) - min smoothed (sampleMs * 8))) =
        some (e.rttVariationEighths * 3 + (max smoothed (sampleMs * 8) - min smoothed (sampleMs * 8))) := by
      rw [checkedMul_of_lt (by omega)]
      exact checkedAdd_eq_some.mpr ⟨rfl, by omega⟩
    have htotal : (checkedMul smoothed 7).bind (fun weighted => checkedAdd weighted (sampleMs * 8)) =
        some (smoothed * 7 + sampleMs * 8) := by
      rw [checkedMul_of_lt (by omega)]
      exact checkedAdd_eq_some.mpr ⟨rfl, by omega⟩
    simp only [wp_bind, wp_ofOption, wp_modify, wp_pure, hvariation, htotal]
    refine ⟨?_, by simp⟩
    rintro _ ⟨⟩
    refine ⟨?_, by simp⟩
    rintro _ ⟨⟩
    exact ⟨rfl, rfl⟩

/-- Neither the smoothed time nor its truncation leaves the range of the samples. -/
theorem Tracks.smoothWith_between (h : Tracks accepted e) (low high : Nat)
    (hold : ∀ sample ∈ accepted, low ≤ sample ∧ sample ≤ high) (hnew : low ≤ sampleMs ∧ sampleMs ≤ high) :
    8 * low ≤ (e.smoothWith sampleMs).1 ∧ (e.smoothWith sampleMs).1 ≤ 8 * high := by
  unfold smoothWith
  cases hs : e.smoothedRttEighths with
  | none =>
    simp only
    omega
  | some smoothed =>
    have := h.between smoothed low high hs hold
    simp only
    omega

theorem Tracks.smoothWith_le (h : Tracks accepted e) (hsample : sampleMs ≤ maxRttSampleMs) :
    (e.smoothWith sampleMs).1 ≤ 8 * maxRttSampleMs ∧ (e.smoothWith sampleMs).2 ≤ 8 * maxRttSampleMs := by
  refine ⟨(h.smoothWith_between 0 maxRttSampleMs (fun sample hmem => ⟨Nat.zero_le _, h.accepted_le sample hmem⟩)
    ⟨Nat.zero_le _, hsample⟩).2, ?_⟩
  have hv := h.variation
  unfold smoothWith
  cases hs : e.smoothedRttEighths with
  | none =>
    simp only
    omega
  | some smoothed =>
    have := h.smoothed_le hs
    simp only
    omega

/-- What a plausible sample makes of the estimate: no checked operation fails. -/
theorem Tracks.wp_observeSample (h : Tracks accepted e) (hsample : sampleMs ≤ maxRttSampleMs) :
    wp (observeSample sampleMs)
      (fun _ t => t = ⟨some (e.smoothWith sampleMs).1, (e.smoothWith sampleMs).2,
        timeoutOf (e.smoothWith sampleMs).1 (e.smoothWith sampleMs).2⟩)
      (fun _ _ => False) e := by
  have heighths : checkedMul sampleMs 8 = some (sampleMs * 8) :=
    checkedMul_of_lt (by simp only [maxRttSampleMs] at hsample; omega)
  obtain ⟨hsmoothed, hvariation⟩ := h.smoothWith_le hsample
  unfold observeSample
  rw [if_neg (Nat.not_lt.mpr hsample)]
  simp only [wp_bind, wp_ofOption, heighths]
  refine ⟨?_, by simp⟩
  rintro _ ⟨⟩
  refine (h.wp_smooth hsample).mono ?_ fun _ _ h => h
  rintro _ t ⟨rfl, rfl⟩
  simp only [wp_get, wp_modify, calculateRtoMs_eq hsmoothed hvariation]
  refine ⟨?_, by simp⟩
  rintro _ ⟨⟩
  rfl

/-- A plausible sample is tracked. -/
theorem Tracks.observeSample (h : Tracks accepted e) (hsample : sampleMs ≤ maxRttSampleMs) :
    Tracks (accepted ++ [sampleMs]) (exec (RttEstimator.observeSample sampleMs) e) := by
  obtain ⟨_, _, ht, rfl⟩ := (h.wp_observeSample hsample).returns
  rw [exec, ht]
  exact {
    accepted_le := fun sample hmem => by
      rcases List.mem_append.mp hmem with hold | hnew
      · exact h.accepted_le sample hold
      · rwa [List.mem_singleton.mp hnew]
    fresh := fun hnil => by simp at hnil
    smoothed := fun _ => ⟨_, rfl⟩
    between := fun smoothed low high hs hall => by
      cases hs
      exact h.smoothWith_between low high (fun sample hmem => hall sample (List.mem_append_left _ hmem))
        (hall sampleMs (by simp))
    variation := (h.smoothWith_le hsample).2
    timeout := fun smoothed hs => by
      cases hs
      rfl }

/-! ### Any samples -/

/-- The estimate after any samples, the rejected ones among them. -/
def after (samples : List Nat) : RttEstimator := samples.foldl (fun e sampleMs => exec (RttEstimator.observeSample sampleMs) e) new

/-- The samples that are accepted. -/
def plausibleSamples (samples : List Nat) : List Nat := samples.filter fun sampleMs => decide (sampleMs ≤ maxRttSampleMs)

theorem observeSample_rejected (e : RttEstimator) (hsample : maxRttSampleMs < sampleMs) :
    RttEstimator.observeSample sampleMs e = .error .invalidRttSample e := by
  unfold RttEstimator.observeSample
  rw [if_pos hsample]
  rfl

theorem tracks_after (samples : List Nat) : Tracks (plausibleSamples samples) (after samples) := by
  induction samples using List.reverseRecOn with
  | nil => exact tracks_new
  | append_singleton rest sampleMs ih =>
    have hstep : after (rest ++ [sampleMs]) = exec (RttEstimator.observeSample sampleMs) (after rest) := by
      simp [after]
    by_cases hsample : sampleMs ≤ maxRttSampleMs
    · have haccepted : plausibleSamples (rest ++ [sampleMs]) = plausibleSamples rest ++ [sampleMs] := by
        simp [plausibleSamples, hsample]
      rw [hstep, haccepted]
      exact ih.observeSample hsample
    · have haccepted : plausibleSamples (rest ++ [sampleMs]) = plausibleSamples rest := by
        simp [plausibleSamples, hsample]
      rw [hstep, haccepted, exec, observeSample_rejected _ (Nat.lt_of_not_le hsample)]
      exact ih

theorem frameIntervalMs_mem (e : RttEstimator) :
    minFrameIntervalMs ≤ e.frameIntervalMs ∧ e.frameIntervalMs ≤ maxFrameIntervalMs := clamp_mem _ (by decide)

theorem Tracks.timeout_mem {accepted : List Nat} {e : RttEstimator} (h : Tracks accepted e) :
    minRetransmissionTimeoutMs ≤ e.retransmissionTimeoutMs ∧ e.retransmissionTimeoutMs ≤ maxRetransmissionTimeoutMs := by
  by_cases hnil : accepted = []
  · rw [h.fresh hnil]
    decide
  · obtain ⟨smoothed, hs⟩ := h.smoothed hnil
    rw [h.timeout smoothed hs]
    exact clamp_mem _ (by decide)

/-- A timeout in the range is not refused. -/
theorem planSend_ne_invalid (s : SynchronizationState) (nowMs : Nat) {timeoutMs : Nat}
    (h : minRetransmissionTimeoutMs ≤ timeoutMs ∧ timeoutMs ≤ maxRetransmissionTimeoutMs) :
    s.planSend nowMs timeoutMs ≠ .error .invalidRetransmissionTimeout := by
  unfold SynchronizationState.planSend
  rw [if_neg (not_not.mpr h)]
  cases hbase : SynchronizationState.selectBase nowMs timeoutMs s.knownReceiverState s.sentStates.reverse with
  | error e =>
    rw [SynchronizationState.selectBase_error hbase]
    rintro ⟨⟩
  | ok baseState =>
    simp only
    split <;> rintro ⟨⟩

/-- After any samples: a sample above a minute is refused and changes nothing, every other one is taken;
    the smoothed time lies between the smallest and the largest accepted sample, in eighths, and the
    variation below a minute, the timeout is the one of the estimate and in its range, and so is the frame
    interval. A send planned with the timeout is never refused for it. -/
theorem estimate_bounded (samples : List Nat) (sampleMs : Nat) :
    (maxRttSampleMs < sampleMs → observeSample sampleMs (after samples) = .error .invalidRttSample (after samples)) ∧
      (sampleMs ≤ maxRttSampleMs → ∃ t, observeSample sampleMs (after samples) = .ok () t) ∧
      (∀ h : plausibleSamples samples ≠ [], ∃ smoothed, (after samples).smoothedRttEighths = some smoothed ∧
        8 * (plausibleSamples samples).min h ≤ smoothed ∧ smoothed ≤ 8 * (plausibleSamples samples).max h ∧
        (after samples).retransmissionTimeoutMs =
          clamp (divCeil (smoothed + max (4 * (after samples).rttVariationEighths) 8) 8) 50 5000) ∧
      (plausibleSamples samples = [] → after samples = new) ∧
      (after samples).rttVariationEighths ≤ 480000 ∧
      (50 ≤ (after samples).retransmissionTimeoutMs ∧ (after samples).retransmissionTimeoutMs ≤ 5000) ∧
      (20 ≤ (after samples).frameIntervalMs ∧ (after samples).frameIntervalMs ≤ 250) ∧
      ∀ (s : SynchronizationState) (nowMs : Nat),
        s.planSend nowMs (after samples).retransmissionTimeoutMs ≠ .error .invalidRetransmissionTimeout := by
  have htracks := tracks_after samples
  refine ⟨observeSample_rejected _, fun hsample => ?_, fun hne => ?_, htracks.fresh, htracks.variation,
    htracks.timeout_mem, (after samples).frameIntervalMs_mem,
    fun s nowMs => planSend_ne_invalid s nowMs htracks.timeout_mem⟩
  · obtain ⟨_, t, ht, -⟩ := (htracks.wp_observeSample hsample).returns
    exact ⟨t, ht⟩
  · obtain ⟨smoothed, hs⟩ := htracks.smoothed hne
    obtain ⟨hlow, hhigh⟩ := htracks.between smoothed ((plausibleSamples samples).min hne)
      ((plausibleSamples samples).max hne) hs fun sample hmem => ⟨List.min_le_of_mem hmem, List.le_max_of_mem hmem⟩
    exact ⟨smoothed, hs, hlow, hhigh, htracks.timeout smoothed hs⟩

end RttEstimator
end MoshClient
