import MoshClient.Theorems.Estimator

/-! The echo of a timestamp. Two endpoints with clocks of their own exchange 16-bit timestamps, and the
    answer is moved on by the time that the peer held it: the sample is the time on the network, modulo the
    range of a timestamp, wherever the two clocks wrap. -/

namespace MoshClient
open Machine Limits Effect

/-! ### Runs of an endpoint -/

/-- A call of an endpoint's timing. -/
inductive TimingCall where
  | outgoing (nowMs : Nat)
  | received (sequence timestamp : Nat) (timestampReply : Option Nat) (nowMs : Nat)
  deriving DecidableEq, Repr

namespace DatagramTiming

def call (s : DatagramTiming) : TimingCall → DatagramTiming
  | .outgoing nowMs => exec (outgoing nowMs) s
  | .received sequence timestamp reply nowMs => exec (observeReceived sequence timestamp reply nowMs) s

def after (s : DatagramTiming) (calls : List TimingCall) : DatagramTiming := calls.foldl call s

/-- What every call keeps, a run keeps. -/
theorem after_of_call {I : DatagramTiming → Prop} {calls : List TimingCall} {s : DatagramTiming}
    (hcall : ∀ c ∈ calls, ∀ s, I s → I (s.call c)) (hs : I s) : I (s.after calls) :=
  List.foldlRecOn calls call hs fun s hs c hc => hcall c hc s hs

/-! ### One call -/

/-- The packet is the newest one that the endpoint has seen. -/
def Newest (sequence : Nat) (s : DatagramTiming) : Prop :=
  ∀ highest, s.highestReceivedSequence = some highest → highest < sequence

/-- The sample that a reply gives. -/
def sampleOf (nowMs reply : Nat) : Nat := (wireMilliseconds nowMs + timestampModulus - reply) % timestampModulus

/-- The timing after the newest packet. -/
def store (s : DatagramTiming) (sequence timestamp nowMs : Nat) : DatagramTiming :=
  { s with
    lastObservedMs := nowMs
    highestReceivedSequence := some sequence
    lastReceivedTimestamp := some (timestamp, nowMs) }

/-- What becomes of a packet. -/
inductive Observed (s : DatagramTiming) (sequence timestamp nowMs : Nat) :
    Option Nat → RttSampleDisposition → DatagramTiming → Prop where
  | reordered (reply : Option Nat) (h : ¬Newest sequence s) :
      Observed s sequence timestamp nowMs reply .reordered { s with lastObservedMs := nowMs }
  | noReply (h : Newest sequence s) :
      Observed s sequence timestamp nowMs none .noReply (s.store sequence timestamp nowMs)
  | implausibleSample (reply : Nat) (h : Newest sequence s) (hsample : maxRttSampleMs < sampleOf nowMs reply) :
      Observed s sequence timestamp nowMs (some reply) .implausibleSample (s.store sequence timestamp nowMs)
  | updated (reply : Nat) (estimator : RttEstimator) (h : Newest sequence s) (hsample : sampleOf nowMs reply ≤ maxRttSampleMs)
      (hestimator : RttEstimator.observeSample (sampleOf nowMs reply) s.estimator = .ok () estimator) :
      Observed s sequence timestamp nowMs (some reply) (.updated (sampleOf nowMs reply))
        { s.store sequence timestamp nowMs with estimator := estimator }

/-- The estimate comes from samples. -/
def Sampled (s : DatagramTiming) : Prop := ∃ accepted, s.estimator.Tracks accepted

variable {s : DatagramTiming}

theorem any_le_iff {sequence : Nat} :
    (s.highestReceivedSequence.any fun highest => decide (sequence ≤ highest)) = true ↔ ¬Newest sequence s := by
  unfold Newest
  cases s.highestReceivedSequence <;> simp

theorem wp_outgoing (nowMs : Nat) (s : DatagramTiming) :
    wp (outgoing nowMs)
      (fun out t => t = { s with lastObservedMs := nowMs } ∧
        out = ⟨wireMilliseconds nowMs, s.lastReceivedTimestamp.bind (replyTo nowMs)⟩)
      (fun _ t => t = s) s := by
  simp only [outgoing, wp_bind, wp_get, wp_pure]
  refine (wp_observeTime nowMs s).mono ?_ fun _ _ h => h.1
  rintro _ _ rfl
  exact ⟨rfl, rfl⟩

/-- A packet fails only when the clock went backwards. -/
theorem wp_observeReceived (hs : s.Sampled) (sequence timestamp : Nat) (reply : Option Nat) (nowMs : Nat) :
    wp (observeReceived sequence timestamp reply nowMs)
      (fun disposition t => Observed s sequence timestamp nowMs reply disposition t)
      (fun _ t => t = s ∧ nowMs < s.lastObservedMs) s := by
  simp only [observeReceived, wp_bind]
  refine (wp_observeTime nowMs s).mono ?_ fun _ _ h => ⟨h.1, h.2.2⟩
  rintro _ _ rfl
  simp only [wp_get, wp_ite, wp_bind, wp_pure, wp_modify]
  refine ⟨fun hold => .reordered reply (any_le_iff.mp hold), fun hnew => ?_⟩
  have hnewest : Newest sequence s := by_contra fun h => hnew (any_le_iff.mpr h)
  cases reply with
  | none => exact .noReply hnewest
  | some reply =>
    rw [wp_ite]
    refine ⟨fun hlarge => .implausibleSample reply hnewest hlarge, fun hsmall => ?_⟩
    rw [wp_bind, wp_zoom]
    obtain ⟨accepted, htracks⟩ := hs
    obtain ⟨_, estimator, hestimator, -⟩ := (htracks.wp_observeSample (Nat.le_of_not_lt hsmall)).returns
    exact (wp_of_ok hestimator).mpr (.updated reply estimator hnewest (Nat.le_of_not_lt hsmall) hestimator)

theorem Observed.sampled {sequence timestamp nowMs : Nat} {reply : Option Nat} {disposition : RttSampleDisposition}
    {t : DatagramTiming} (hs : s.Sampled) (h : Observed s sequence timestamp nowMs reply disposition t) : t.Sampled := by
  cases h with
  | reordered => exact hs
  | noReply => exact hs
  | implausibleSample => exact hs
  | updated reply estimator _ hsample hestimator =>
    obtain ⟨accepted, htracks⟩ := hs
    have hnext := htracks.observeSample hsample
    rw [exec, hestimator] at hnext
    exact ⟨_, hnext⟩

theorem sampled_call (c : TimingCall) (hs : s.Sampled) : (s.call c).Sampled := by
  cases c with
  | outgoing nowMs =>
    refine exec_of_wp ((wp_outgoing nowMs s).mono (fun _ t h => ?_) fun _ t h => ?_)
    · rw [h.1]
      exact hs
    · rw [h]
      exact hs
  | received sequence timestamp reply nowMs =>
    refine exec_of_wp ((wp_observeReceived hs sequence timestamp reply nowMs).mono (fun _ t h => h.sampled hs) fun _ t h => ?_)
    rw [h.1]
    exact hs

theorem sampled_after (startedAtMs : Nat) (calls : List TimingCall) : ((new startedAtMs).after calls).Sampled :=
  after_of_call (fun c _ _ => sampled_call c) ⟨[], RttEstimator.tracks_new⟩

/-! ### Reordered packets -/

/-- A packet at least as new as `sequence` has been seen. -/
def Seen (sequence : Nat) (s : DatagramTiming) : Prop := ¬Newest sequence s

/-- What a packet that is not the newest leaves alone. -/
structure Unmoved (s t : DatagramTiming) : Prop where
  estimator : t.estimator = s.estimator
  timestamp : t.lastReceivedTimestamp = s.lastReceivedTimestamp
  highest : t.highestReceivedSequence = s.highestReceivedSequence

theorem unmoved_outgoing (nowMs : Nat) (s : DatagramTiming) : Unmoved s (s.call (.outgoing nowMs)) := by
  refine exec_of_wp ((wp_outgoing nowMs s).mono (fun _ t h => ?_) fun _ t h => ?_)
  · rw [h.1]
    exact ⟨rfl, rfl, rfl⟩
  · rw [h]
    exact ⟨rfl, rfl, rfl⟩

/-- A packet that is not the newest is noted as reordered, and changes nothing but the clock. -/
theorem wp_observeReceived_seen {sequence : Nat} (h : Seen sequence s) (timestamp : Nat) (reply : Option Nat) (nowMs : Nat) :
    wp (observeReceived sequence timestamp reply nowMs) (fun disposition t => disposition = .reordered ∧ Unmoved s t)
      (fun _ t => Unmoved s t) s := by
  simp only [observeReceived, wp_bind]
  refine (wp_observeTime nowMs s).mono ?_ ?_
  · rintro _ _ rfl
    simp only [wp_get, wp_ite, wp_bind, wp_pure, wp_modify]
    exact ⟨fun _ => ⟨trivial, ⟨rfl, rfl, rfl⟩⟩, fun hnew => absurd (any_le_iff.mpr h) hnew⟩
  · rintro _ _ ⟨rfl, -⟩
    exact ⟨rfl, rfl, rfl⟩

theorem Unmoved.seen {sequence : Nat} {t : DatagramTiming} (h : Unmoved s t) (hs : Seen sequence s) : Seen sequence t := by
  unfold Seen Newest
  rw [h.highest]
  exact hs

theorem Seen.mono {sequence older : Nat} (h : Seen sequence s) (hle : older ≤ sequence) : Seen older s :=
  fun hnewest => h fun highest hhighest => (hnewest highest hhighest).trans_le hle

theorem seen_store (s : DatagramTiming) (sequence timestamp nowMs : Nat) : Seen sequence (s.store sequence timestamp nowMs) :=
  fun hnewest => Nat.lt_irrefl _ (hnewest sequence rfl)

/-- A packet has been seen once it is observed. -/
theorem Observed.seen {sequence timestamp nowMs : Nat} {reply : Option Nat} {disposition : RttSampleDisposition}
    {t : DatagramTiming} (h : Observed s sequence timestamp nowMs reply disposition t) : Seen sequence t := by
  cases h with
  | reordered _ hold => exact hold
  | noReply => exact seen_store s sequence timestamp nowMs
  | implausibleSample => exact seen_store s sequence timestamp nowMs
  | updated => exact seen_store s sequence timestamp nowMs

/-- The timestamp of the newest packet is stored. -/
theorem Observed.timestamp {sequence timestamp nowMs : Nat} {reply : Option Nat} {disposition : RttSampleDisposition}
    {t : DatagramTiming} (h : Observed s sequence timestamp nowMs reply disposition t) (hnewest : disposition ≠ .reordered) :
    t.lastReceivedTimestamp = some (timestamp, nowMs) := by
  cases h with
  | reordered => exact absurd rfl hnewest
  | noReply => rfl
  | implausibleSample => rfl
  | updated => rfl

/-- What has been seen stays seen. -/
theorem seen_call {sequence : Nat} (c : TimingCall) (hs : s.Sampled ∧ Seen sequence s) :
    (s.call c).Sampled ∧ Seen sequence (s.call c) := by
  refine ⟨sampled_call c hs.1, ?_⟩
  cases c with
  | outgoing nowMs => exact (unmoved_outgoing nowMs s).seen hs.2
  | received newer timestamp reply nowMs =>
    refine exec_of_wp ((wp_observeReceived hs.1 newer timestamp reply nowMs).mono (fun _ t h => ?_) fun _ t h => ?_)
    · by_cases hle : sequence ≤ newer
      · exact h.seen.mono hle
      · -- The newer one is no newer than what has been seen, so it is reordered.
        have hold : Seen newer s := hs.2.mono (Nat.le_of_not_le hle)
        cases h with
        | reordered => exact hs.2
        | noReply hnewest => exact absurd hnewest hold
        | implausibleSample _ hnewest => exact absurd hnewest hold
        | updated _ _ hnewest => exact absurd hnewest hold
    · rw [h.1]
      exact hs.2

/-! ### The round trip -/

/-- The value that stands for no reply is not sent as one. -/
theorem reply_ne_none (nowMs : Nat) (last : Option (Nat × Nat)) : last.bind (replyTo nowMs) ≠ some noTimestampReply := by
  cases last with
  | none => simp
  | some received =>
    obtain ⟨timestamp, receivedAtMs⟩ := received
    simp only [Option.bind_some, replyTo, Option.bind_eq_bind, ne_eq, Option.bind_eq_some_iff, not_exists, not_and]
    intro age _ hreply
    split_ifs at hreply with _ hnone
    exact hnone (Option.some.inj hreply)

/-- No packet that is newer than `sequence` is among the calls. -/
def NoNewer (sequence : Nat) (calls : List TimingCall) : Prop :=
  ∀ newer timestamp reply nowMs, .received newer timestamp reply nowMs ∈ calls → newer ≤ sequence

/-- Between the newest packet and the answer, the timestamp to echo stays the same. -/
theorem timestamp_after {sequence : Nat} {calls : List TimingCall} (hcalls : NoNewer sequence calls) (hs : Seen sequence s) :
    (s.after calls).lastReceivedTimestamp = s.lastReceivedTimestamp := by
  have hkeeps : Seen sequence (s.after calls) ∧ (s.after calls).lastReceivedTimestamp = s.lastReceivedTimestamp := by
    refine after_of_call (I := fun t => Seen sequence t ∧ t.lastReceivedTimestamp = s.lastReceivedTimestamp) ?_ ⟨hs, rfl⟩
    rintro c hc t ⟨hseen, htimestamp⟩
    have hunmoved : Unmoved t (t.call c) := by
      cases c with
      | outgoing nowMs => exact unmoved_outgoing nowMs t
      | received newer timestamp reply nowMs =>
        exact exec_of_wp ((wp_observeReceived_seen (hseen.mono (hcalls _ _ _ _ hc)) timestamp reply nowMs).mono
          (fun _ _ h => h.2) fun _ _ h => h)
    exact ⟨hunmoved.seen hseen, hunmoved.timestamp.trans htimestamp⟩
  exact hkeeps.2

/-- The timestamp of one endpoint goes to the other and comes back: sent at `a₁`, received as the newest
    packet at `b₁`, answered at `b₂` with no newer packet in between, and the answer received as the newest
    packet at `a₂`. Both endpoints are used in any way before, and meanwhile. -/
structure RoundTrip where
  startedAtMs : Nat
  before : List TimingCall
  a₁ : Nat
  sent : OutgoingTimestamps
  a : DatagramTiming
  sends : outgoing a₁ ((new startedAtMs).after before) = .ok sent a
  peerStartedAtMs : Nat
  peerBefore : List TimingCall
  sequence : Nat
  otherReply : Option Nat
  b₁ : Nat
  disposition : RttSampleDisposition
  b : DatagramTiming
  receives : observeReceived sequence sent.timestamp otherReply b₁ ((new peerStartedAtMs).after peerBefore) = .ok disposition b
  newest : disposition ≠ .reordered
  between : List TimingCall
  noNewer : NoNewer sequence between
  b₂ : Nat
  answer : OutgoingTimestamps
  b' : DatagramTiming
  answers : outgoing b₂ (b.after between) = .ok answer b'
  reply : Nat
  replies : answer.timestampReply = some reply
  meanwhile : List TimingCall
  answerSequence : Nat
  a₂ : Nat
  onTime : (a.after meanwhile).lastObservedMs ≤ a₂
  answerNewest : Newest answerSequence (a.after meanwhile)

namespace RoundTrip
variable (r : RoundTrip)

/-- The endpoint when the answer arrives. -/
def waiting : DatagramTiming := r.a.after r.meanwhile

/-- What becomes of the answer. -/
def arrival : EStateM.Result TimingError DatagramTiming RttSampleDisposition :=
  observeReceived r.answerSequence r.answer.timestamp r.answer.timestampReply r.a₂ r.waiting

/-- The reply is the timestamp, moved on by the time that the peer held it. -/
theorem reply_eq : r.reply = (r.a₁ % 65536 + (r.b₂ - r.b₁)) % 65536 ∧ r.b₁ ≤ r.b₂ := by
  have hsent : r.sent.timestamp = r.a₁ % 65536 := by
    rw [((wp_outgoing _ _).ok r.sends).2]
    rfl
  have hpeer := sampled_after r.peerStartedAtMs r.peerBefore
  have hobserved := (wp_observeReceived hpeer _ _ _ _).ok r.receives
  have hanswer := ((wp_outgoing _ _).ok r.answers).2
  have hreply := r.replies
  rw [hanswer, timestamp_after r.noNewer hobserved.seen, hobserved.timestamp r.newest, hsent] at hreply
  simp only [Option.bind_some, replyTo, Option.bind_eq_bind, Option.bind_eq_some_iff] at hreply
  obtain ⟨age, hage, hreply⟩ := hreply
  obtain ⟨rfl, hle⟩ := checkedSub_eq_some.mp hage
  split_ifs at hreply
  exact ⟨(Option.some.inj hreply).symm, hle⟩

/-- The sample is the time since the timestamp was sent, less the time that the peer held it. -/
theorem sampleOf_reply : (sampleOf r.a₂ r.reply : Int) = ((r.a₂ - r.a₁) - (r.b₂ - r.b₁)) % 65536 := by
  obtain ⟨hreply, hle⟩ := r.reply_eq
  rw [hreply]
  simp only [sampleOf, wireMilliseconds, timestampModulus]
  omega

/-- The answer is the newest packet, so its sample is taken, unless it is implausible. -/
theorem arrival_eq :
    (sampleOf r.a₂ r.reply ≤ maxRttSampleMs → ∃ t, r.arrival = .ok (.updated (sampleOf r.a₂ r.reply)) t ∧
      t.estimator = exec (RttEstimator.observeSample (sampleOf r.a₂ r.reply)) r.waiting.estimator) ∧
    (maxRttSampleMs < sampleOf r.a₂ r.reply → ∃ t, r.arrival = .ok .implausibleSample t ∧
      t.estimator = r.waiting.estimator) := by
  have hsampled : r.waiting.Sampled := by
    refine after_of_call (fun c _ _ => sampled_call c) ?_
    rw [((wp_outgoing _ _).ok r.sends).1]
    exact sampled_after r.startedAtMs r.before
  have hwp := wp_observeReceived hsampled r.answerSequence r.answer.timestamp r.answer.timestampReply r.a₂
  cases harrival : r.arrival with
  | error e t => exact absurd (hwp.error harrival).2 (Nat.not_lt.mpr r.onTime)
  | ok disposition t =>
    have hobserved := hwp.ok harrival
    rw [r.replies] at hobserved
    cases hobserved with
    | reordered _ hold => exact absurd r.answerNewest hold
    | implausibleSample _ _ hlarge =>
      exact ⟨fun hsmall => absurd hlarge (Nat.not_lt.mpr hsmall), fun _ => ⟨_, rfl, rfl⟩⟩
    | updated _ estimator _ hsmall hestimator =>
      refine ⟨fun _ => ⟨_, rfl, ?_⟩, fun hlarge => absurd hlarge (Nat.not_lt.mpr hsmall)⟩
      rw [exec, hestimator]

end RoundTrip

/-- Timestamps measure the round trip exactly. The sample of an answer is the time since the timestamp was
    sent, less the time that the peer held it, modulo 65536; so a time on the network of up to a minute is
    the sample, and a longer one, below the range of a timestamp, is implausible and leaves the estimate. No
    reply is the value that stands for none, and a packet that is not newer than every earlier one leaves
    the estimate and the timestamp to echo. -/
theorem echo_exact :
    (∀ r : RoundTrip, (sampleOf r.a₂ r.reply : Int) = ((r.a₂ - r.a₁) - (r.b₂ - r.b₁)) % 65536 ∧
      ∀ networkMs : Nat, (networkMs : Int) = (r.a₂ - r.a₁) - (r.b₂ - r.b₁) →
        (networkMs ≤ 60000 → ∃ t, r.arrival = .ok (.updated networkMs) t ∧
          t.estimator = exec (RttEstimator.observeSample networkMs) r.waiting.estimator) ∧
        (60000 < networkMs → networkMs < 65536 → ∃ t, r.arrival = .ok .implausibleSample t ∧
          t.estimator = r.waiting.estimator)) ∧
    (∀ nowMs s out t, outgoing nowMs s = .ok out t → out.timestampReply ≠ some 0xFFFF) ∧
    (∀ startedAtMs before sequence timestamp reply nowMs disposition t between older timestamp' reply' nowMs',
      observeReceived sequence timestamp reply nowMs ((new startedAtMs).after before) = .ok disposition t →
      older ≤ sequence →
      let u := t.after between
      let v := exec (observeReceived older timestamp' reply' nowMs') u
      v.estimator = u.estimator ∧ v.lastReceivedTimestamp = u.lastReceivedTimestamp) := by
  refine ⟨fun r => ⟨r.sampleOf_reply, fun networkMs hnetwork => ?_⟩, ?_, ?_⟩
  · have hsample := r.sampleOf_reply
    rw [← hnetwork] at hsample
    have harrival := r.arrival_eq
    refine ⟨fun hsmall => ?_, fun hlarge hlt => ?_⟩
    · have heq : sampleOf r.a₂ r.reply = networkMs := by omega
      rw [heq] at harrival
      exact harrival.1 hsmall
    · have heq : sampleOf r.a₂ r.reply = networkMs := by omega
      rw [heq] at harrival
      exact harrival.2 hlarge
  · intro nowMs s out t hout
    rw [((wp_outgoing nowMs s).ok hout).2]
    exact reply_ne_none nowMs s.lastReceivedTimestamp
  · intro startedAtMs before sequence timestamp reply nowMs disposition t between older timestamp' reply' nowMs' hreceived hle
    have hsampled := sampled_after startedAtMs before
    have hobserved := (wp_observeReceived hsampled sequence timestamp reply nowMs).ok hreceived
    have hafter := after_of_call (I := fun u => u.Sampled ∧ Seen sequence u) (fun c (_ : c ∈ between) _ => seen_call c)
      ⟨hobserved.sampled hsampled, hobserved.seen⟩
    have hunmoved : Unmoved (t.after between) (exec (observeReceived older timestamp' reply' nowMs') (t.after between)) :=
      exec_of_wp ((wp_observeReceived_seen (hafter.2.mono hle) timestamp' reply' nowMs').mono (fun _ _ h => h.2) fun _ _ h => h)
    exact ⟨hunmoved.estimator, hunmoved.timestamp⟩

/-- A round trip during which both clocks pass a multiple of 65536. -/
def RoundTrip.wrapping : RoundTrip where
  startedAtMs := 65000
  before := []
  a₁ := 65530
  sent := ⟨65530, none⟩
  a := ⟨RttEstimator.new, none, none, 65530⟩
  sends := rfl
  peerStartedAtMs := 131000
  peerBefore := []
  sequence := 0
  otherReply := none
  b₁ := 131070
  disposition := .noReply
  b := ⟨RttEstimator.new, some 0, some (65530, 131070), 131070⟩
  receives := rfl
  newest := by decide
  between := []
  noNewer := fun _ _ _ _ h => by cases h
  b₂ := 131080
  answer := ⟨8, some 4⟩
  b' := ⟨RttEstimator.new, some 0, some (65530, 131070), 131080⟩
  answers := rfl
  reply := 4
  replies := rfl
  meanwhile := []
  answerSequence := 0
  a₂ := 65620
  onTime := by decide
  answerNewest := fun _ h => by cases h

/-- The answer took 90 ms, and the peer held it for 10 of them. -/
theorem echo_exact_wrapping : ∃ t, RoundTrip.wrapping.arrival = .ok (.updated 80) t ∧
    t.estimator = exec (RttEstimator.observeSample 80) RoundTrip.wrapping.waiting.estimator :=
  ((echo_exact.1 RoundTrip.wrapping).2 80 (by decide)).1 (by decide)

end DatagramTiming
end MoshClient
