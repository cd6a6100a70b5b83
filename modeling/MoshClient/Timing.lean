import MoshClient.Fragment

/-! Round-trip estimation, wire timestamps and the send scheduler (`timing.rs`). -/

namespace MoshClient
open Machine Limits Effect

def clockGranularityMs : Nat := 1
def timestampModulus : Nat := 2 ^ 16

inductive TimingError where
  | timeMovedBackwards
  | timerExhausted
  | invalidRttSample
  | stalePlan
  | generationExhausted
  deriving DecidableEq, Repr

/-- A product, when it fits in 64 bits. -/
def checkedMul (a b : Nat) : Option Nat := if a * b < 2 ^ 64 then some (a * b) else none

def divCeil (a b : Nat) : Nat := (a + b - 1) / b

def clamp (n low high : Nat) : Nat := max low (min n high)

/-! ### Round-trip time -/

structure RttEstimator where
  smoothedRttEighths : Option Nat
  rttVariationEighths : Nat
  retransmissionTimeoutMs : Nat
  deriving DecidableEq, Repr

namespace RttEstimator

def new : RttEstimator := ⟨none, 0, initialRetransmissionTimeoutMs⟩

def smoothedRttMs (self : RttEstimator) : Option Nat := self.smoothedRttEighths.map fun value => divCeil value 8

def frameIntervalMs (self : RttEstimator) : Nat :=
  clamp ((self.smoothedRttMs.map fun smoothed => divCeil smoothed 2).getD maxFrameIntervalMs)
    minFrameIntervalMs maxFrameIntervalMs

/-- Takes a sample into the smoothed time and the variation, in eighths of a millisecond, field by field,
    and returns the smoothed time. -/
def smooth (sampleMs sampleEighths : Nat) : EStateM TimingError RttEstimator Nat := do
  let self ← get
  match self.smoothedRttEighths with
  | none => do
    modify fun self => { self with smoothedRttEighths := some sampleEighths }
    let variation ← ofOption .timerExhausted (checkedMul sampleMs 4)
    modify fun self => { self with rttVariationEighths := variation }
    return sampleEighths
  | some smoothed => do
    let deviation := max smoothed sampleEighths - min smoothed sampleEighths
    let variation ← ofOption .timerExhausted
      ((checkedMul self.rttVariationEighths 3).bind fun weighted => checkedAdd weighted deviation)
    modify fun self => { self with rttVariationEighths := variation / 4 }
    let total ← ofOption .timerExhausted
      ((checkedMul smoothed 7).bind fun weighted => checkedAdd weighted sampleEighths)
    modify fun self => { self with smoothedRttEighths := some (total / 8) }
    return total / 8

def calculateRtoMs (smoothed variation : Nat) : Option Nat := do
  let variation ← checkedMul variation 4
  let timeoutEighths ← checkedAdd smoothed (max variation (clockGranularityMs * 8))
  some (clamp (divCeil timeoutEighths 8) minRetransmissionTimeoutMs maxRetransmissionTimeoutMs)

def observeSample (sampleMs : Nat) : EStateM TimingError RttEstimator Unit :=
  if sampleMs > maxRttSampleMs then throw .invalidRttSample
  else do
    let sampleEighths ← ofOption .timerExhausted (checkedMul sampleMs 8)
    let smoothed ← smooth sampleMs sampleEighths
    let self ← get
    let timeout ← ofOption .timerExhausted (calculateRtoMs smoothed self.rttVariationEighths)
    modify fun self => { self with retransmissionTimeoutMs := timeout }

end RttEstimator

/-! ### Wire timestamps -/

structure OutgoingTimestamps where
  timestamp : Nat
  timestampReply : Option Nat
  deriving DecidableEq, Repr

inductive RttSampleDisposition where
  | updated (sampleMs : Nat)
  | noReply
  | reordered
  | implausibleSample
  deriving DecidableEq, Repr

structure DatagramTiming where
  estimator : RttEstimator
  highestReceivedSequence : Option Nat
  lastReceivedTimestamp : Option (Nat × Nat)
  lastObservedMs : Nat
  deriving DecidableEq, Repr

def wireMilliseconds (nowMs : Nat) : Nat := nowMs % timestampModulus

namespace DatagramTiming

def new (startedAtMs : Nat) : DatagramTiming := ⟨RttEstimator.new, none, none, startedAtMs⟩

def observeTime (nowMs : Nat) : EStateM TimingError DatagramTiming Unit := fun self =>
  if nowMs < self.lastObservedMs then .error .timeMovedBackwards self
  else .ok () { self with lastObservedMs := nowMs }

/-- The reply to the last received timestamp, moved on by the time since it arrived. -/
def replyTo (nowMs : Nat) : Nat × Nat → Option Nat
  | (timestamp, receivedAtMs) => do
    let ageMs ← checkedSub nowMs receivedAtMs
    if ageMs > maxTimestampReplyAgeMs then none
    else
      let reply := (timestamp + ageMs) % timestampModulus
      if reply = noTimestampReply then none else some reply

def outgoing (nowMs : Nat) : EStateM TimingError DatagramTiming OutgoingTimestamps := do
  observeTime nowMs
  let self ← get
  return ⟨wireMilliseconds nowMs, self.lastReceivedTimestamp.bind (replyTo nowMs)⟩

def observeReceived (sequence timestamp : Nat) (timestampReply : Option Nat) (nowMs : Nat) :
    EStateM TimingError DatagramTiming RttSampleDisposition := do
  observeTime nowMs
  let self ← get
  if self.highestReceivedSequence.any fun highest => decide (sequence ≤ highest) then
    return .reordered
  else do
    modify fun self =>
      { self with highestReceivedSequence := some sequence, lastReceivedTimestamp := some (timestamp, nowMs) }
    match timestampReply with
    | none => return .noReply
    | some reply =>
      let sampleMs := (wireMilliseconds nowMs + timestampModulus - reply) % timestampModulus
      if sampleMs > maxRttSampleMs then return .implausibleSample
      else do
        zoom estimator (fun estimator self => { self with estimator := estimator }) id
          (RttEstimator.observeSample sampleMs)
        return .updated sampleMs

end DatagramTiming

/-! ### The send scheduler -/

structure SendReasons where
  bits : BitVec 8
  deriving DecidableEq, Repr

namespace SendReasons

def none : SendReasons := ⟨0⟩
def stateChange : SendReasons := ⟨1#8 <<< 0⟩
def retransmission : SendReasons := ⟨1#8 <<< 1⟩
def acknowledgement : SendReasons := ⟨1#8 <<< 2⟩
def heartbeat : SendReasons := ⟨1#8 <<< 3⟩

def contains (self reason : SendReasons) : Bool := self.bits &&& reason.bits != 0

/-- Adds `reason` when its deadline has come. -/
def insertIf (due : Bool) (reason self : SendReasons) : SendReasons :=
  if due then ⟨self.bits ||| reason.bits⟩ else self

end SendReasons

structure WakePlan where
  generation : Nat
  plannedAtMs : Nat
  reasons : SendReasons
  deriving DecidableEq, Repr

inductive SchedulerPoll where
  | pending (wakeAtMs : Nat)
  | send (plan : WakePlan)
  deriving DecidableEq, Repr

structure SendScheduler where
  startedAtMs : Nat
  lastObservedMs : Nat
  lastSendMs : Option Nat
  localChangeAtMs : Option Nat
  acknowledgementAtMs : Option Nat
  sendNotBeforeMs : Option Nat
  generation : Nat
  deriving DecidableEq, Repr

/-- A method that may change the scheduler. -/
abbrev Scheduling := EStateM TimingError SendScheduler

def checkedDeadline (startMs delayMs : Nat) : Except TimingError Nat :=
  match checkedAdd startMs delayMs with
  | none => .error .timerExhausted
  | some deadline => .ok deadline

/-- The deadline after a time that may not be set. -/
def deadlineAfter (startMs : Option Nat) (delayMs : Nat) : Except TimingError (Option Nat) :=
  match startMs with
  | none => .ok none
  | some startMs => (checkedDeadline startMs delayMs).map some

namespace SendScheduler

def new (startedAtMs : Nat) : SendScheduler := ⟨startedAtMs, startedAtMs, none, none, none, none, 0⟩

def observeTime (nowMs : Nat) : Scheduling Unit := fun self =>
  if nowMs < self.lastObservedMs then .error .timeMovedBackwards self
  else .ok () { self with lastObservedMs := nowMs }

def nextGeneration : Scheduling Nat := fun self =>
  match checkedAdd self.generation 1 with
  | none => .error .generationExhausted self
  | some generation => .ok generation self

def noteLocalChange (nowMs : Nat) : Scheduling Unit := do
  observeTime nowMs
  let self ← get
  if self.localChangeAtMs.isNone then do
    let generation ← nextGeneration
    modify fun self => { self with localChangeAtMs := some nowMs, generation := generation }
  else return ()

def noteAcknowledgementNeeded (nowMs : Nat) : Scheduling Unit := do
  observeTime nowMs
  let self ← get
  if self.acknowledgementAtMs.isNone then do
    let generation ← nextGeneration
    modify fun self => { self with acknowledgementAtMs := some nowMs, generation := generation }
  else return ()

def localChangeDue (self : SendScheduler) (frameIntervalMs : Nat) : Except TimingError (Option Nat) :=
  match self.localChangeAtMs with
  | none => .ok none
  | some changedAt => do
    let collectionDue ← checkedDeadline changedAt stateChangeCollectionMs
    let frameDue ← deadlineAfter self.lastSendMs frameIntervalMs
    return some (max collectionDue (frameDue.getD collectionDue))

def dueBy (nowMs : Nat) (deadline : Option Nat) : Bool := deadline.any fun deadline => decide (deadline ≤ nowMs)

/-- What a poll answers once it has observed the time. -/
def pollAt (self : SendScheduler) (nowMs : Nat) (timing : RttEstimator)
    (latestUnacknowledgedSentAtMs : Option Nat) : Except TimingError SchedulerPoll :=
  if latestUnacknowledgedSentAtMs.any fun sentAt => decide (sentAt > nowMs) then .error .timeMovedBackwards
  else do
    let stateDue ← self.localChangeDue timing.frameIntervalMs
    let acknowledgementDue ← deadlineAfter self.acknowledgementAtMs maxAcknowledgementDelayMs
    let retransmissionDue ← deadlineAfter latestUnacknowledgedSentAtMs timing.retransmissionTimeoutMs
    let heartbeatDue ← checkedDeadline (self.lastSendMs.getD self.startedAtMs) heartbeatIntervalMs
    let reasons := SendReasons.none
      |> SendReasons.insertIf (dueBy nowMs stateDue) .stateChange
      |> SendReasons.insertIf (dueBy nowMs retransmissionDue) .retransmission
      |> SendReasons.insertIf (dueBy nowMs acknowledgementDue) .acknowledgement
      |> SendReasons.insertIf (decide (heartbeatDue ≤ nowMs)) .heartbeat
    if reasons ≠ SendReasons.none then
      match self.sendNotBeforeMs with
      | some notBefore =>
        if nowMs < notBefore then return .pending notBefore
        else return .send ⟨self.generation, nowMs, reasons⟩
      | none => return .send ⟨self.generation, nowMs, reasons⟩
    else
      return .pending (([stateDue, acknowledgementDue, retransmissionDue].filterMap id).foldl min heartbeatDue)

def poll (nowMs : Nat) (timing : RttEstimator) (latestUnacknowledgedSentAtMs : Option Nat) :
    Scheduling SchedulerPoll := do
  observeTime nowMs
  let self ← get
  ofExcept id (self.pollAt nowMs timing latestUnacknowledgedSentAtMs)

def commitSend (plan : WakePlan) : Scheduling Unit := do
  let self ← get
  if plan.generation ≠ self.generation ∨ plan.plannedAtMs ≠ self.lastObservedMs then throw .stalePlan
  else do
    let generation ← nextGeneration
    modify fun self =>
      { self with
        localChangeAtMs := none
        acknowledgementAtMs := none
        sendNotBeforeMs := none
        lastSendMs := some plan.plannedAtMs
        generation := generation }

def deferSend (nowMs delayMs : Nat) : Scheduling Unit := do
  let notBefore ← ofExcept id (checkedDeadline nowMs delayMs)
  observeTime nowMs
  modify fun self => { self with sendNotBeforeMs := some notBefore }

end SendScheduler
end MoshClient
