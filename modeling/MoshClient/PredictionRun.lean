import MoshClient.Prediction

/-! Runs of the local prediction (`prediction.rs`): its methods, called one after the other, and what the
    calls of a run have in common when the driver makes them. -/

namespace MoshClient
open Effect Limits

/-- A terminal whose states are equivalent when they are formatted alike (`display_equivalent`). -/
structure FormattedTerminal (T : Type) extends Terminal T where
  stateFormatted : T → Bytes
  displayEquivalent_eq : ∀ a b, displayEquivalent a b = (stateFormatted a == stateFormatted b)

/-- A call of a method of the prediction; the driver resets it for a repaint and for the end. -/
inductive PredictionCall (T : Type) where
  | input (clientState : Nat) (bytes : Bytes) (authoritative : T) (nowMs : Nat)
  | authoritative (state : T)
  | expire (nowMs : Nat)
  | updatePolicy (nowMs : Nat) (frameIntervalMs : Option Nat)
  | reset

namespace PredictionCall

variable {T : Type}

def clientState? : PredictionCall T → Option Nat
  | .input clientState _ _ _ => some clientState
  | _ => none

def nowMs? : PredictionCall T → Option Nat
  | .input _ _ _ nowMs | .expire nowMs | .updatePolicy nowMs _ => some nowMs
  | .authoritative _ | .reset => none

def invoke (terminal : Terminal T) : PredictionCall T → EStateM PredictionError (LocalPrediction T) Unit
  | .input clientState bytes screen nowMs => do
    let _ ← LocalPrediction.observeInput terminal clientState bytes screen nowMs
    return ()
  | .authoritative state => LocalPrediction.observeAuthoritative terminal state
  | .expire nowMs => modify fun self => (self.expire nowMs).2
  | .updatePolicy nowMs frameIntervalMs => modify fun self => (self.updatePolicy nowMs frameIntervalMs).2
  | .reset => modify fun self => self.reset.2

end PredictionCall

namespace LocalPrediction

variable {T : Type}

/-- The prediction after some calls. A call that fails leaves what it has changed. -/
def after (terminal : Terminal T) (mode : PredictionMode) (calls : List (PredictionCall T)) : LocalPrediction T :=
  calls.foldl (fun self call => exec (call.invoke terminal) self) (new mode)

/-- The authoritative state after some calls: the last that was observed. -/
def authority (initial : T) (calls : List (PredictionCall T)) : T :=
  calls.foldl (fun current call =>
    match call with
    | .authoritative state => state
    | _ => current) initial

/-! ### What a call means for the predictions -/

/-- The authoritative state looks like the base with the first `count` predictions. -/
def Matches (terminal : Terminal T) (base : T) (pending : List PendingPrediction) (authoritative : T) (count : Nat) : Prop :=
  count ≤ pending.length ∧ ∃ expected, project terminal base (pending.take count) = .ok expected ∧
    terminal.displayEquivalent expected authoritative = true

/-- The number of predictions that the echo acknowledgement covers. -/
def acknowledgedPrefix (terminal : Terminal T) (self : LocalPrediction T) (authoritative : T) : Nat :=
  match terminal.echoAcknowledgement authoritative with
  | none => 0
  | some number => (self.pending.takeWhile fun prediction => decide (prediction.clientState ≤ number)).length

/-- The authoritative state acknowledges at least one prediction, and looks like the base with at least as
    many predictions as it acknowledges. -/
def Confirms (terminal : Terminal T) (self : LocalPrediction T) (authoritative : T) : Prop :=
  ∃ base count, self.base = some base ∧ Matches terminal base self.pending authoritative count ∧
    0 < acknowledgedPrefix terminal self authoritative ∧ acknowledgedPrefix terminal self authoritative ≤ count

/-- The authoritative state looks like no prefix of the predictions, or acknowledges more than it shows. -/
def Diverges (terminal : Terminal T) (self : LocalPrediction T) (authoritative : T) : Prop :=
  longestMatchingPrefix terminal self authoritative = .ok none ∨
    ∃ count, longestMatchingPrefix terminal self authoritative = .ok (some count) ∧
      count < acknowledgedPrefix terminal self authoritative

/-- The input is not predictable, or there is no place for its prediction. -/
def EndsEpoch (self : LocalPrediction T) (bytes : Bytes) : Prop :=
  predictableByte bytes = none ∨ self.pending.length = maxPendingPredictionScalars ∨
    self.pending.length = maxPendingPredictionBytes

/-- The call clears the predictions. -/
def Clears (terminal : Terminal T) (self : LocalPrediction T) : PredictionCall T → Prop
  | .input _ bytes _ _ => self.mode ≠ .never ∧ self.EndsEpoch bytes
  | .authoritative state => self.mode ≠ .never ∧ self.pending ≠ [] ∧ self.Diverges terminal state
  | .expire nowMs => ∃ deadline, self.expirationDeadlineMs = some deadline ∧ deadline ≤ nowMs
  | .updatePolicy _ _ => False
  | .reset => True

/-! ### Runs -/

/-- The times of the calls do not decrease. -/
def Timed (calls : List (PredictionCall T)) : Prop := (calls.filterMap PredictionCall.nowMs?).Pairwise (· ≤ ·)

/-- The calls are made as the driver makes them, and the terminal can apply what is predicted. -/
structure Driven (terminal : Terminal T) (mode : PredictionMode) (initial : T) (calls : List (PredictionCall T)) :
    Prop where
  timed : Timed calls
  increasing : (calls.filterMap PredictionCall.clientState?).Pairwise (· < ·)
  /-- An input is predicted over the current authoritative state. -/
  current : ∀ before clientState bytes authoritative nowMs rest,
    calls = before ++ .input clientState bytes authoritative nowMs :: rest → authoritative = authority initial before
  /-- No call fails because the terminal cannot apply what is predicted. -/
  applies : ∀ before call rest, calls = before ++ call :: rest →
    wp (call.invoke terminal) (fun _ _ => True) (fun e _ => ∀ e', e ≠ .terminal e') (after terminal mode before)

end LocalPrediction

/-- A run of the prediction at times that do not decrease. -/
structure TimedRun (T : Type) where
  calls : List (PredictionCall T)
  timed : LocalPrediction.Timed calls

/-- A run of the prediction with the calls that the driver makes. -/
structure DrivenRun {T : Type} (terminal : Terminal T) where
  mode : PredictionMode
  initial : T
  calls : List (PredictionCall T)
  driven : LocalPrediction.Driven terminal mode initial calls

end MoshClient
