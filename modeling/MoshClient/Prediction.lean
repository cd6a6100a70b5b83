import MoshClient.Lib.Effect
import MoshClient.Instruction

/-! Local prediction (`prediction.rs`), over the operations of the terminal that the driver uses. -/

namespace MoshClient
open Machine Limits Effect

/-! ### The terminal -/

inductive TerminalError where
  | differenceTooLarge
  | tooManyOperations
  | invalidMessage
  | invalidOperation
  | invalidTerminalSize
  | invalidUtf8
  | incompleteSequence
  | unsupportedCharacter
  | unsupportedControl
  | unsupportedEscape
  | unsupportedCsi (intermediate : Option UInt8) (parameter : Option Nat) (finalCharacter : Char)
  | unsupportedOsc
  | tooManyScalarsInCell
  | cellEncodingTooLarge
  deriving DecidableEq, Repr

inductive PaintError where
  | outputTooLarge
  deriving DecidableEq, Repr

/-- The terminal states `T`, with the operations of `TerminalState`, `TerminalDifference` and
    `TerminalPainter`. -/
structure Terminal (T : Type) where
  Difference : Type
  new : Nat → Nat → Except TerminalError T
  decode : Bytes → Except TerminalError Difference
  apply : T → Difference → Except TerminalError T
  withPredictedAscii : T → UInt8 → Except TerminalError T
  displayEquivalent : T → T → Bool
  echoAcknowledgement : T → Option Nat
  full : T → Except PaintError Bytes
  incremental : T → T → Except PaintError Bytes

/-- The sizes that a terminal may have. -/
def isValidSize (columns rows : Nat) : Bool :=
  !decide (columns = 0 ∨ columns > maxTerminalColumns ∨ rows = 0 ∨ rows > maxTerminalRows ∨
    columns * rows > maxTerminalVisibleCells)

/-! ### Predictions -/

inductive PredictionMode where
  | adaptive
  | always
  | never
  deriving DecidableEq, Repr

structure PendingPrediction where
  clientState : Nat
  createdAtMs : Nat
  byte : UInt8
  deriving DecidableEq, Repr

inductive EpochConfidence where
  | tentative
  | confirmed
  deriving DecidableEq, Repr

/-- A failed prediction step: an error of the terminal, or a panic on a missing base or projection. -/
inductive PredictionError where
  | terminal (e : TerminalError)
  | missingBase
  | missingProjection
  deriving DecidableEq, Repr

structure LocalPrediction (T : Type) where
  mode : PredictionMode
  confidence : EpochConfidence
  adaptiveSlowLink : Bool
  adaptiveGlitch : Bool
  pending : List PendingPrediction
  base : Option T
  projected : Option T
  deriving DecidableEq

def predictableByte : Bytes → Option UInt8
  | [byte] => if (0x21 ≤ byte ∧ byte ≤ 0x7e) ∨ byte = 0x20 then some byte else none
  | _ => none

namespace LocalPrediction

variable {T : Type}

def new (mode : PredictionMode) : LocalPrediction T := ⟨mode, .tentative, false, false, [], none, none⟩

def displayingPrediction (self : LocalPrediction T) : Bool :=
  self.confidence == .confirmed && !self.pending.isEmpty &&
    match self.mode with
    | .adaptive => self.adaptiveSlowLink || self.adaptiveGlitch
    | .always => true
    | .never => false

/-- Forgets every prediction, and says whether one was displayed. -/
def clear (self : LocalPrediction T) : Bool × LocalPrediction T :=
  (self.displayingPrediction,
    { self with confidence := .tentative, adaptiveGlitch := false, pending := [], base := none, projected := none })

def reset (self : LocalPrediction T) : Bool × LocalPrediction T := self.clear

def observeInput (terminal : Terminal T) (clientState : Nat) (bytes : Bytes) (authoritative : T) (nowMs : Nat) :
    EStateM PredictionError (LocalPrediction T) Bool := fun self =>
  if self.mode = .never then .ok false self
  else
    match predictableByte bytes with
    | none => .ok self.clear.1 self.clear.2
    | some byte =>
      if self.pending.length = maxPendingPredictionScalars ∨ self.pending.length = maxPendingPredictionBytes then
        .ok self.clear.1 self.clear.2
      else
        let pending := self.pending ++ [⟨clientState, nowMs, byte⟩]
        if self.pending.isEmpty then
          let self := { self with base := some authoritative }
          match terminal.withPredictedAscii authoritative byte with
          | .error e => .error (.terminal e) self
          | .ok projected =>
            let self := { self with projected := some projected, pending := pending }
            .ok self.displayingPrediction self
        else
          match self.projected with
          | none => .error .missingProjection self
          | some projected =>
            match terminal.withPredictedAscii projected byte with
            | .error e => .error (.terminal e) self
            | .ok projected =>
              let self := { self with projected := some projected, pending := pending }
              .ok self.displayingPrediction self

/-- Applies the predictions from `index` on to `expected`, and returns the last index after which the
    result looks like `authoritative`, or `matched`. -/
def matchPrefix (terminal : Terminal T) (authoritative : T) :
    List PendingPrediction → Nat → T → Option Nat → Except TerminalError (Option Nat)
  | [], _, _, matched => .ok matched
  | prediction :: rest, index, expected, matched =>
    match terminal.withPredictedAscii expected prediction.byte with
    | .error e => .error e
    | .ok expected =>
      matchPrefix terminal authoritative rest (index + 1) expected
        (if terminal.displayEquivalent expected authoritative then some (index + 1) else matched)

def longestMatchingPrefix (terminal : Terminal T) (self : LocalPrediction T) (authoritative : T) :
    Except PredictionError (Option Nat) :=
  match self.base with
  | none => .error .missingBase
  | some base =>
    (matchPrefix terminal authoritative self.pending 0 base
      (if terminal.displayEquivalent base authoritative then some 0 else none)).mapError .terminal

/-- Applies the predicted bytes in order. -/
def project (terminal : Terminal T) (start : T) : List PendingPrediction → Except TerminalError T
  | [] => .ok start
  | prediction :: rest =>
    match terminal.withPredictedAscii start prediction.byte with
    | .error e => .error e
    | .ok next => project terminal next rest

def observeAuthoritative (terminal : Terminal T) (authoritative : T) :
    EStateM PredictionError (LocalPrediction T) Unit := fun self =>
  if self.mode = .never ∨ self.pending.isEmpty then .ok () self
  else
    match longestMatchingPrefix terminal self authoritative with
    | .error e => .error e self
    | .ok none => .ok () self.clear.2
    | .ok (some matchedPrefix) =>
      let acknowledgedPrefix := match terminal.echoAcknowledgement authoritative with
        | none => 0
        | some number => (self.pending.takeWhile fun prediction => decide (prediction.clientState ≤ number)).length
      if acknowledgedPrefix > matchedPrefix then .ok () self.clear.2
      else if acknowledgedPrefix = 0 then .ok () self
      else
        let self := { self with confidence := .confirmed, pending := self.pending.drop matchedPrefix }
        if self.pending.isEmpty then
          .ok () { self with base := none, projected := none, adaptiveGlitch := false }
        else
          match project terminal authoritative self.pending with
          | .error e => .error (.terminal e) self
          | .ok projected => .ok () { self with base := some authoritative, projected := some projected }

def display (self : LocalPrediction T) (authoritative : T) : T :=
  if self.displayingPrediction then self.projected.getD authoritative else authoritative

def expirationDeadlineMs (self : LocalPrediction T) : Option Nat :=
  if self.mode = .never then none
  else self.pending.head?.map fun prediction => saturatingAdd prediction.createdAtMs maxPredictionAgeMs

/-- The deadlines that are set, at the earlier of the two. -/
def earlier : Option Nat → Option Nat → Option Nat
  | some a, some b => some (min a b)
  | some a, none => some a
  | none, b => b

def nextDeadlineMs (self : LocalPrediction T) : Option Nat :=
  let glitch :=
    if self.mode = .adaptive ∧ self.confidence = .confirmed ∧ ¬self.adaptiveSlowLink ∧ ¬self.adaptiveGlitch then
      self.pending.head?.map fun prediction => saturatingAdd prediction.createdAtMs adaptivePredictionGlitchMs
    else none
  earlier self.expirationDeadlineMs glitch

def expire (self : LocalPrediction T) (nowMs : Nat) : Bool × LocalPrediction T :=
  if self.expirationDeadlineMs.any fun deadline => decide (nowMs ≥ deadline) then self.clear else (false, self)

def updateSlowLink (self : LocalPrediction T) (frameIntervalMs : Option Nat) : LocalPrediction T :=
  match frameIntervalMs with
  | none => self
  | some frameIntervalMs =>
    if frameIntervalMs > adaptivePredictionEnableFrameMs then { self with adaptiveSlowLink := true }
    else if frameIntervalMs ≤ adaptivePredictionDisableFrameMs ∧ ¬self.displayingPrediction then
      { self with adaptiveSlowLink := false }
    else self

def updateGlitch (self : LocalPrediction T) (nowMs : Nat) : LocalPrediction T :=
  if self.pending.isEmpty then { self with adaptiveGlitch := false }
  else if self.confidence = .confirmed ∧ (self.pending.head?.any fun prediction =>
      decide (nowMs ≥ saturatingAdd prediction.createdAtMs adaptivePredictionGlitchMs)) then
    { self with adaptiveGlitch := true }
  else self

def updatePolicy (self : LocalPrediction T) (nowMs : Nat) (frameIntervalMs : Option Nat) :
    Bool × LocalPrediction T :=
  let wasDisplayed := self.displayingPrediction
  if self.mode ≠ .adaptive then (false, self)
  else
    let updated := (self.updateSlowLink frameIntervalMs).updateGlitch nowMs
    (wasDisplayed != updated.displayingPrediction, updated)

end LocalPrediction
end MoshClient
