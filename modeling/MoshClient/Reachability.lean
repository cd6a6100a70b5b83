import MoshClient.Lib.Effect
import MoshClient.Lib.Machine
import MoshClient.Limits

/-! The reachability tracker (`session/reachability.rs`). -/

namespace MoshClient
open Machine Limits Effect

inductive SessionInterruption where
  | noRecentContact
  | noRecentReply
  deriving DecidableEq, Repr

inductive SessionReachability where
  | awaitingPeer
  | responsive
  | interrupted (reason : SessionInterruption)
  deriving DecidableEq, Repr

inductive ReachabilityError where
  | timeMovedBackwards
  | timerExhausted
  deriving DecidableEq, Repr

structure ReachabilityTracker where
  current : SessionReachability
  lastContactMs : Option Nat
  lastReplyMs : Nat
  deriving DecidableEq, Repr

namespace ReachabilityTracker

def new : ReachabilityTracker := ⟨.awaitingPeer, none, 0⟩

def noteContact (self : ReachabilityTracker) (nowMs : Nat) : ReachabilityTracker :=
  { self with lastContactMs := some nowMs }

def noteReply (self : ReachabilityTracker) (acknowledgedSentAtMs : Nat) : ReachabilityTracker :=
  { self with lastReplyMs := max self.lastReplyMs acknowledgedSentAtMs }

def calculate (self : ReachabilityTracker) (nowMs : Nat) : Except ReachabilityError SessionReachability :=
  match self.lastContactMs with
  | none => .ok .awaitingPeer
  | some lastContactMs =>
    match checkedSub nowMs lastContactMs with
    | none => .error .timeMovedBackwards
    | some contactAge =>
      if contactAge ≥ noRecentContactMs then .ok (.interrupted .noRecentContact)
      else
        match checkedSub nowMs self.lastReplyMs with
        | none => .error .timeMovedBackwards
        | some replyAge =>
          if replyAge ≥ noRecentReplyMs then .ok (.interrupted .noRecentReply) else .ok .responsive

def update (nowMs : Nat) : EStateM ReachabilityError ReachabilityTracker (Option SessionReachability) := fun self =>
  match self.calculate nowMs with
  | .error e => .error e self
  | .ok next => if next = self.current then .ok none self else .ok (some next) { self with current := next }

def attachmentTimedOut (self : ReachabilityTracker) (nowMs : Nat) : Bool :=
  self.lastContactMs.isNone && decide (nowMs ≥ initialAttachmentTimeoutMs)

def contactDeadlineMs (self : ReachabilityTracker) : Except ReachabilityError Nat :=
  match self.lastContactMs with
  | none => .error .timeMovedBackwards
  | some lastContactMs =>
    match checkedAdd lastContactMs noRecentContactMs with
    | none => .error .timerExhausted
    | some deadline => .ok deadline

def nextDeadlineMs (self : ReachabilityTracker) : Except ReachabilityError (Option Nat) :=
  match self.current with
  | .awaitingPeer => .ok (some initialAttachmentTimeoutMs)
  | .responsive => do
    let contact ← self.contactDeadlineMs
    match checkedAdd self.lastReplyMs noRecentReplyMs with
    | none => .error .timerExhausted
    | some reply => .ok (some (min contact reply))
  | .interrupted .noRecentReply => self.contactDeadlineMs.map some
  | .interrupted .noRecentContact => .ok none

end ReachabilityTracker
end MoshClient
