import Mathlib.Logic.Relation
import MoshClient.Driver
import MoshClient.Theorems.ClientHistory

/-! The ledger of a session: the part of the driver that the peer depends on, and what the session has
    accepted, allocated, transmitted and sealed. Every method of the driver is a sequence of the few steps
    listed here, so a property of all runs is a property that each step keeps. -/

namespace MoshClient
open Limits Effect SynchronizationState

structure Ledger (T : Type) where
  synchronization : SynchronizationState
  clientHistory : ClientHistory
  terminalStates : OrderedMap Nat T
  sendSequence : SendSequence
  accepted : List ClientOperation
  allocated : List (Nat × Nat)
  transmitted : List TransportInstruction
  nonces : List Bytes

variable {T : Type}

def SessionDriver.ledger (d : SessionDriver T) : Ledger T where
  synchronization := d.synchronization
  clientHistory := d.clientHistory
  terminalStates := d.terminalStates
  sendSequence := d.sendSequence
  accepted := d.trace.accepted
  allocated := d.trace.allocated
  transmitted := d.trace.transmitted
  nonces := d.trace.nonces

namespace Ledger

/-- The client history accepts an operation. -/
def accept (operation : ClientOperation) (l : Ledger T) : Ledger T :=
  { l with
    clientHistory := l.clientHistory.extend operation
    accepted := l.accepted ++ [operation] }

/-- The next local state gets all operations accepted so far. -/
def allocate (l : Ledger T) : Ledger T :=
  { l with
    synchronization :=
      { l.synchronization with
        localLatest := l.synchronization.localLatest + 1
        senderGeneration := l.synchronization.senderGeneration + 1 }
    clientHistory := l.clientHistory.checkpoint (l.synchronization.localLatest + 1)
    allocated := l.allocated ++ [(l.synchronization.localLatest + 1, l.accepted.length)] }

/-- An instruction that the driver may send: from a state that the peer may hold, with the operations up
    to the latest state, which it targets; or a shutdown request, from a state that the peer holds. -/
structure Transmittable (l : Ledger T) (m : TransportInstruction) : Prop where
  base : m.baseState = l.synchronization.knownReceiverState ∨ m.baseState ∈ l.synchronization.sentNumbers
  target : m.newState = l.synchronization.localLatest ∨
    m.newState = shutdownState ∧ m.baseState = l.synchronization.knownReceiverState
  difference : l.clientHistory.difference m.baseState l.synchronization.localLatest = .ok m.stateDifference

/-- A step of the session other than the acceptance of an operation. -/
inductive Step : Ledger T → Ledger T → Prop where
  | allocate (l : Ledger T) : Step l l.allocate
  | transmit (l : Ledger T) (m : TransportInstruction) (h : l.Transmittable m) :
      Step l { l with transmitted := l.transmitted ++ [m] }
  /-- A sequence number is taken, and the codec refuses the datagram before it seals. -/
  | skip (l : Ledger T) (sequence : Nat) (rest : SendSequence)
      (hrest : SendSequence.take l.sendSequence = .ok sequence rest) : Step l { l with sendSequence := rest }
  /-- A sequence number is taken and a datagram sealed under it. -/
  | encrypt (l : Ledger T) (sequence : Nat) (h : sequence ≤ maxSequence) (rest : SendSequence)
      (hrest : SendSequence.take l.sendSequence = .ok sequence rest) :
      Step l
        { l with
          sendSequence := rest
          nonces := l.nonces ++ [nonce (PacketCodec.headerBytes .clientToServer sequence)] }
  | commit (l : Ledger T) (evicted : Option Nat) (t : SynchronizationState)
      (h : Committed l.synchronization evicted t) :
      Step l { l with synchronization := t, clientHistory := l.clientHistory.forget evicted }
  /-- The peer acknowledges a state, and the history drops the operations that the peer holds. -/
  | acknowledge (l : Ledger T) (n count : Nat) (d : AcknowledgementDisposition) (t : SynchronizationState)
      (h : Acknowledged n l.synchronization d t)
      (hcount : l.clientHistory.checkpoints.get? t.knownReceiverState = some count) :
      Step l
        { l with
          synchronization := t
          clientHistory := l.clientHistory.trim t.knownReceiverState count }
  /-- A remote state is constructed from one of the references. -/
  | construct (l : Ledger T) (plan : ApplyPlan) (commit : ReceiveCommit) (t : SynchronizationState) (terminal : T)
      (hp : Applicable l.synchronization plan) (h : Constructed l.synchronization plan commit t) :
      Step l
        { l with
          synchronization := t
          terminalStates := SessionDriver.discardTerminalStates commit.discardBeforeState
            commit.capacityEvictedState (l.terminalStates.insert plan.targetState terminal) }

/-- A sequence of steps, none of which accepts an operation. -/
abbrev Reaches : Ledger T → Ledger T → Prop := Relation.ReflTransGen Step

/-- The client accepts an operation and allocates a state for it; without an operation, nothing happens. -/
def advance (l : Ledger T) : Option ClientOperation → Ledger T
  | some operation => (l.accept operation).allocate
  | none => l

/-- A step of the session. -/
inductive Move : Ledger T → Ledger T → Prop where
  | accept (l : Ledger T) (operation : ClientOperation) : Move l (l.accept operation)
  | step {l l' : Ledger T} (h : Step l l') : Move l l'

/-- A sequence of steps. -/
abbrev Runs : Ledger T → Ledger T → Prop := Relation.ReflTransGen Move

/-! ### The invariant -/

/-- The terminal states are kept for the references of the synchronization state, and for no others. -/
def Mirrored (l : Ledger T) : Prop :=
  ∀ n, n ∈ l.terminalStates.keys ↔ n ∈ l.synchronization.receivedStates

/-- What holds of the ledger between any two steps. -/
structure Sound (l : Ledger T) : Prop where
  sender : SenderSound l.synchronization
  receiver : ReceiverSound l.synchronization
  bookkept : l.clientHistory.Bookkept l.synchronization
  mirrored : l.Mirrored

variable {l l' : Ledger T}

theorem Sound.accept (hl : l.Sound) (operation : ClientOperation) : (l.accept operation).Sound :=
  ⟨hl.sender, hl.receiver, hl.bookkept.extend operation, hl.mirrored⟩

theorem mem_keys_discard {m : OrderedMap Nat T} {floor n : Nat} {evicted : Option Nat} :
    n ∈ (SessionDriver.discardTerminalStates floor evicted m).keys ↔ n ∈ m.keys ∧ floor ≤ n ∧ evicted ≠ some n := by
  unfold SessionDriver.discardTerminalStates
  cases evicted with
  | none => simp [OrderedMap.mem_keys_retain]
  | some e => simp [OrderedMap.mem_keys_remove, OrderedMap.mem_keys_retain, and_assoc, eq_comm]

/-- The driver drops the terminal states that the synchronization state drops. -/
theorem Mirrored.construct {plan : ApplyPlan} {commit : ReceiveCommit} {t : SynchronizationState} {terminal : T}
    (hm : l.Mirrored) (h : Constructed l.synchronization plan commit t) (n : Nat) :
    n ∈ (SessionDriver.discardTerminalStates commit.discardBeforeState commit.capacityEvictedState
      (l.terminalStates.insert plan.targetState terminal)).keys ↔ n ∈ t.receivedStates := by
  rw [mem_keys_discard, OrderedMap.mem_keys_insert, hm n, h.mem_iff n, h.discard]
  constructor
  · rintro ⟨rfl | hn, hfloor, hne⟩
    · exact Or.inl rfl
    · exact Or.inr ⟨hn, hfloor, hne⟩
  · rintro (rfl | ⟨hn, hfloor, hne⟩)
    · exact ⟨Or.inl rfl, h.floor_le, h.target_kept⟩
    · exact ⟨Or.inr hn, hfloor, hne⟩

theorem Sound.step (hl : l.Sound) (h : Step l l') : l'.Sound := by
  obtain ⟨hsender, hreceiver, hbook, hmirror⟩ := hl
  cases h with
  | allocate =>
    have hsame : SameReceiver l.synchronization l.allocate.synchronization := ⟨rfl, rfl, rfl, rfl⟩
    exact ⟨hsender.advance, hsame.sound hreceiver, hbook.allocate hsender, hmirror⟩
  | transmit m h => exact ⟨hsender, hreceiver, hbook, hmirror⟩
  | skip sequence rest hrest => exact ⟨hsender, hreceiver, hbook, hmirror⟩
  | encrypt sequence h rest hrest => exact ⟨hsender, hreceiver, hbook, hmirror⟩
  | commit evicted t h =>
    refine ⟨hsender.commit h, h.receiver.sound hreceiver, hbook.commit hsender h, fun n => ?_⟩
    simp only [h.receiver.received]
    exact hmirror n
  | acknowledge n count d t h hcount =>
    refine ⟨h.senderSound hsender, h.sameReceiver.sound hreceiver, hbook.acknowledge hsender h hcount, fun n => ?_⟩
    simp only [h.sameReceiver.received]
    exact hmirror n
  | construct plan commit t terminal hp h =>
    exact ⟨h.sender.sound hsender, h.sound, hbook.sameSender h.sender, hmirror.construct h⟩

theorem Sound.advance (hl : l.Sound) (operation : Option ClientOperation) : (l.advance operation).Sound := by
  cases operation with
  | none => exact hl
  | some operation => exact (hl.accept operation).step (.allocate _)

theorem runs_advance (l : Ledger T) (operation : Option ClientOperation) : Runs l (l.advance operation) := by
  cases operation with
  | none => exact .refl
  | some operation => exact .tail (.single (.accept l operation)) (.step (.allocate _))

theorem Sound.move (hl : l.Sound) (h : Move l l') : l'.Sound := by
  cases h with
  | accept operation => exact hl.accept operation
  | step h => exact hl.step h

end Ledger
end MoshClient
