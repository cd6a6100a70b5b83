import MoshClient.Lib.Effect
import MoshClient.Lib.OrderedMap
import MoshClient.Instruction

/-! Fragments of compressed instructions (`fragment.rs`): their header, and the reassembler, which
    retains at most one incomplete instruction. -/

namespace MoshClient
open Machine Limits Effect

def fragmentHeaderBytes : Nat := 2 + 2 + 8 + 2
def finalFragmentBit : Nat := 1 <<< 15
def maxFragmentNumber : Nat := finalFragmentBit - 1
def noTimestampReply : Nat := 2 ^ 16 - 1

inductive FragmentError where
  | tooShort
  | bodyTooLarge
  | fragmentNumberOutOfRange
  | outputTooSmall
  deriving DecidableEq, Repr

inductive ReassemblyError where
  | fragmentNumberOutOfRange
  | conflictingFragment
  | instructionTooLarge
  | tooManyIncompleteInstructions
  | timeMovedBackwards
  | timerExhausted
  deriving DecidableEq, Repr

inductive ReassemblyOutcome where
  | pending
  | duplicate
  | complete (compressed : Bytes)
  deriving DecidableEq, Repr

structure Fragment where
  timestamp : Nat
  timestampReply : Option Nat
  identifier : Nat
  number : Nat
  isFinal : Bool
  body : Bytes
  deriving DecidableEq, Repr

namespace Fragment

/-- The header and body of a fragment on the wire. -/
def toBytes (m : Fragment) : Bytes :=
  toBigEndian 2 m.timestamp ++ toBigEndian 2 (m.timestampReply.getD noTimestampReply) ++
    toBigEndian 8 m.identifier ++ toBigEndian 2 (m.number ||| if m.isFinal then finalFragmentBit else 0) ++ m.body

/-- Writes a fragment at the start of `output` and returns its length with the new buffer. -/
def encode (m : Fragment) (output : Bytes) : Except FragmentError (Nat × Bytes) :=
  if m.number > maxFragmentNumber then .error .fragmentNumberOutOfRange
  else if m.body.length > maxFragmentBodyBytes then .error .bodyTooLarge
  else
    let encodedLen := fragmentHeaderBytes + m.body.length
    if output.length < encodedLen then .error .outputTooSmall
    else .ok (encodedLen, m.toBytes ++ output.drop encodedLen)

def decode (plaintext : Bytes) : Except FragmentError Fragment :=
  if plaintext.length < fragmentHeaderBytes then .error .tooShort
  else
    let body := plaintext.drop fragmentHeaderBytes
    if body.length > maxFragmentBodyBytes then .error .bodyTooLarge
    else
      let rawReply := ofBigEndian ((plaintext.drop 2).take 2)
      let fragmentWord := ofBigEndian ((plaintext.drop 12).take 2)
      .ok
        { timestamp := ofBigEndian (plaintext.take 2)
          timestampReply := if rawReply ≠ noTimestampReply then some rawReply else none
          identifier := ofBigEndian ((plaintext.drop 4).take 8)
          number := fragmentWord &&& maxFragmentNumber
          isFinal := fragmentWord &&& finalFragmentBit != 0
          body := body }

end Fragment

/-! ### The incomplete instruction -/

structure StoredFragment where
  body : Bytes
  isFinal : Bool
  deriving DecidableEq, Repr

structure IncompleteInstruction where
  identifier : Nat
  createdAtMs : Nat
  storedBytes : Nat
  finalNumber : Option Nat
  fragments : OrderedMap Nat StoredFragment
  deriving DecidableEq

inductive InsertKind where
  | new
  | duplicate
  deriving DecidableEq, Repr

namespace IncompleteInstruction

def new (identifier createdAtMs : Nat) : IncompleteInstruction := ⟨identifier, createdAtMs, 0, none, .empty⟩

/-- The fragment contradicts what is known of the final fragment: it comes after it, or it is a second
    final fragment, or a final one before a stored fragment. -/
def conflicts (self : IncompleteInstruction) (fragment : Fragment) : Bool :=
  (self.finalNumber.any fun finalNumber => decide (fragment.number > finalNumber)) ||
    (fragment.isFinal &&
      (self.finalNumber.isSome || self.fragments.keys.getLast?.any fun number => decide (number > fragment.number)))

def classify (self : IncompleteInstruction) (fragment : Fragment) : Except ReassemblyError InsertKind :=
  match self.fragments.get? fragment.number with
  | some existing =>
    if existing.body = fragment.body ∧ existing.isFinal = fragment.isFinal then .ok .duplicate
    else .error .conflictingFragment
  | none => if self.conflicts fragment then .error .conflictingFragment else .ok .new

def insert (self : IncompleteInstruction) (fragment : Fragment) : IncompleteInstruction :=
  { self with
    finalNumber := if fragment.isFinal then some fragment.number else self.finalNumber
    storedBytes := self.storedBytes + fragment.body.length
    fragments := self.fragments.insert fragment.number ⟨fragment.body, fragment.isFinal⟩ }

def isComplete (self : IncompleteInstruction) : Bool :=
  match self.finalNumber with
  | none => false
  | some finalNumber =>
    self.fragments.size == finalNumber + 1 && self.fragments.keys == List.range (finalNumber + 1)

def assemble (self : IncompleteInstruction) : Bytes := (self.fragments.values.map StoredFragment.body).flatten

end IncompleteInstruction

/-! ### The reassembler -/

structure FragmentReassembler where
  incomplete : Option IncompleteInstruction
  lastObservedMs : Nat
  deriving DecidableEq

/-- A method that may change the reassembler. -/
abbrev Reassembling := EStateM ReassemblyError FragmentReassembler

namespace FragmentReassembler

def new (startedAtMs : Nat) : FragmentReassembler := ⟨none, startedAtMs⟩

def observeTime (nowMs : Nat) : Reassembling Unit := fun self =>
  if nowMs < self.lastObservedMs then .error .timeMovedBackwards self
  else .ok () { self with lastObservedMs := nowMs }

def expireDue (nowMs : Nat) : Reassembling Nat := fun self =>
  match self.incomplete with
  | none => .ok 0 self
  | some instruction =>
    match checkedAdd instruction.createdAtMs incompleteInstructionLifetimeMs with
    | none => .error .timerExhausted self
    | some deadline => if deadline ≤ nowMs then .ok 1 { self with incomplete := none } else .ok 0 self

/-- A fragment whose identifier is not that of the retained instruction. A whole instruction in one
    fragment passes through; any other needs the slot to be free. -/
def pushUnmatched (nowMs : Nat) (fragment : Fragment) : Reassembling ReassemblyOutcome := fun self =>
  if fragment.number = 0 ∧ fragment.isFinal then
    if fragment.body.length ≤ maxCompressedInstructionBytes then .ok (.complete fragment.body) self
    else .error .instructionTooLarge self
  else if self.incomplete.isSome then .error .tooManyIncompleteInstructions self
  else if fragment.body.length > maxCompressedInstructionBytes then .error .instructionTooLarge self
  else
    .ok .pending
      { self with incomplete := some ((IncompleteInstruction.new fragment.identifier nowMs).insert fragment) }

/-- A fragment of the retained instruction. -/
def pushMatched (instruction : IncompleteInstruction) (fragment : Fragment) : Reassembling ReassemblyOutcome :=
  fun self =>
  match instruction.classify fragment with
  | .error e => .error e { self with incomplete := none }
  | .ok .duplicate => .ok .duplicate self
  | .ok .new =>
    if instruction.storedBytes + fragment.body.length > maxCompressedInstructionBytes then
      .error .instructionTooLarge self
    else
      let inserted := instruction.insert fragment
      if inserted.isComplete then .ok (.complete inserted.assemble) { self with incomplete := none }
      else .ok .pending { self with incomplete := some inserted }

/-- Stores a fragment once the time has been observed. -/
def pushDue (nowMs : Nat) (fragment : Fragment) : Reassembling ReassemblyOutcome := fun self =>
  if fragment.number ≥ maxFragmentsPerInstruction then .error .fragmentNumberOutOfRange self
  else
    match self.incomplete with
    | none => pushUnmatched nowMs fragment self
    | some instruction =>
      if instruction.identifier = fragment.identifier then pushMatched instruction fragment self
      else pushUnmatched nowMs fragment self

def push (nowMs : Nat) (fragment : Fragment) : Reassembling ReassemblyOutcome := do
  observeTime nowMs
  let _ ← expireDue nowMs
  pushDue nowMs fragment

def expire (nowMs : Nat) : Reassembling Nat := do
  observeTime nowMs
  expireDue nowMs

def clear : Reassembling Nat := fun self => .ok (if self.incomplete.isSome then 1 else 0) { self with incomplete := none }

end FragmentReassembler
end MoshClient
