import MoshClient.Instruction
import MoshClient.Vt100.State

/-! The differences of the server (`terminal/mod.rs`): their Protocol Buffers messages, and the operations that one
    which is accepted lists. -/

namespace MoshClient.Vt100
open Wire Limits

/-! ### Messages -/

/-- The message has the tag of the client's `TerminalBytes`. -/
abbrev WireHostBytes := TerminalBytes

/-- The message has the tags of the client's `TerminalSize`. -/
abbrev WireHostSize := TerminalSize

structure WireEchoAcknowledgement where
  number : Nat
  deriving DecidableEq, Repr

structure WireHostOperation where
  hostBytes : Option WireHostBytes
  size : Option WireHostSize
  echoAcknowledgement : Option WireEchoAcknowledgement
  deriving DecidableEq, Repr

structure WireHostDifference where
  operations : List WireHostOperation
  deriving DecidableEq, Repr

def WireEchoAcknowledgement.fields (m : WireEchoAcknowledgement) : List Field := numberField 8 m.number

def WireHostOperation.fields (m : WireHostOperation) : List Field :=
  (m.hostBytes.toList.map fun b => ⟨2, .bytes (encodeFields (TerminalBytes.fields b))⟩) ++
    (m.size.toList.map fun s => ⟨3, .bytes (encodeFields (TerminalSize.fields s))⟩) ++
      m.echoAcknowledgement.toList.map fun e => ⟨7, .bytes (encodeFields e.fields)⟩

def WireHostDifference.fields (m : WireHostDifference) : List Field :=
  m.operations.map fun operation => ⟨1, .bytes (encodeFields operation.fields)⟩

def WireHostDifference.encodeToVec (m : WireHostDifference) : Bytes := encodeFields m.fields

def WireEchoAcknowledgement.merge (m : WireEchoAcknowledgement) : Field → Option WireEchoAcknowledgement
  | ⟨8, .varint n⟩ => some { m with number := n }
  | ⟨8, _⟩ => none
  | _ => some m

def WireHostOperation.merge (m : WireHostOperation) : Field → Option WireHostOperation
  | ⟨2, .bytes b⟩ => do
    let fields ← decodeFields b
    let hostBytes ← fields.foldlM TerminalBytes.merge (m.hostBytes.getD ⟨[]⟩)
    some { m with hostBytes := some hostBytes }
  | ⟨3, .bytes b⟩ => do
    let fields ← decodeFields b
    let size ← fields.foldlM TerminalSize.merge (m.size.getD ⟨0, 0⟩)
    some { m with size := some size }
  | ⟨7, .bytes b⟩ => do
    let fields ← decodeFields b
    let echo ← fields.foldlM WireEchoAcknowledgement.merge (m.echoAcknowledgement.getD ⟨0⟩)
    some { m with echoAcknowledgement := some echo }
  | ⟨2, _⟩ => none
  | ⟨3, _⟩ => none
  | ⟨7, _⟩ => none
  | _ => some m

def WireHostDifference.merge (m : WireHostDifference) : Field → Option WireHostDifference
  | ⟨1, .bytes b⟩ => do
    let fields ← decodeFields b
    let operation ← fields.foldlM WireHostOperation.merge ⟨none, none, none⟩
    some { m with operations := m.operations ++ [operation] }
  | ⟨1, _⟩ => none
  | _ => some m

def WireHostDifference.decode (bytes : Bytes) : Option WireHostDifference := do
  let fields ← decodeFields bytes
  fields.foldlM WireHostDifference.merge ⟨[]⟩

/-! ### Decoding -/

def WireHostOperation.knownFields (m : WireHostOperation) : Nat :=
  m.hostBytes.isSome.toNat + m.size.isSome.toNat + m.echoAcknowledgement.isSome.toNat

/-- The operations with what one message adds to them. -/
def WireHostOperation.push (operations : List TerminalOperation) (m : WireHostOperation) :
    Except TerminalError (List TerminalOperation) :=
  if m.knownFields ≠ 1 then .error .invalidOperation
  else
    match m.hostBytes, m.size, m.echoAcknowledgement with
    | some hostBytes, _, _ => .ok (operations ++ [.hostBytes hostBytes.bytes])
    | none, some size, _ => .ok (operations ++ [.resize size.columns size.rows])
    | none, none, some echo => .ok (operations ++ [.echoAcknowledgement echo.number])
    | none, none, none => .ok operations

namespace TerminalDifference

def decode (bytes : Bytes) : Except TerminalError TerminalDifference :=
  if bytes.length > maxStateDifferenceBytes then .error .differenceTooLarge
  else
    match WireHostDifference.decode bytes with
    | none => .error .invalidMessage
    | some wire =>
      if wire.operations.length > maxTerminalOperationsPerDifference then .error .tooManyOperations
      else do
        let operations ← wire.operations.foldlM WireHostOperation.push []
        return ⟨operations⟩

def latestEchoAcknowledgement (self : TerminalDifference) : Option Nat :=
  self.operations.reverse.findSome? fun operation =>
    match operation with
    | .echoAcknowledgement number => some number
    | _ => none

end TerminalDifference

end MoshClient.Vt100
