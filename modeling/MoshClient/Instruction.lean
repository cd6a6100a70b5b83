import MoshClient.Lib.Wire
import MoshClient.Lib.Machine
import MoshClient.Limits

/-! Transport instructions and client differences (`instruction.rs`): their Protocol Buffers messages,
    the limits on what the client sends, and the zlib layer. -/

namespace MoshClient
open Wire Limits

abbrev Bytes := List UInt8

def protocolVersion : Nat := 2

/-- The reserved target of a shutdown. -/
def shutdownState : Nat := Machine.u64Max

inductive InstructionError where
  | invalidTerminalSize
  | decodedTooLarge
  | compressedTooLarge
  | invalidCompression
  | trailingCompressedData
  | invalidMessage
  | incompatibleVersion
  | inputTooLarge
  | tooManyClientOperations
  | stateDifferenceTooLarge
  deriving DecidableEq, Repr

inductive ClientOperation where
  | input (bytes : Bytes)
  | resize (columns rows : Nat)
  deriving DecidableEq, Repr

structure TransportInstruction where
  protocolVersion : Nat
  baseState : Nat
  newState : Nat
  acknowledgedState : Nat
  discardBeforeState : Nat
  stateDifference : Bytes
  chaff : Bytes
  deriving DecidableEq, Repr

/-! ### Client differences -/

structure TerminalBytes where
  bytes : Bytes
  deriving DecidableEq, Repr

structure TerminalSize where
  columns : Nat
  rows : Nat
  deriving DecidableEq, Repr

structure TerminalOperation where
  bytesOperation : Option TerminalBytes
  initialSize : Option TerminalSize
  deriving DecidableEq, Repr

structure TerminalDifference where
  operations : List TerminalOperation
  deriving DecidableEq, Repr

/-- A number field; proto3 leaves out zero. -/
def numberField (number n : Nat) : List Field := if n = 0 then [] else [⟨number, .varint n⟩]

/-- A byte string field; proto3 leaves out the empty string. -/
def bytesField (number : Nat) (bytes : Bytes) : List Field := if bytes = [] then [] else [⟨number, .bytes bytes⟩]

def TerminalBytes.fields (m : TerminalBytes) : List Field := bytesField 4 m.bytes

def TerminalSize.fields (m : TerminalSize) : List Field := numberField 5 m.columns ++ numberField 6 m.rows

def TerminalOperation.fields (m : TerminalOperation) : List Field :=
  (m.bytesOperation.toList.map fun b => ⟨2, .bytes (encodeFields b.fields)⟩) ++
    m.initialSize.toList.map fun s => ⟨3, .bytes (encodeFields s.fields)⟩

def TerminalDifference.fields (m : TerminalDifference) : List Field :=
  m.operations.map fun op => ⟨1, .bytes (encodeFields op.fields)⟩

def TerminalDifference.encodeToVec (m : TerminalDifference) : Bytes := encodeFields m.fields

/-- The message of one operation, when the operation is within the limits. -/
def ClientOperation.toWire : ClientOperation → Except InstructionError TerminalOperation
  | .input bytes =>
    if bytes.length > maxInputCommandBytes then .error .inputTooLarge
    else .ok ⟨some ⟨bytes⟩, none⟩
  | .resize columns rows =>
    if columns = 0 ∨ columns > maxTerminalColumns ∨ rows = 0 ∨ rows > maxTerminalRows then
      .error .invalidTerminalSize
    else .ok ⟨none, some ⟨columns, rows⟩⟩

def wireOperations : List ClientOperation → Except InstructionError (List TerminalOperation)
  | [] => .ok []
  | operation :: rest =>
    match operation.toWire with
    | .error e => .error e
    | .ok wire =>
      match wireOperations rest with
      | .error e => .error e
      | .ok wires => .ok (wire :: wires)

def encodeClientDifference (operations : List ClientOperation) : Except InstructionError Bytes :=
  if operations.length > maxClientOperationsAfterAck then .error .tooManyClientOperations
  else
    match wireOperations operations with
    | .error e => .error e
    | .ok wires =>
      let difference := (TerminalDifference.mk wires).encodeToVec
      if difference.length > maxStateDifferenceBytes then .error .stateDifferenceTooLarge
      else .ok difference

/-! ### Reading a client difference by its schema -/

def TerminalBytes.merge (m : TerminalBytes) : Field → Option TerminalBytes
  | ⟨4, .bytes b⟩ => some { m with bytes := b }
  | ⟨4, _⟩ => none
  | _ => some m

def TerminalSize.merge (m : TerminalSize) : Field → Option TerminalSize
  | ⟨5, .varint n⟩ => some { m with columns := n % 2 ^ 32 }
  | ⟨6, .varint n⟩ => some { m with rows := n % 2 ^ 32 }
  | ⟨5, _⟩ => none
  | ⟨6, _⟩ => none
  | _ => some m

def TerminalOperation.merge (m : TerminalOperation) : Field → Option TerminalOperation
  | ⟨2, .bytes b⟩ => do
    let fields ← decodeFields b
    let bytes ← fields.foldlM TerminalBytes.merge (m.bytesOperation.getD ⟨[]⟩)
    some { m with bytesOperation := some bytes }
  | ⟨3, .bytes b⟩ => do
    let fields ← decodeFields b
    let size ← fields.foldlM TerminalSize.merge (m.initialSize.getD ⟨0, 0⟩)
    some { m with initialSize := some size }
  | ⟨2, _⟩ => none
  | ⟨3, _⟩ => none
  | _ => some m

def TerminalDifference.merge (m : TerminalDifference) : Field → Option TerminalDifference
  | ⟨1, .bytes b⟩ => do
    let fields ← decodeFields b
    let operation ← fields.foldlM TerminalOperation.merge ⟨none, none⟩
    some { m with operations := m.operations ++ [operation] }
  | ⟨1, _⟩ => none
  | _ => some m

def TerminalDifference.decode (bytes : Bytes) : Option TerminalDifference := do
  let fields ← decodeFields bytes
  fields.foldlM TerminalDifference.merge ⟨[]⟩

/-- The operation a message stands for: its input or its size, and not both. -/
def TerminalOperation.toClient : TerminalOperation → Option ClientOperation
  | ⟨some b, none⟩ => some (.input b.bytes)
  | ⟨none, some s⟩ => some (.resize s.columns s.rows)
  | _ => none

/-- What a peer reads from a client difference: the operations it lists, in order. -/
def decodeClientDifference (bytes : Bytes) : Option (List ClientOperation) := do
  let difference ← TerminalDifference.decode bytes
  difference.operations.mapM TerminalOperation.toClient

/-! ### Instructions on the wire -/

namespace TransportInstruction

def isShutdown (m : TransportInstruction) : Bool := m.newState == shutdownState

def fields (m : TransportInstruction) : List Field :=
  numberField 1 m.protocolVersion ++ numberField 2 m.baseState ++ numberField 3 m.newState ++
    numberField 4 m.acknowledgedState ++ numberField 5 m.discardBeforeState ++
    bytesField 6 m.stateDifference ++ bytesField 7 m.chaff

def encodeToVec (m : TransportInstruction) : Bytes := encodeFields m.fields

def merge (m : TransportInstruction) : Field → Option TransportInstruction
  | ⟨1, .varint n⟩ => some { m with protocolVersion := n % 2 ^ 32 }
  | ⟨2, .varint n⟩ => some { m with baseState := n }
  | ⟨3, .varint n⟩ => some { m with newState := n }
  | ⟨4, .varint n⟩ => some { m with acknowledgedState := n }
  | ⟨5, .varint n⟩ => some { m with discardBeforeState := n }
  | ⟨6, .bytes b⟩ => some { m with stateDifference := b }
  | ⟨7, .bytes b⟩ => some { m with chaff := b }
  | ⟨number, _⟩ => if 1 ≤ number ∧ number ≤ 7 then none else some m

def decode (bytes : Bytes) : Option TransportInstruction := do
  let fields ← decodeFields bytes
  fields.foldlM merge ⟨0, 0, 0, 0, 0, [], []⟩

end TransportInstruction

inductive InflateStatus where
  | streamEnd
  | ok
  | needDict
  | failed
  deriving DecidableEq, Repr

structure InflateResult (State : Type) where
  state : State
  bytesConsumed : Nat
  written : Bytes
  status : InflateStatus

/-- A streaming inflater, which consumes at most its input and writes at most the buffer it is given. -/
structure Inflate where
  State : Type
  start : State
  inflate : State → Bytes → Nat → InflateResult State
  consumed_le : ∀ s input n, (inflate s input n).bytesConsumed ≤ input.length
  written_le : ∀ s input n, (inflate s input n).written.length ≤ n

/-- The zlib library: compression at the client's level, whose output has at least the header and the
    checksum of the format, and streaming decompression. -/
structure Zlib where
  compressToVecZlib : Bytes → Bytes
  compressToVecZlib_ne_nil : ∀ bytes, compressToVecZlib bytes ≠ []
  inflater : Inflate

def decompressionChunkBytes : Nat := 16 * 1024

def decompressFrom (z : Inflate) (compressed : Bytes) (state : z.State) (consumed : Nat) (output : Bytes) :
    Except InstructionError Bytes :=
  let remaining := maxDecompressedInstructionBytes - output.length
  let writable := max 1 (min remaining decompressionChunkBytes)
  let result := z.inflate state (compressed.drop consumed) writable
  if result.written.length > remaining then .error .decodedTooLarge
  else
    match result.status with
    | .streamEnd =>
      if consumed + result.bytesConsumed ≠ compressed.length then .error .trailingCompressedData
      else .ok (output ++ result.written)
    | .ok =>
      if result.bytesConsumed ≠ 0 ∨ result.written.length ≠ 0 then
        decompressFrom z compressed result.state (consumed + result.bytesConsumed) (output ++ result.written)
      else .error .invalidCompression
    | .needDict => .error .invalidCompression
    | .failed => .error .invalidCompression
termination_by (compressed.length - consumed) + (maxDecompressedInstructionBytes - output.length)
decreasing_by
  -- Every round that goes on has consumed input or written output, and what it wrote fits the limit.
  have hc : result.bytesConsumed ≤ (compressed.drop consumed).length := z.consumed_le _ _ _
  rw [List.length_drop] at hc
  show (compressed.length - (consumed + result.bytesConsumed)) +
    (maxDecompressedInstructionBytes - (output ++ result.written).length) < _
  rw [List.length_append]
  omega

def decompressExactZlib (z : Inflate) (compressed : Bytes) : Except InstructionError Bytes :=
  decompressFrom z compressed z.start 0 []

def TransportInstruction.encodeZlib (zlib : Zlib) (m : TransportInstruction) : Except InstructionError Bytes :=
  if m.encodeToVec.length > maxDecompressedInstructionBytes then .error .decodedTooLarge
  else
    let compressed := zlib.compressToVecZlib m.encodeToVec
    if compressed.length > maxCompressedInstructionBytes then .error .compressedTooLarge
    else .ok compressed

def TransportInstruction.decodeZlib (zlib : Zlib) (compressed : Bytes) :
    Except InstructionError TransportInstruction :=
  if compressed.length > maxCompressedInstructionBytes then .error .compressedTooLarge
  else
    match decompressExactZlib zlib.inflater compressed with
    | .error e => .error e
    | .ok decoded =>
      match TransportInstruction.decode decoded with
      | none => .error .invalidMessage
      | some instruction =>
        if instruction.protocolVersion ≠ MoshClient.protocolVersion then .error .incompatibleVersion
        else .ok instruction

end MoshClient
