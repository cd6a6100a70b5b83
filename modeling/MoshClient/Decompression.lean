import MoshClient.Instruction
import MoshClient.Lib.Checked

/-! The loop of `decompress_exact_zlib` (`instruction.rs`), with its buffer and with the places where it would panic. -/

namespace MoshClient
open Limits Checked

/-- The variables of the loop. -/
structure DecompressionLoop (z : Inflate) where
  output : Bytes
  chunk : Bytes
  state : z.State
  consumed : Nat

namespace DecompressionLoop

variable {z : Inflate}

def start (z : Inflate) : DecompressionLoop z := ⟨[], List.replicate decompressionChunkBytes 0, z.start, 0⟩

/-- What a round does with the result of its call: the loop returns, or goes on. -/
def advance (compressed : Bytes) (self : DecompressionLoop z) (result : InflateResult z.State) :
    Except Fault (DecompressionLoop z ⊕ Except InstructionError Bytes) := do
  let chunk := result.written ++ self.chunk.drop result.written.length
  let written ← sliceTo chunk result.written.length
  let output := self.output ++ written
  let consumed := self.consumed + result.bytesConsumed
  match result.status with
  | .streamEnd =>
    if consumed ≠ compressed.length then .ok (.inr (.error .trailingCompressedData)) else .ok (.inr (.ok output))
  | .ok =>
    if result.bytesConsumed ≠ 0 ∨ result.written.length ≠ 0 then .ok (.inl ⟨output, chunk, result.state, consumed⟩)
    else .ok (.inr (.error .invalidCompression))
  | .needDict => .ok (.inr (.error .invalidCompression))
  | .failed => .ok (.inr (.error .invalidCompression))

/-- One round of the loop. -/
def round (compressed : Bytes) (self : DecompressionLoop z) :
    Except Fault (DecompressionLoop z ⊕ Except InstructionError Bytes) := do
  let remaining ← sub maxDecompressedInstructionBytes self.output.length
  let writable ← clamp remaining 1 self.chunk.length
  let input ← sliceFrom compressed self.consumed
  let window ← sliceTo self.chunk writable
  let result := z.inflate self.state input window.length
  if result.written.length > remaining then .ok (.inr (.error .decodedTooLarge))
  else self.advance compressed result

/-- The call of `inflate` that a round makes. -/
def call (compressed : Bytes) (self : DecompressionLoop z) : InflateResult z.State :=
  z.inflate self.state (compressed.drop self.consumed)
    (max 1 (min (maxDecompressedInstructionBytes - self.output.length) self.chunk.length))

/-- The loop, begun with these variables, makes these calls and then returns this result. -/
inductive Runs (compressed : Bytes) :
    DecompressionLoop z → List (InflateResult z.State) → Except InstructionError Bytes → Prop where
  | returns {self : DecompressionLoop z} {result : Except InstructionError Bytes}
      (hround : self.round compressed = .ok (.inr result)) : Runs compressed self [self.call compressed] result
  | again {self next : DecompressionLoop z} {calls : List (InflateResult z.State)} {result : Except InstructionError Bytes}
      (hround : self.round compressed = .ok (.inl next)) (hrest : Runs compressed next calls result) :
      Runs compressed self (self.call compressed :: calls) result

end DecompressionLoop
end MoshClient
