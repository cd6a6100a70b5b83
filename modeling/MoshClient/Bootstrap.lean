import MoshClient.Lib.Base64
import MoshClient.Limits
import MoshClient.Packet

/-! The bootstrap exchange (`bootstrap.rs`): the parser of what the server prints. -/

namespace MoshClient
open Limits

inductive BootstrapError where
  | outputTooLarge
  | tooManyLines
  | missingConnectRecord
  | ambiguousConnectRecord
  | malformedConnectRecord
  | invalidPort
  | invalidKey
  deriving DecidableEq, Repr

/-- The endpoint of the server, and the key of the session. -/
structure Bootstrap where
  serverAddr : SocketAddrV4
  sessionKey : Bytes
  deriving DecidableEq, Repr

/-! ### Bytes -/

def lineFeed : UInt8 := 10
def carriageReturn : UInt8 := 13
def space : UInt8 := 32

/-- The two words of a connect record, `MOSH` and `CONNECT`. -/
def moshWord : Bytes := [77, 79, 83, 72]
def connectWord : Bytes := [67, 79, 78, 78, 69, 67, 84]

def isAsciiWhitespace (b : UInt8) : Bool := b == 9 || b == 10 || b == 12 || b == 13 || b == 32

def isAsciiDigit (b : UInt8) : Bool := decide (48 ≤ b.toNat) && decide (b.toNat ≤ 57)

/-- The pieces that end with a separator, and what is left behind the last one. -/
def splitInclusive (separator : UInt8) : Bytes → List Bytes
  | [] => []
  | b :: rest =>
    if b = separator then [b] :: splitInclusive separator rest
    else
      match splitInclusive separator rest with
      | [] => [[b]]
      | piece :: pieces => (b :: piece) :: pieces

def stripSuffix (suffix : UInt8) (bytes : Bytes) : Option Bytes :=
  if bytes.getLast? = some suffix then some bytes.dropLast else none

/-! ### Records -/

def physicalLineCount (output : Bytes) : Nat :=
  if output = [] then 0 else output.count lineFeed + if output.getLast? = some lineFeed then 0 else 1

def looksLikeConnectRecord (line : Bytes) : Bool :=
  match (line.splitOnP isAsciiWhitespace).filter fun word => !word.isEmpty with
  | first :: second :: _ => first == moshWord && second == connectWord
  | _ => false

def parsePort (bytes : Bytes) : Except BootstrapError Nat :=
  if bytes.length > 5 || !bytes.all isAsciiDigit then .error .invalidPort
  else
    let port := bytes.foldl (fun port byte => port * 10 + (byte.toNat - 48)) 0
    if port < 2 ^ 16 ∧ port ≠ 0 then .ok port else .error .invalidPort

def parseConnectRecord (record : Bytes) : Except BootstrapError (Nat × Bytes) :=
  if record.any fun byte => isAsciiWhitespace byte && byte != space then .error .malformedConnectRecord
  else
    match record.splitOn space with
    | [first, second, port, encodedKey] =>
      if first ≠ moshWord ∨ second ≠ connectWord then .error .malformedConnectRecord
      else if port.isEmpty || encodedKey.isEmpty then .error .malformedConnectRecord
      else do
        let port ← parsePort port
        if encodedKey.length ≠ encodedKeyBytes then .error .invalidKey
        else
          match Base64.decodeSlice encodedKey decodedKeyBytes with
          | none => .error .invalidKey
          | some decodedKey => if decodedKey.length ≠ decodedKeyBytes then .error .invalidKey else .ok (port, decodedKey)
    | _ => .error .malformedConnectRecord

namespace Bootstrap

/-- A line without its end: a carriage return belongs to the end of a line that is terminated. -/
def line (rawLine : Bytes) : Bytes :=
  match stripSuffix lineFeed rawLine with
  | some line => (stripSuffix carriageReturn line).getD line
  | none => rawLine

/-- The line that looks like a record, if there is one; a second one is an error. -/
def findCandidate : Option Bytes → List Bytes → Except BootstrapError (Option Bytes)
  | candidate, [] => .ok candidate
  | candidate, rawLine :: rest =>
    if looksLikeConnectRecord (line rawLine) then
      if candidate.isSome then .error .ambiguousConnectRecord else findCandidate (some (line rawLine)) rest
    else findCandidate candidate rest

def parse (serverAddress : Nat) (output : Bytes) : Except BootstrapError Bootstrap :=
  if output.length > maxBootstrapBytes then .error .outputTooLarge
  else if physicalLineCount output > maxBootstrapLines then .error .tooManyLines
  else do
    match ← findCandidate none (splitInclusive lineFeed output) with
    | none => .error .missingConnectRecord
    | some record => do
      let (port, sessionKey) ← parseConnectRecord record
      return ⟨⟨serverAddress, port⟩, sessionKey⟩

end Bootstrap
end MoshClient
