import Mathlib.Data.BitVec
import MoshClient.Lib.Effect
import MoshClient.Lib.Machine
import MoshClient.Instruction

/-! Datagrams (`packet.rs`): the packet codec over the session's AEAD, the receive side with its replay
    window, and the send sequence. -/

namespace MoshClient
open Machine Limits Effect

def packetHeaderBytes : Nat := 8
def tagBytes : Nat := 16
def overheadBytes : Nat := packetHeaderBytes + tagBytes
def maxPlaintextBytes : Nat := maxDatagramBytes - overheadBytes
def maxSequence : Nat := 1 <<< 63 - 1
def directionMask : Nat := 1 <<< 63
def replayWindowBits : Nat := 64

inductive Direction where
  | clientToServer
  | serverToClient
  deriving DecidableEq, Repr

def Direction.headerBit : Direction → Nat
  | .clientToServer => 0
  | .serverToClient => directionMask

inductive PacketError where
  | datagramTooShort
  | datagramTooLarge
  | plaintextTooLarge
  | outputTooSmall
  | invalidSequence
  | wrongDirection
  | authenticationFailed
  | replay
  | tooOld
  | sequenceExhausted
  | unexpectedSource
  deriving DecidableEq, Repr

/-- The AEAD under the session's key. Sealing a body of some length gives as many bytes and a tag;
    opening gives the body back as it was, or fails. -/
structure SessionCrypto where
  sealBody : Bytes → Bytes → Option (Bytes × Bytes)
  openBody : Bytes → Bytes → Bytes → Option Bytes
  sealBody_length : ∀ nonce body sealed tag, sealBody nonce body = some (sealed, tag) →
    sealed.length = body.length ∧ tag.length = tagBytes
  openBody_length : ∀ nonce body tag opened, openBody nonce body tag = some opened → opened.length = body.length

/-- The nonce of a datagram header: four zero bytes, then the header. -/
def nonce (header : Bytes) : Bytes := List.replicate 4 0 ++ header

/-! ### The codec -/

/-- A sealing method: its state is the list of all nonces that the AEAD has sealed with. -/
abbrev Sealing := EStateM PacketError (List Bytes)

structure OpenedPacket where
  sequence : Nat
  plaintext : Bytes
  deriving DecidableEq, Repr

namespace PacketCodec

def headerBytes (direction : Direction) (sequence : Nat) : Bytes :=
  toBigEndian packetHeaderBytes (direction.headerBit ||| sequence)

/-- Writes a datagram at the start of `output` and returns its length with the new buffer. -/
def sealPacket (crypto : SessionCrypto) (direction : Direction) (sequence : Nat) (plaintext output : Bytes) :
    Sealing (Nat × Bytes) := fun nonces =>
  if sequence > maxSequence then .error .invalidSequence nonces
  else if plaintext.length > maxPlaintextBytes then .error .plaintextTooLarge nonces
  else
    let datagramLen := overheadBytes + plaintext.length
    if output.length < datagramLen then .error .outputTooSmall nonces
    else
      let header := headerBytes direction sequence
      let nonces := nonces ++ [nonce header]
      match crypto.sealBody (nonce header) plaintext with
      | none => .error .plaintextTooLarge nonces
      | some (sealed, tag) => .ok (datagramLen, header ++ sealed ++ tag ++ output.drop datagramLen) nonces

def openPacket (crypto : SessionCrypto) (expectedDirection : Direction) (datagram : Bytes) :
    Except PacketError OpenedPacket :=
  if datagram.length > maxDatagramBytes then .error .datagramTooLarge
  else if datagram.length < overheadBytes then .error .datagramTooShort
  else
    let headerBytes := datagram.take packetHeaderBytes
    let header := ofBigEndian headerBytes
    if header &&& directionMask ≠ expectedDirection.headerBit then .error .wrongDirection
    else
      let bodyEnd := datagram.length - tagBytes
      match crypto.openBody (nonce headerBytes) ((datagram.take bodyEnd).drop packetHeaderBytes)
          (datagram.drop bodyEnd) with
      | none => .error .authenticationFailed
      | some plaintext => .ok ⟨header &&& maxSequence, plaintext⟩

end PacketCodec

/-! ### The replay window -/

/-- The highest accepted sequence number, and a mask whose bit `d` says whether the number `d` below it
    was accepted. -/
structure ReplayWindow where
  highest : Option Nat
  seen : BitVec 64
  deriving DecidableEq, Repr

namespace ReplayWindow

def default : ReplayWindow := ⟨none, 0⟩

def accept (sequence : Nat) : EStateM PacketError ReplayWindow Unit := fun self =>
  match self.highest with
  | none => .ok () ⟨some sequence, 1⟩
  | some highest =>
    if sequence > highest then
      let shift := sequence - highest
      .ok () ⟨some sequence, if shift ≥ replayWindowBits then 1 else (self.seen <<< shift) ||| 1⟩
    else
      let distance := highest - sequence
      if distance ≥ replayWindowBits then .error .tooOld self
      else
        let bit := 1#64 <<< distance
        if self.seen &&& bit ≠ 0 then .error .replay self
        else .ok () { self with seen := self.seen ||| bit }

end ReplayWindow

/-! ### The receive side -/

structure SocketAddrV4 where
  ip : Nat
  port : Nat
  deriving DecidableEq, Repr

inductive SocketAddr where
  | v4 (addr : SocketAddrV4)
  | v6 (ip port flowinfo scopeId : Nat)
  deriving DecidableEq, Repr

structure PacketReceiver where
  direction : Direction
  replay : ReplayWindow
  deriving DecidableEq, Repr

namespace PacketReceiver

def new (direction : Direction) : PacketReceiver := ⟨direction, ReplayWindow.default⟩

def openPacket (crypto : SessionCrypto) (datagram : Bytes) : EStateM PacketError PacketReceiver OpenedPacket := do
  let self ← get
  let packet ← ofExcept id (PacketCodec.openPacket crypto self.direction datagram)
  zoom replay (fun replay self => { self with replay := replay }) id (ReplayWindow.accept packet.sequence)
  return packet

def openFrom (crypto : SessionCrypto) (expectedSource : SocketAddrV4) (actualSource : SocketAddr)
    (datagram : Bytes) : EStateM PacketError PacketReceiver OpenedPacket :=
  if actualSource ≠ .v4 expectedSource then throw .unexpectedSource else openPacket crypto datagram

end PacketReceiver

/-! ### The send sequence -/

/-- The next sequence number to send with, while one is left. -/
structure SendSequence where
  next : Option Nat
  deriving DecidableEq, Repr

namespace SendSequence

def new : SendSequence := ⟨some 0⟩

def take : EStateM PacketError SendSequence Nat := fun self =>
  match self.next with
  | none => .error .sequenceExhausted self
  | some sequence => .ok sequence ⟨(checkedAdd sequence 1).filter fun next => decide (next ≤ maxSequence)⟩

end SendSequence
end MoshClient
