import MoshClient.Fragment
import MoshClient.Lib.Checked
import MoshClient.Packet

/-! The writes of `encode` (`fragment.rs`) and `seal` (`packet.rs`) into the buffer of their caller, one slice after the
    other and with the places where they would panic. -/

namespace MoshClient
open Machine Limits Checked

namespace Fragment

def encodeInto (m : Fragment) (output : Bytes) : Except Fault (Except FragmentError (Nat × Bytes)) :=
  if m.number > maxFragmentNumber then .ok (.error .fragmentNumberOutOfRange)
  else if m.body.length > maxFragmentBodyBytes then .ok (.error .bodyTooLarge)
  else
    let encodedLen := fragmentHeaderBytes + m.body.length
    if output.length < encodedLen then .ok (.error .outputTooSmall)
    else do
      let output ← copyFromSlice output 0 2 (toBigEndian 2 m.timestamp)
      let output ← copyFromSlice output 2 4 (toBigEndian 2 (m.timestampReply.getD noTimestampReply))
      let output ← copyFromSlice output 4 12 (toBigEndian 8 m.identifier)
      let fragmentWord := m.number ||| if m.isFinal then finalFragmentBit else 0
      let output ← copyFromSlice output 12 14 (toBigEndian 2 fragmentWord)
      let output ← copyFromSlice output fragmentHeaderBytes encodedLen m.body
      return .ok (encodedLen, output)

end Fragment

namespace PacketCodec

/-- The body is copied into the buffer and sealed there. -/
def sealInto (crypto : SessionCrypto) (direction : Direction) (sequence : Nat) (plaintext output : Bytes)
    (nonces : List Bytes) : Except Fault (EStateM.Result PacketError (List Bytes) (Nat × Bytes)) :=
  if sequence > maxSequence then .ok (.error .invalidSequence nonces)
  else if plaintext.length > maxPlaintextBytes then .ok (.error .plaintextTooLarge nonces)
  else
    let datagramLen := overheadBytes + plaintext.length
    if output.length < datagramLen then .ok (.error .outputTooSmall nonces)
    else do
      let header := headerBytes direction sequence
      let output ← copyFromSlice output 0 packetHeaderBytes header
      let bodyEnd := packetHeaderBytes + plaintext.length
      let output ← copyFromSlice output packetHeaderBytes bodyEnd plaintext
      let body := (output.take bodyEnd).drop packetHeaderBytes
      let nonces := nonces ++ [nonce header]
      match crypto.sealBody (nonce header) body with
      | none => return .error .plaintextTooLarge nonces
      | some (sealed, tag) => do
        let output ← copyFromSlice output packetHeaderBytes bodyEnd sealed
        let output ← copyFromSlice output bodyEnd datagramLen tag
        return .ok (datagramLen, output) nonces

end PacketCodec
end MoshClient
