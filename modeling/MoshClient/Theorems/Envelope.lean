import MoshClient.Envelope
import MoshClient.Theorems.Sealing

/-! The envelope of a datagram. A fragment is read back from the bytes it is written as, and these from the fragment;
    and a sealed fragment is opened with its sequence number, in either direction. -/

namespace MoshClient
open Machine Limits Effect Checked

/-! ### Fragments -/

namespace Fragment

/-- The fields fit the widths they have on the wire, and the reply is not the one that stands for none. -/
structure InRange (m : Fragment) : Prop where
  timestamp : m.timestamp < 2 ^ 16
  reply : ∀ reply, m.timestampReply = some reply → reply < 2 ^ 16 ∧ reply ≠ noTimestampReply
  identifier : m.identifier < 2 ^ 64
  number : m.number ≤ maxFragmentNumber
  body : m.body.length ≤ maxFragmentBodyBytes

variable {m : Fragment}

theorem word_eq (m : Fragment) :
    (m.number ||| if m.isFinal then finalFragmentBit else 0) = withFlag 15 m.number m.isFinal := rfl

theorem length_toBytes (m : Fragment) : m.toBytes.length = fragmentHeaderBytes + m.body.length := by
  simp only [toBytes, List.length_append, length_toBigEndian, fragmentHeaderBytes]

theorem encode_of_inRange (hm : m.InRange) {output : Bytes} (hroom : fragmentHeaderBytes + m.body.length ≤ output.length) :
    m.encode output =
      .ok (fragmentHeaderBytes + m.body.length, m.toBytes ++ output.drop (fragmentHeaderBytes + m.body.length)) := by
  unfold encode
  rw [if_neg (Nat.not_lt.mpr hm.number), if_neg (Nat.not_lt.mpr hm.body)]
  simp only [if_neg (Nat.not_lt.mpr hroom)]

theorem encode_ok {output written : Bytes} {len : Nat} (h : m.encode output = .ok (len, written)) :
    len = fragmentHeaderBytes + m.body.length ∧ written.take len = m.toBytes := by
  unfold encode at h
  split at h
  · cases h
  · split at h
    · cases h
    · simp only at h
      split at h
      · cases h
      · cases h
        exact ⟨rfl, List.take_left' (length_toBytes m)⟩

/-- The writes do not panic, and together they are the bytes of the fragment over the front of the buffer. -/
theorem encodeInto_eq (m : Fragment) (output : Bytes) : m.encodeInto output = .ok (m.encode output) := by
  unfold encodeInto encode
  split
  · rfl
  · split
    · rfl
    · simp only
      split
      · rfl
      · rename_i hroom
        have hlength : fragmentHeaderBytes + m.body.length ≤ output.length := Nat.le_of_not_lt hroom
        simp only [fragmentHeaderBytes] at hlength
        -- The slices follow each other, so each write finds the buffer written up to where it starts.
        show (copyFromSlice ([] ++ output) 0 2 _ >>= _) = _
        rw [copyFromSlice_bind, copyFromSlice_bind, copyFromSlice_bind, copyFromSlice_bind, copyFromSlice_bind]
        · simp only [List.drop_drop, length_toBigEndian, toBytes, List.nil_append]
          rfl
        all_goals
          simp only [List.length_append, List.length_nil, List.length_drop, length_toBigEndian, fragmentHeaderBytes]
          try omega

theorem InRange.number_lt (hm : m.InRange) : m.number < 2 ^ 15 := by
  have hmax : maxFragmentNumber = 2 ^ 15 - 1 := rfl
  have hnumber := hm.number
  omega

theorem InRange.reply_lt (hm : m.InRange) : m.timestampReply.getD noTimestampReply < 2 ^ 16 := by
  cases hreply : m.timestampReply with
  | none => decide
  | some reply => exact (hm.reply reply hreply).1

/-- A fragment is read back from its bytes. -/
theorem decode_toBytes (hm : m.InRange) : decode m.toBytes = .ok m := by
  have hlength := length_toBytes m
  have hbody : m.toBytes.drop fragmentHeaderBytes = m.body := by
    rw [toBytes, List.drop_left' (by simp [fragmentHeaderBytes])]
  have htimestamp : m.toBytes.take 2 = toBigEndian 2 m.timestamp := by simp [toBytes, List.append_assoc]
  have hreply : (m.toBytes.drop 2).take 2 = toBigEndian 2 (m.timestampReply.getD noTimestampReply) := by
    simp [toBytes, List.append_assoc]
  have hidentifier : (m.toBytes.drop 4).take 8 = toBigEndian 8 m.identifier := by
    simp [toBytes, List.append_assoc, List.drop_append, List.drop_eq_nil_of_le]
  have hword : (m.toBytes.drop 12).take 2 = toBigEndian 2 (withFlag 15 m.number m.isFinal) := by
    simp [toBytes, List.append_assoc, List.drop_append, List.drop_eq_nil_of_le, word_eq]
  unfold decode
  rw [if_neg (by rw [hlength]; omega), hbody]
  simp only [if_neg (Nat.not_lt.mpr hm.body), htimestamp, hreply, hidentifier, hword,
    ofBigEndian_toBigEndian (k := 2) hm.timestamp, ofBigEndian_toBigEndian (k := 2) hm.reply_lt,
    ofBigEndian_toBigEndian (k := 8) hm.identifier, ofBigEndian_toBigEndian (k := 2) (withFlag_lt hm.number_lt m.isFinal)]
  have hnumber : withFlag 15 m.number m.isFinal &&& maxFragmentNumber = m.number :=
    withFlag_and_number hm.number_lt m.isFinal
  have hfinal : (withFlag 15 m.number m.isFinal &&& finalFragmentBit != 0) = m.isFinal := by
    have hflag : withFlag 15 m.number m.isFinal &&& finalFragmentBit = if m.isFinal then 2 ^ 15 else 0 :=
      withFlag_and_flag hm.number_lt m.isFinal
    rw [hflag]
    cases m.isFinal <;> rfl
  have hreplied : (if m.timestampReply.getD noTimestampReply ≠ noTimestampReply then
      some (m.timestampReply.getD noTimestampReply) else none) = m.timestampReply := by
    cases hsome : m.timestampReply with
    | none => rfl
    | some reply => exact if_pos (hm.reply reply hsome).2
  rw [hnumber, hfinal, hreplied]

/-- The fragment in the bytes of a plaintext. -/
def read (plaintext : Bytes) : Fragment where
  timestamp := readBigEndian plaintext 0 2
  timestampReply := if readBigEndian plaintext 2 2 ≠ noTimestampReply then some (readBigEndian plaintext 2 2) else none
  identifier := readBigEndian plaintext 4 8
  number := readBigEndian plaintext 12 2 &&& maxFragmentNumber
  isFinal := readBigEndian plaintext 12 2 &&& finalFragmentBit != 0
  body := plaintext.drop fragmentHeaderBytes

theorem decode_ok {plaintext : Bytes} (h : decode plaintext = .ok m) :
    fragmentHeaderBytes ≤ plaintext.length ∧ (plaintext.drop fragmentHeaderBytes).length ≤ maxFragmentBodyBytes ∧
      m = read plaintext := by
  unfold decode at h
  split at h
  · cases h
  · rename_i hshort
    simp only at h
    split at h
    · cases h
    · rename_i hbody
      exact ⟨Nat.le_of_not_lt hshort, Nat.le_of_not_lt hbody, (Except.ok.inj h).symm⟩

theorem inRange_read {plaintext : Bytes} (hheader : fragmentHeaderBytes ≤ plaintext.length)
    (hbody : (plaintext.drop fragmentHeaderBytes).length ≤ maxFragmentBodyBytes) : (read plaintext).InRange := by
  simp only [fragmentHeaderBytes] at hheader
  refine ⟨readBigEndian_lt (by omega), ?_, readBigEndian_lt (by omega), Nat.and_le_right, hbody⟩
  intro reply hreply
  simp only [read] at hreply
  split at hreply
  · cases hreply
    exact ⟨readBigEndian_lt (by omega), ‹_›⟩
  · cases hreply

theorem toBytes_read {plaintext : Bytes} (hheader : fragmentHeaderBytes ≤ plaintext.length) :
    (read plaintext).toBytes = plaintext := by
  simp only [fragmentHeaderBytes] at hheader
  have hreply : (read plaintext).timestampReply.getD noTimestampReply = readBigEndian plaintext 2 2 := by
    by_cases h : readBigEndian plaintext 2 2 = noTimestampReply <;> simp [read, h]
  have hword : withFlag 15 (read plaintext).number (read plaintext).isFinal = readBigEndian plaintext 12 2 :=
    withFlag_of_lt (readBigEndian_lt (by omega))
  rw [toBytes, hreply, word_eq, hword]
  simp only [List.append_assoc]
  calc toBigEndian 2 (readBigEndian plaintext 0 2) ++ (toBigEndian 2 (readBigEndian plaintext 2 2) ++
        (toBigEndian 8 (readBigEndian plaintext 4 8) ++
          (toBigEndian 2 (readBigEndian plaintext 12 2) ++ plaintext.drop 14)))
      = plaintext.drop 0 := by
        rw [toBigEndian_readBigEndian (i := 12) (by omega), toBigEndian_readBigEndian (i := 4) (by omega),
          toBigEndian_readBigEndian (i := 2) (by omega), toBigEndian_readBigEndian (i := 0) (by omega)]
    _ = plaintext := rfl

end Fragment

/-! ### Datagrams -/

/-- What is sealed is opened as it was. -/
def SessionCrypto.Inverts (crypto : SessionCrypto) : Prop :=
  ∀ nonce body sealed tag, crypto.sealBody nonce body = some (sealed, tag) → crypto.openBody nonce sealed tag = some body

namespace PacketCodec

/-- The sealed body is written over the plaintext, and the tag behind it. -/
theorem write_sealed {header plaintext sealed tag rest : Bytes} {α : Type} (f : Bytes → Except Fault α)
    (hheader : header.length = packetHeaderBytes) (hsealed : sealed.length = plaintext.length)
    (htag : tag.length = tagBytes) (hroom : tagBytes ≤ rest.length) :
    (do
      let output ← copyFromSlice (header ++ plaintext ++ rest) packetHeaderBytes (packetHeaderBytes + plaintext.length) sealed
      let output ← copyFromSlice output (packetHeaderBytes + plaintext.length) (overheadBytes + plaintext.length) tag
      f output) = f (header ++ sealed ++ tag ++ rest.drop tagBytes) := by
  rw [List.append_assoc, copyFromSlice_bind _ hheader (by rw [hsealed]) (by rw [List.length_append]; omega), hsealed,
    List.drop_left, copyFromSlice_bind, htag]
  · rw [List.length_append, hheader, hsealed]
  · rw [htag, overheadBytes]
    omega
  · rw [htag]
    exact hroom

/-- The writes do not panic, and together they are the datagram over the front of the buffer. -/
theorem sealInto_eq (crypto : SessionCrypto) (direction : Direction) (sequence : Nat) (plaintext output : Bytes)
    (nonces : List Bytes) :
    sealInto crypto direction sequence plaintext output nonces =
      .ok (sealPacket crypto direction sequence plaintext output nonces) := by
  unfold sealInto sealPacket
  split
  · rfl
  · split
    · rfl
    · simp only
      split
      · rfl
      · rename_i hroom
        have hlength : overheadBytes + plaintext.length ≤ output.length := Nat.le_of_not_lt hroom
        have hheader : (headerBytes direction sequence).length = packetHeaderBytes := length_toBigEndian _ _
        rw [overheadBytes] at hlength
        show (copyFromSlice ([] ++ output) 0 packetHeaderBytes _ >>= _) = _
        rw [copyFromSlice_bind _ List.length_nil (by rw [hheader, Nat.zero_add]) (by omega), List.nil_append,
          copyFromSlice_bind _ hheader rfl (by rw [List.length_drop]; omega)]
        have hbody : ((headerBytes direction sequence ++ plaintext ++
            (output.drop (headerBytes direction sequence).length).drop plaintext.length).take
              (packetHeaderBytes + plaintext.length)).drop packetHeaderBytes = plaintext := by
          rw [List.take_left' (by rw [List.length_append, hheader]), List.drop_left' hheader]
        simp only [hbody]
        cases hsealed : crypto.sealBody (nonce (headerBytes direction sequence)) plaintext with
        | none => rfl
        | some result =>
          obtain ⟨hbodyLength, htagLength⟩ := crypto.sealBody_length _ _ result.1 result.2 hsealed
          have hrest : (headerBytes direction sequence).length + (plaintext.length + tagBytes) =
              overheadBytes + plaintext.length := by
            rw [hheader, overheadBytes]
            omega
          simp only
          rw [write_sealed _ hheader hbodyLength htagLength (by simp only [List.length_drop]; omega), List.drop_drop,
            List.drop_drop, hrest]
          rfl

theorem sealPacket_of_sealBody {crypto : SessionCrypto} {direction : Direction} {sequence : Nat}
    {plaintext output sealed tag : Bytes} (nonces : List Bytes) (hsequence : sequence ≤ maxSequence)
    (hplaintext : plaintext.length ≤ maxPlaintextBytes) (hroom : overheadBytes + plaintext.length ≤ output.length)
    (hsealed : crypto.sealBody (nonce (headerBytes direction sequence)) plaintext = some (sealed, tag)) :
    sealPacket crypto direction sequence plaintext output nonces =
      .ok (overheadBytes + plaintext.length,
        headerBytes direction sequence ++ sealed ++ tag ++ output.drop (overheadBytes + plaintext.length))
        (nonces ++ [nonce (headerBytes direction sequence)]) := by
  unfold sealPacket
  rw [if_neg (Nat.not_lt.mpr hsequence), if_neg (Nat.not_lt.mpr hplaintext)]
  simp only [if_neg (Nat.not_lt.mpr hroom), hsealed]

/-- A header is taken apart by the direction bit and the mask of the sequence number. -/
theorem header_and (direction : Direction) {sequence : Nat} (h : sequence ≤ maxSequence) :
    ofBigEndian (headerBytes direction sequence) &&& directionMask = direction.headerBit ∧
      ofBigEndian (headerBytes direction sequence) &&& maxSequence = sequence := by
  have hlt : sequence < 2 ^ 63 := by
    have := maxSequence_eq
    omega
  have hheader : direction.headerBit ||| sequence = withFlag 63 sequence (direction == .serverToClient) := by
    rw [Nat.or_comm]
    cases direction <;> rfl
  rw [headerBytes, hheader, ofBigEndian_toBigEndian (withFlag_lt hlt _)]
  refine ⟨(withFlag_and_flag hlt _).trans ?_, withFlag_and_number hlt _⟩
  cases direction <;> rfl

theorem length_sealed {crypto : SessionCrypto} {direction : Direction} {sequence : Nat} {plaintext sealed tag : Bytes}
    (hsealed : crypto.sealBody (nonce (headerBytes direction sequence)) plaintext = some (sealed, tag)) :
    (headerBytes direction sequence ++ sealed ++ tag).length = overheadBytes + plaintext.length := by
  obtain ⟨hbody, htag⟩ := crypto.sealBody_length _ _ _ _ hsealed
  have hheader : (headerBytes direction sequence).length = packetHeaderBytes := length_toBigEndian _ _
  simp only [List.length_append, hheader, hbody, htag, overheadBytes]
  omega

/-- A plaintext within its limit makes a datagram within its own. -/
theorem fits_of_plaintext {plaintext : Bytes} (h : plaintext.length ≤ maxPlaintextBytes) :
    overheadBytes + plaintext.length ≤ maxDatagramBytes := by
  have hmax : overheadBytes ≤ maxDatagramBytes := by decide
  rw [maxPlaintextBytes] at h
  omega

/-- A sealed packet is opened with its sequence number and its plaintext. -/
theorem openPacket_sealed {crypto : SessionCrypto} (hcrypto : crypto.Inverts) {direction : Direction} {sequence : Nat}
    {plaintext sealed tag : Bytes} (hsequence : sequence ≤ maxSequence) (hplaintext : plaintext.length ≤ maxPlaintextBytes)
    (hsealed : crypto.sealBody (nonce (headerBytes direction sequence)) plaintext = some (sealed, tag)) :
    openPacket crypto direction (headerBytes direction sequence ++ sealed ++ tag) = .ok ⟨sequence, plaintext⟩ := by
  obtain ⟨hbody, -⟩ := crypto.sealBody_length _ _ _ _ hsealed
  obtain ⟨hdirection, hnumber⟩ := header_and direction hsequence
  have hheader : (headerBytes direction sequence).length = packetHeaderBytes := length_toBigEndian _ _
  have hfits := fits_of_plaintext hplaintext
  have hlength := length_sealed hsealed
  have htake : (headerBytes direction sequence ++ sealed ++ tag).take packetHeaderBytes = headerBytes direction sequence := by
    rw [List.append_assoc, List.take_left' hheader]
  have hend : (headerBytes direction sequence ++ sealed).length = overheadBytes + plaintext.length - tagBytes := by
    rw [List.length_append, hheader, hbody, overheadBytes]
    omega
  unfold openPacket
  rw [hlength, if_neg (by omega), if_neg (by omega), htake]
  simp only [hdirection, hnumber, ne_eq, not_true_eq_false, if_false]
  rw [List.take_left' hend, List.drop_left' hend, List.drop_left' hheader, hcrypto _ _ _ _ hsealed]

end PacketCodec

namespace PacketReceiver

/-- The receiver returns what the codec opens, when the replay window accepts its sequence number. -/
theorem openPacket_of_codec {crypto : SessionCrypto} {datagram : Bytes} {packet : OpenedPacket} {self : PacketReceiver}
    {replay : ReplayWindow} (hopen : PacketCodec.openPacket crypto self.direction datagram = .ok packet)
    (haccept : ReplayWindow.accept packet.sequence self.replay = .ok () replay) :
    openPacket crypto datagram self = .ok packet { self with replay := replay } := by
  have hwp : wp (openPacket crypto datagram) (fun opened t => opened = packet ∧ t = { self with replay := replay })
      (fun _ _ => False) self := by
    rw [openPacket, wp_bind, wp_get, wp_bind, wp_ofExcept, hopen]
    refine ⟨fun opened hopened => ?_, fun e he => by cases he⟩
    cases hopened
    rw [wp_bind, wp_zoom, wp_of_ok haccept]
    exact ⟨rfl, rfl⟩
  obtain ⟨opened, t, hopened, rfl, rfl⟩ := hwp.returns
  exact hopened

end PacketReceiver

/-- The envelope of a datagram goes both ways. A fragment that is written is read back, whatever lies behind it in the
    buffer stays, and no write panics; a plaintext that is read is written back. A fragment that is sealed, with any
    sequence number that the replay window of the receiver accepts, fits a datagram and is opened as it was. -/
theorem envelope_round_trip {crypto : SessionCrypto} (hcrypto : crypto.Inverts) :
    (∀ (m : Fragment) (output : Bytes), m.InRange → fragmentHeaderBytes + m.body.length ≤ output.length →
      ∃ written, m.encodeInto output = .ok (.ok (fragmentHeaderBytes + m.body.length, written)) ∧
        written.length = output.length ∧
        Fragment.decode (written.take (fragmentHeaderBytes + m.body.length)) = .ok m ∧
        written.drop (fragmentHeaderBytes + m.body.length) = output.drop (fragmentHeaderBytes + m.body.length)) ∧
    (∀ (plaintext : Bytes) (m : Fragment), Fragment.decode plaintext = .ok m →
      m.InRange ∧ ∀ output : Bytes, plaintext.length ≤ output.length →
        ∃ written, m.encodeInto output = .ok (.ok (plaintext.length, written)) ∧
          written.take plaintext.length = plaintext) ∧
    ∀ (m : Fragment) (output written : Bytes) (len : Nat), m.InRange → m.encodeInto output = .ok (.ok (len, written)) →
      ∀ (direction : Direction) (sequence : Nat) (buffer : Bytes) (nonces : List Bytes) (receiver : PacketReceiver)
        (replay : ReplayWindow), sequence ≤ maxSequence → overheadBytes + len ≤ buffer.length →
        receiver.direction = direction → ReplayWindow.accept sequence receiver.replay = .ok () replay →
        crypto.sealBody (nonce (PacketCodec.headerBytes direction sequence)) (written.take len) ≠ none →
        ∃ datagramLen datagram nonces',
          PacketCodec.sealInto crypto direction sequence (written.take len) buffer nonces =
            .ok (.ok (datagramLen, datagram) nonces') ∧
          datagramLen ≤ maxDatagramBytes ∧
          PacketReceiver.openPacket crypto (datagram.take datagramLen) receiver =
            .ok ⟨sequence, written.take len⟩ { receiver with replay := replay } ∧
          Fragment.decode (written.take len) = .ok m := by
  refine ⟨?_, ?_, ?_⟩
  · intro m output hm hroom
    have hlength := m.length_toBytes
    refine ⟨_, by rw [m.encodeInto_eq, Fragment.encode_of_inRange hm hroom], ?_, ?_, ?_⟩
    · rw [List.length_append, List.length_drop, hlength]
      omega
    · rw [List.take_left' hlength, Fragment.decode_toBytes hm]
    · rw [List.drop_left' hlength]
  · intro plaintext m hdecode
    obtain ⟨hheader, hbody, rfl⟩ := Fragment.decode_ok hdecode
    have hm := Fragment.inRange_read hheader hbody
    have hbytes := Fragment.toBytes_read hheader
    have hlength := (Fragment.read plaintext).length_toBytes
    rw [hbytes] at hlength
    refine ⟨hm, fun output hroom => ?_⟩
    refine ⟨_, by rw [Fragment.encodeInto_eq, Fragment.encode_of_inRange hm (hlength ▸ hroom), hbytes, ← hlength], ?_⟩
    exact List.take_left
  · intro m output written len hm hencode direction sequence buffer nonces receiver replay hsequence hroom hdirection
      haccept hseals
    subst hdirection
    rw [m.encodeInto_eq] at hencode
    obtain ⟨rfl, hplaintext⟩ := Fragment.encode_ok (Except.ok.inj hencode)
    rw [hplaintext] at hseals ⊢
    obtain ⟨⟨sealed, tag⟩, hsealed⟩ := Option.ne_none_iff_exists'.mp hseals
    have hlength := m.length_toBytes
    have hlimit : m.toBytes.length ≤ maxPlaintextBytes := by
      have hmax : fragmentHeaderBytes + maxFragmentBodyBytes ≤ maxPlaintextBytes := by decide
      have hbody := hm.body
      omega
    have hpacket := PacketCodec.sealPacket_of_sealBody nonces hsequence hlimit (hlength ▸ hroom) hsealed
    refine ⟨_, _, _, (PacketCodec.sealInto_eq _ _ _ _ _ _).trans (congrArg Except.ok hpacket),
      PacketCodec.fits_of_plaintext hlimit, ?_, Fragment.decode_toBytes hm⟩
    · rw [List.take_left' (PacketCodec.length_sealed hsealed)]
      exact PacketReceiver.openPacket_of_codec (PacketCodec.openPacket_sealed hcrypto hsequence hlimit hsealed) haccept

theorem inverts_plain : SessionCrypto.plain.Inverts := by
  intro nonce body sealed tag hsealed
  cases hsealed
  simp [SessionCrypto.plain]

/-- An empty final fragment, in a buffer with six bytes behind it, and sealed for the client under the number 5. -/
theorem envelope_round_trip_plain :
    ∃ written, Fragment.encodeInto ⟨7, none, 3, 0, true, []⟩ (List.replicate 20 9) = .ok (.ok (14, written)) ∧
      written.drop 14 = List.replicate 6 9 ∧
      ∃ datagramLen datagram nonces,
        PacketCodec.sealInto .plain .serverToClient 5 (written.take 14) (List.replicate 40 0) [] =
          .ok (.ok (datagramLen, datagram) nonces) ∧
        PacketReceiver.openPacket .plain (datagram.take datagramLen) (PacketReceiver.new .serverToClient) =
          .ok ⟨5, written.take 14⟩ ⟨.serverToClient, ⟨some 5, 1⟩⟩ := by
  have hm : Fragment.InRange ⟨7, none, 3, 0, true, []⟩ := by
    refine ⟨by decide, ?_, by decide, by decide, by decide⟩
    intro reply hreply
    cases hreply
  obtain ⟨hwrite, -, hseal⟩ := envelope_round_trip inverts_plain
  obtain ⟨written, hencode, -, -, hrest⟩ := hwrite ⟨7, none, 3, 0, true, []⟩ (List.replicate 20 9) hm (by decide)
  obtain ⟨datagramLen, datagram, nonces, hsealed, -, hopened, -⟩ := hseal _ _ written 14 hm hencode .serverToClient 5
    (List.replicate 40 0) [] (PacketReceiver.new .serverToClient) ⟨some 5, 1⟩ (by decide) (by decide) rfl rfl
    (Option.some_ne_none _)
  exact ⟨written, hencode, hrest, datagramLen, datagram, nonces, hsealed, hopened⟩

end MoshClient
