import MoshClient.Theorems.Run

/-! Nonces. Each sequence number is taken once and in order, a nonce holds its direction and its sequence
    number, and without a sequence number nothing is sealed. -/

namespace MoshClient
open Machine Limits Effect Simulation

variable {T : Type} {p : Platform T}

/-- The nonce of the client's datagram with a sequence number. -/
def clientNonce (sequence : Nat) : Bytes := nonce (PacketCodec.headerBytes .clientToServer sequence)

theorem maxSequence_eq : maxSequence = 2 ^ 63 - 1 := by decide

theorem ofBigEndian_clientHeader {sequence : Nat} (h : sequence ≤ maxSequence) :
    ofBigEndian (PacketCodec.headerBytes .clientToServer sequence) = sequence := by
  have hmax := maxSequence_eq
  have hbit : Direction.headerBit .clientToServer ||| sequence = sequence := Nat.zero_or sequence
  rw [PacketCodec.headerBytes, hbit]
  exact ofBigEndian_toBigEndian (by simp only [packetHeaderBytes]; omega)

theorem clientNonce_inj {a b : Nat} (ha : a ≤ maxSequence) (hb : b ≤ maxSequence) (h : clientNonce a = clientNonce b) :
    a = b := by
  rw [← ofBigEndian_clientHeader ha, List.append_cancel_left h, ofBigEndian_clientHeader hb]

/-- A header with the direction bit set gives no nonce of the client. -/
theorem clientNonce_ne_server {sequence : Nat} (h : sequence ≤ maxSequence) {header : Bytes}
    (hheader : ofBigEndian header &&& directionMask = Direction.headerBit .serverToClient) :
    clientNonce sequence ≠ nonce header := by
  intro heq
  have hlt : sequence < 2 ^ 63 := by
    have := maxSequence_eq
    omega
  rw [← List.append_cancel_left heq, ofBigEndian_clientHeader h] at hheader
  have hmask : directionMask = 2 ^ 63 := by decide
  rw [Direction.headerBit, hmask, Nat.and_two_pow, Nat.testBit_lt_two_pow hlt] at hheader
  simp at hheader

/-! ### The sequence numbers of a run -/

namespace Ledger

/-- The sequence numbers that the session has sealed with, in order, and what is left of them. -/
structure Sealed (l : Ledger T) (sequences : List Nat) : Prop where
  nonces : l.nonces = sequences.map clientNonce
  increasing : sequences.Pairwise (· < ·)
  le_max : ∀ sequence ∈ sequences, sequence ≤ maxSequence
  next_le : ∀ next, l.sendSequence.next = some next → next ≤ maxSequence ∧ ∀ sequence ∈ sequences, sequence < next

variable {l l' : Ledger T} {sequences : List Nat}

theorem take_ok {s rest : SendSequence} {sequence : Nat} (h : SendSequence.take s = .ok sequence rest) :
    s.next = some sequence ∧ ∀ next, rest.next = some next → next = sequence + 1 ∧ next ≤ maxSequence := by
  unfold SendSequence.take at h
  split at h
  · cases h
  · rename_i q hnext
    cases h
    refine ⟨hnext, fun next hrest => ?_⟩
    obtain ⟨hadd, hle⟩ := Option.filter_eq_some_iff.mp hrest
    exact ⟨(checkedAdd_eq_some.mp hadd).1, of_decide_eq_true hle⟩

theorem Sealed.skip (hs : l.Sealed sequences) {sequence : Nat} {rest : SendSequence}
    (h : SendSequence.take l.sendSequence = .ok sequence rest) :
    Sealed { l with sendSequence := rest } sequences := by
  obtain ⟨hnext, hrest⟩ := take_ok h
  refine ⟨hs.nonces, hs.increasing, hs.le_max, fun next hn => ?_⟩
  obtain ⟨rfl, hle⟩ := hrest next hn
  exact ⟨hle, fun q hq => Nat.lt_succ_of_lt ((hs.next_le sequence hnext).2 q hq)⟩

theorem Sealed.encrypt (hs : l.Sealed sequences) {sequence : Nat} {rest : SendSequence}
    (h : SendSequence.take l.sendSequence = .ok sequence rest) (hmax : sequence ≤ maxSequence) :
    Sealed { l with sendSequence := rest, nonces := l.nonces ++ [clientNonce sequence] } (sequences ++ [sequence]) := by
  obtain ⟨hnext, hrest⟩ := take_ok h
  have hlt := (hs.next_le sequence hnext).2
  refine ⟨?_, ?_, fun q hq => ?_, fun next hn => ?_⟩
  · rw [List.map_append, ← hs.nonces]
    rfl
  · refine List.pairwise_append.mpr ⟨hs.increasing, List.pairwise_singleton _ _, fun a ha b hb => ?_⟩
    rw [List.mem_singleton.mp hb]
    exact hlt a ha
  · rcases List.mem_append.mp hq with hq | hq
    · exact hs.le_max q hq
    · rw [List.mem_singleton.mp hq]
      exact hmax
  · obtain ⟨rfl, hle⟩ := hrest next hn
    refine ⟨hle, fun q hq => ?_⟩
    rcases List.mem_append.mp hq with hq | hq
    · exact Nat.lt_succ_of_lt (hlt q hq)
    · rw [List.mem_singleton.mp hq]
      exact Nat.lt_succ_self sequence

theorem Sealed.move (hs : l.Sealed sequences) (h : Move l l') : ∃ sequences', l'.Sealed sequences' := by
  cases h with
  | accept operation => exact ⟨sequences, hs.nonces, hs.increasing, hs.le_max, hs.next_le⟩
  | step h =>
    cases h with
    | skip sequence rest hrest => exact ⟨_, hs.skip hrest⟩
    | encrypt sequence hmax rest hrest => exact ⟨_, hs.encrypt hrest hmax⟩
    | _ => exact ⟨sequences, hs.nonces, hs.increasing, hs.le_max, hs.next_le⟩

/-- Once the last sequence number has been used, there is none left. -/
theorem Sealed.exhausted (hs : l.Sealed sequences) (h : clientNonce maxSequence ∈ l.nonces) :
    l.sendSequence.next = none := by
  rw [hs.nonces] at h
  obtain ⟨sequence, hmem, heq⟩ := List.mem_map.mp h
  have hmax := clientNonce_inj (hs.le_max sequence hmem) (Nat.le_refl _) heq
  cases hnext : l.sendSequence.next with
  | none => rfl
  | some next =>
    obtain ⟨hle, hlt⟩ := hs.next_le next hnext
    have := hlt sequence hmem
    omega

end Ledger

/-! ### After the last sequence number -/

namespace SessionDriver

/-- A send that ends with an error before it comes to its first datagram. -/
inductive StoppedEarly (p : Platform T) (d : SessionDriver T) (m : TransportInstruction) (nowMs : Nat) :
    DriverError → Prop where
  | encoding (e : InstructionError) (h : m.encodeZlib p.zlib = .error e) : StoppedEarly p d m nowMs (.instruction e)
  | clock (h : nowMs < d.datagramTiming.lastObservedMs) : StoppedEarly p d m nowMs (.timing .timeMovedBackwards)
  | identifier (h : d.fragmentIdentifier.next = none) : StoppedEarly p d m nowMs .fragmentIdentifierExhausted

/-- Nothing was sealed and nothing was handed to the socket. -/
def Unsent (d t : SessionDriver T) : Prop :=
  t.trace.nonces = d.trace.nonces ∧ t.trace.datagrams = d.trace.datagrams

theorem encodeZlib_ne_nil {zlib : Zlib} {m : TransportInstruction} {compressed : Bytes}
    (h : m.encodeZlib zlib = .ok compressed) : compressed ≠ [] := by
  unfold TransportInstruction.encodeZlib at h
  split at h
  · cases h
  · simp only at h
    split at h
    · cases h
    · cases h
      exact zlib.compressToVecZlib_ne_nil _

/-- What is not empty has a first fragment, which fits a datagram. -/
theorem chunks_eq_cons {compressed : Bytes} (h : compressed ≠ []) :
    ∃ body rest, Chunks.chunks maxFragmentBodyBytes compressed = body :: rest ∧ body.length ≤ maxFragmentBodyBytes := by
  have hlen := List.length_pos_iff.mpr h
  obtain ⟨k, hk⟩ : ∃ k, Chunks.count maxFragmentBodyBytes compressed.length = k + 1 := by
    have := Chunks.length_le_count_mul (n := maxFragmentBodyBytes) (by decide) compressed.length
    refine ⟨Chunks.count maxFragmentBodyBytes compressed.length - 1, ?_⟩
    rcases Nat.eq_zero_or_pos (Chunks.count maxFragmentBodyBytes compressed.length) with h0 | h0
    · rw [h0] at this
      omega
    · omega
  refine ⟨Chunks.piece maxFragmentBodyBytes compressed 0,
    ((List.range k).map Nat.succ).map (Chunks.piece maxFragmentBodyBytes compressed), ?_, ?_⟩
  · rw [Chunks.chunks, hk, List.range_succ_eq_map]
    rfl
  · rw [Chunks.piece, List.length_take]
    exact Nat.min_le_left _ _

/-- The first fragment fits the buffer that it is encoded in. -/
theorem encode_first {m : Fragment} (hnumber : m.number = 0) (hbody : m.body.length ≤ maxFragmentBodyBytes) :
    m.encode (List.replicate maxDatagramBytes 0) = .ok (fragmentHeaderBytes + m.body.length,
      m.toBytes ++ (List.replicate maxDatagramBytes 0).drop (fragmentHeaderBytes + m.body.length)) := by
  unfold Fragment.encode
  rw [if_neg (by rw [hnumber]; decide), if_neg (Nat.not_lt.mpr hbody)]
  have hlen : ¬(List.replicate maxDatagramBytes (0 : UInt8)).length < fragmentHeaderBytes + m.body.length := by
    rw [List.length_replicate]
    simp only [maxDatagramBytes, fragmentHeaderBytes, maxFragmentBodyBytes] at hbody ⊢
    omega
  simp only [if_neg hlen]

/-- Without a sequence number, the first datagram is refused before it is sealed. -/
theorem wp_sendFragments_exhausted (env : Transmission) (timestamps : OutgoingTimestamps) (identifier fragmentCount : Nat)
    {body : Bytes} (rest : List Bytes) (hbody : body.length ≤ maxFragmentBodyBytes) {d : SessionDriver T}
    (hd : d.sendSequence.next = none) :
    wp (sendFragments p env timestamps identifier fragmentCount 0 (body :: rest))
      (fun outcome t => t = d ∧ outcome = .cancelled ∧ env.cancelled 0 = true)
      (fun e t => t = d ∧ e = .packet .sequenceExhausted) d := by
  have htake : SendSequence.take d.sendSequence = .error .sequenceExhausted d.sendSequence := by
    simp only [SendSequence.take, hd]
  rw [sendFragments, wp_ite]
  refine ⟨fun hcancelled => ⟨rfl, rfl, hcancelled⟩, fun _ => ?_⟩
  rw [wp_ite]
  refine ⟨fun h => absurd h (by decide), fun _ => ?_⟩
  rw [wp_bind, wp_ofExcept]
  refine ⟨fun plaintext _ => ?_, fun e he => ?_⟩
  · rw [wp_bind, onSendSequence, wp_zoom, wp_of_error htake]
    exact ⟨rfl, rfl⟩
  · rw [encode_first rfl hbody] at he
    cases he

/-- The driver when the fragments of an instruction are about to be sent. -/
def begun (d : SessionDriver T) (m : TransportInstruction) (nowMs identifier : Nat) : SessionDriver T :=
  { d with
    trace := { d.trace with transmitted := d.trace.transmitted ++ [m] }
    datagramTiming := { d.datagramTiming with lastObservedMs := nowMs }
    fragmentIdentifier := ⟨Machine.checkedAdd identifier 1⟩ }

/-- A send stops early, or comes to its fragments. -/
theorem wp_sendTransportInstruction {env : Transmission} {m : TransportInstruction} {nowMs : Nat} {d : SessionDriver T}
    {Q : TransportSendOutcome → SessionDriver T → Prop} {E : DriverError → SessionDriver T → Prop}
    (hstopped : ∀ e t, Unsent d t → StoppedEarly p d m nowMs e → E e t)
    (hfragments : ∀ compressed timestamps identifier, m.encodeZlib p.zlib = .ok compressed →
      d.fragmentIdentifier.next = some identifier →
      wp (sendFragments p env timestamps identifier (Chunks.count maxFragmentBodyBytes compressed.length) 0
        (Chunks.chunks maxFragmentBodyBytes compressed)) Q E (d.begun m nowMs identifier)) :
    wp (sendTransportInstruction p env m nowMs) Q E d := by
  rw [sendTransportInstruction, wp_bind, wp_modify, wp_bind, wp_ofExcept]
  refine ⟨fun compressed hcompressed => ?_, fun e he => hstopped _ _ ⟨rfl, rfl⟩ (.encoding e he)⟩
  rw [wp_bind, onDatagramTiming, wp_zoom, DatagramTiming.outgoing, wp_bind]
  refine (DatagramTiming.wp_observeTime nowMs d.datagramTiming).mono (fun _ timing htiming => ?_) fun e t he => ?_
  · subst htiming
    rw [wp_bind, wp_get, wp_pure, wp_bind, onFragmentIdentifier, wp_zoom]
    refine wp_intro (fun identifier next htake => ?_) fun e next htake => ?_
    · unfold InstructionIdentifier.take at htake
      split at htake
      · cases htake
      · rename_i hnext
        cases htake
        exact hfragments compressed _ identifier hcompressed hnext
    · unfold InstructionIdentifier.take at htake
      split at htake
      · rename_i hnone
        cases htake
        exact hstopped _ _ ⟨rfl, rfl⟩ (.identifier hnone)
      · cases htake
  · obtain ⟨rfl, rfl, hclock⟩ := he
    exact hstopped _ _ ⟨rfl, rfl⟩ (.clock hclock)

theorem wp_send_exhausted (p : Platform T) (env : Transmission) (m : TransportInstruction) (nowMs : Nat)
    {d : SessionDriver T} (hd : d.sendSequence.next = none) :
    wp (sendTransportInstruction p env m nowMs)
      (fun outcome t => Unsent d t ∧ outcome = .cancelled ∧ env.cancelled 0 = true)
      (fun e t => Unsent d t ∧ (e = .packet .sequenceExhausted ∨ StoppedEarly p d m nowMs e)) d := by
  refine wp_sendTransportInstruction (fun e t ht he => ⟨ht, Or.inr he⟩) fun compressed timestamps identifier hm _ => ?_
  obtain ⟨body, rest, hchunks, hbody⟩ := chunks_eq_cons (encodeZlib_ne_nil hm)
  have hbegun : (d.begun m nowMs identifier).sendSequence.next = none := hd
  rw [hchunks]
  refine (wp_sendFragments_exhausted env timestamps identifier _ rest hbody hbegun).mono (fun outcome t h => ?_)
    fun e t h => ?_
  · obtain ⟨rfl, hout⟩ := h
    exact ⟨⟨rfl, rfl⟩, hout⟩
  · obtain ⟨rfl, rfl⟩ := h
    exact ⟨⟨rfl, rfl⟩, Or.inl rfl⟩

/-! ### Every run -/

/-- The nonces of a session are distinct and of one direction, their sequence numbers go up to the limit,
    and at the limit no send seals anything: one that comes to its first datagram fails there. -/
structure NoncesFresh (p : Platform T) (d : SessionDriver T) : Prop where
  distinct : d.trace.nonces.Nodup
  oneDirection : ∀ header, ofBigEndian header &&& directionMask = Direction.headerBit .serverToClient →
    nonce header ∉ d.trace.nonces
  increasing : ∃ sequences : List Nat, d.trace.nonces = sequences.map clientNonce ∧ sequences.Pairwise (· < ·) ∧
    ∀ sequence ∈ sequences, sequence ≤ 2 ^ 63 - 1
  exhausted : clientNonce (2 ^ 63 - 1) ∈ d.trace.nonces → ∀ env m nowMs,
    wp (sendTransportInstruction p env m nowMs)
      (fun outcome t => Unsent d t ∧ outcome = .cancelled ∧ env.cancelled 0 = true)
      (fun e t => Unsent d t ∧ (e = .packet .sequenceExhausted ∨ StoppedEarly p d m nowMs e)) d

theorem noncesFresh_of_sealed {d : SessionDriver T} {sequences : List Nat} (hs : d.ledger.Sealed sequences) :
    NoncesFresh p d := by
  have hnonces : d.trace.nonces = sequences.map clientNonce := hs.nonces
  refine ⟨?_, fun header hheader hmem => ?_, ⟨sequences, hnonces, hs.increasing, ?_⟩, fun h env m nowMs => ?_⟩
  · rw [hnonces, List.Nodup, List.pairwise_map]
    refine hs.increasing.imp_of_mem fun ha hb hlt heq => ?_
    exact Nat.ne_of_lt hlt (clientNonce_inj (hs.le_max _ ha) (hs.le_max _ hb) heq)
  · rw [hnonces] at hmem
    obtain ⟨sequence, hsequence, heq⟩ := List.mem_map.mp hmem
    exact clientNonce_ne_server (hs.le_max sequence hsequence) hheader heq
  · rw [← maxSequence_eq]
    exact hs.le_max
  · rw [← maxSequence_eq] at h
    exact wp_send_exhausted p env m nowMs (hs.exhausted h)

/-- No run of the driver reuses a nonce, whatever is sent, abandoned, deferred, requested or acknowledged. -/
theorem nonces_never_reused (c : Connection p) (cs : List Call) :
    wp (calls p cs) (fun _ d => NoncesFresh p d) (fun _ d => NoncesFresh p d) c.driver := by
  have hstart : ∃ sequences, c.driver.ledger.Sealed sequences := by
    obtain ⟨initialTerminal, h⟩ := c.ledger_eq
    rw [h]
    refine ⟨[], rfl, List.Pairwise.nil, nofun, fun next hnext => ⟨?_, nofun⟩⟩
    cases hnext
    exact Nat.zero_le _
  refine (wp_calls c cs (I := fun l => ∃ sequences, l.Sealed sequences) hstart fun _ _ _ hs h => ?_).mono ?_ ?_
  · obtain ⟨_, hs⟩ := hs
    exact hs.move h
  · rintro _ d ⟨-, _, hs⟩
    exact noncesFresh_of_sealed hs
  · rintro _ d ⟨⟨-, _, hs⟩, -⟩
    exact noncesFresh_of_sealed hs

/-! ### A session at the limit -/

/-- A pass that sends a shutdown request, which the socket takes. -/
def requestPass : Call := .shutdownPass ⟨fun _ => false, fun _ => .ok 66, 0⟩ 0 ⟨1, 0⟩

/-- The small session after `n` shutdown requests: what the next request reads. -/
structure Requested (n : Nat) (d : SessionDriver Unit) : Prop where
  synchronization : d.synchronization = Connection.small.driver.synchronization
  clientHistory : d.clientHistory = Connection.small.driver.clientHistory
  datagramTiming : d.datagramTiming = Connection.small.driver.datagramTiming
  identifier : d.fragmentIdentifier.next = some n
  sequence : d.sendSequence.next = if n < 2 ^ 63 then some n else none
  last : n = 2 ^ 63 → clientNonce (2 ^ 63 - 1) ∈ d.trace.nonces

/-- The small session was last seen at time 0. -/
theorem small_timing : { Connection.small.driver.datagramTiming with lastObservedMs := 0 } =
    Connection.small.driver.datagramTiming := by decide +kernel

theorem take_sequence {n : Nat} (h : n < 2 ^ 63) :
    SendSequence.take ⟨some n⟩ = .ok n ⟨if n + 1 < 2 ^ 63 then some (n + 1) else none⟩ := by
  have hadd : checkedAdd n 1 = some (n + 1) := checkedAdd_eq_some.mpr ⟨rfl, by omega⟩
  have hle : n + 1 ≤ maxSequence ↔ n + 1 < 2 ^ 63 := by
    rw [maxSequence_eq]
    omega
  simp only [SendSequence.take, hadd, Option.filter, hle, decide_eq_true_eq]

/-- The small AEAD seals whatever fits a datagram. -/
theorem sealPacket_plain {sequence : Nat} (hsequence : sequence ≤ maxSequence) {plaintext : Bytes}
    (h : plaintext.length ≤ maxPlaintextBytes) (nonces : List Bytes) :
    ∃ bytes, PacketCodec.sealPacket .plain .clientToServer sequence plaintext (List.replicate maxDatagramBytes 0) nonces =
      .ok (overheadBytes + plaintext.length, bytes) (nonces ++ [clientNonce sequence]) := by
  unfold PacketCodec.sealPacket
  have hlen : ¬(List.replicate maxDatagramBytes (0 : UInt8)).length < overheadBytes + plaintext.length := by
    rw [List.length_replicate]
    simp only [maxPlaintextBytes, maxDatagramBytes, overheadBytes, packetHeaderBytes, tagBytes] at h ⊢
    omega
  rw [if_neg (Nat.not_lt.mpr hsequence), if_neg (Nat.not_lt.mpr h)]
  simp only [if_neg hlen]
  exact ⟨_, rfl⟩

/-- The size of the terminal, as the difference of the small session. -/
def sizeDifference : Bytes := [10, 6, 26, 4, 40, 80, 48, 24]

def requestBytes : Bytes :=
  [120, 1, 8, 2, 24, 255, 255, 255, 255, 255, 255, 255, 255, 255, 1, 50, 8] ++ sizeDifference ++ [58, 1, 0]

theorem small_difference : Connection.small.driver.clientHistory.difference 0 1 = .ok sizeDifference := by
  decide +kernel

theorem small_request :
    (Connection.small.driver.shutdownRequest sizeDifference).encodeZlib Zlib.stored = .ok requestBytes := by
  decide +kernel

/-- A single fragment goes out under the next sequence number. -/
theorem wp_sendFragments_small {env : Transmission} (timestamps : OutgoingTimestamps) (identifier fragmentCount : Nat)
    {n : Nat} {rest : SendSequence} {body : Bytes} {d : SessionDriver Unit} (hn : n ≤ maxSequence)
    (hbody : body.length ≤ maxFragmentBodyBytes) (htake : SendSequence.take d.sendSequence = .ok n rest)
    (hcancelled : env.cancelled 0 = false)
    (hsocket : env.socket 0 = .ok (overheadBytes + (fragmentHeaderBytes + body.length))) :
    wp (sendFragments Platform.small env timestamps identifier fragmentCount 0 [body])
      (fun outcome t => outcome = .sent ∧ t.sendSequence = rest ∧
        t.trace.nonces = d.trace.nonces ++ [clientNonce n] ∧ (t.synchronization, t.clientHistory, t.datagramTiming,
          t.fragmentIdentifier) = (d.synchronization, d.clientHistory, d.datagramTiming, d.fragmentIdentifier))
      (fun _ _ => False) d := by
  rw [sendFragments, hcancelled, wp_ite]
  refine ⟨fun h => absurd h Bool.false_ne_true, fun _ => ?_⟩
  rw [wp_ite]
  refine ⟨fun h => absurd h (by decide), fun _ => ?_⟩
  generalize hm : (⟨timestamps.timestamp, timestamps.timestampReply, identifier, 0, 0 + 1 == fragmentCount, body⟩ :
    Fragment) = m
  have hmbody : m.body = body := hm ▸ rfl
  rw [wp_bind, encode_first (hm ▸ rfl) (hmbody ▸ hbody), hmbody, wp_ofExcept]
  refine ⟨fun plaintext hplaintext => ?_, nofun⟩
  cases hplaintext
  generalize hplain : (m.toBytes ++ (List.replicate maxDatagramBytes 0).drop (fragmentHeaderBytes + body.length)).take
    (fragmentHeaderBytes + body.length) = plaintext
  have hlen : plaintext.length = fragmentHeaderBytes + body.length := by
    rw [← hplain, List.length_take, List.length_append, Fragment.toBytes, hmbody]
    simp only [List.length_append, length_toBigEndian, fragmentHeaderBytes]
    omega
  have hfits : plaintext.length ≤ maxPlaintextBytes := by
    rw [hlen]
    simp only [maxPlaintextBytes, maxDatagramBytes, overheadBytes, packetHeaderBytes, tagBytes, fragmentHeaderBytes,
      maxFragmentBodyBytes] at hbody ⊢
    omega
  obtain ⟨bytes, hseal⟩ := sealPacket_plain hn hfits d.trace.nonces
  rw [wp_bind, onSendSequence, wp_zoom, wp_of_ok htake, wp_bind, onCrypto, wp_zoom]
  simp only [Platform.small]
  rw [wp_of_ok hseal, wp_bind, wp_modify, hsocket, wp_ite]
  refine ⟨fun h => absurd (by rw [hlen]) h, fun _ => ⟨rfl, rfl, rfl, rfl⟩⟩

/-- An instruction that can be encoded comes to its fragments. -/
theorem Requested.not_stopped {n : Nat} {d : SessionDriver Unit} (hd : Requested n d) {m : TransportInstruction}
    {bytes : Bytes} (hm : m.encodeZlib Zlib.stored = .ok bytes) {e : DriverError} :
    ¬StoppedEarly Platform.small d m 0 e := by
  intro h
  cases h with
  | encoding e he =>
    rw [show Platform.small.zlib = Zlib.stored from rfl, hm] at he
    cases he
  | clock hclock =>
    rw [hd.datagramTiming] at hclock
    exact Nat.lt_irrefl 0 hclock
  | identifier hnone =>
    rw [hd.identifier] at hnone
    cases hnone

/-- An instruction of one fragment goes out under the next sequence number. -/
theorem wp_send_small {env : Transmission} {m : TransportInstruction} {bytes : Bytes} {n : Nat} {d : SessionDriver Unit}
    (hd : Requested n d) (hn : n < 2 ^ 63) (hm : m.encodeZlib Zlib.stored = .ok bytes)
    (hchunks : Chunks.chunks maxFragmentBodyBytes bytes = [bytes]) (hbody : bytes.length ≤ maxFragmentBodyBytes)
    (hcancelled : env.cancelled 0 = false)
    (hsocket : env.socket 0 = .ok (overheadBytes + (fragmentHeaderBytes + bytes.length))) :
    wp (sendTransportInstruction Platform.small env m 0) (fun outcome t => outcome = .sent ∧ Requested (n + 1) t)
      (fun _ _ => False) d := by
  refine wp_sendTransportInstruction (fun e t _ he => hd.not_stopped hm he)
    fun compressed timestamps identifier hc hi => ?_
  obtain rfl : bytes = compressed := Except.ok.inj (hm.symm.trans hc)
  obtain rfl : n = identifier := Option.some.inj (hd.identifier.symm.trans hi)
  have hmax : n ≤ maxSequence := by
    rw [maxSequence_eq]
    omega
  have htake : SendSequence.take (d.begun m 0 n).sendSequence =
      .ok n ⟨if n + 1 < 2 ^ 63 then some (n + 1) else none⟩ := by
    have hsequence := hd.sequence
    rw [if_pos hn] at hsequence
    rw [← take_sequence hn, ← hsequence]
    rfl
  rw [hchunks]
  refine (wp_sendFragments_small timestamps n _ hmax hbody htake hcancelled hsocket).mono (fun outcome t h => ?_)
    (fun _ _ h => h)
  obtain ⟨rfl, hrest, hnonces, hframe⟩ := h
  simp only [Prod.mk.injEq] at hframe
  obtain ⟨hsync, hhistory, htiming, hidentifier⟩ := hframe
  refine ⟨rfl, hsync.trans hd.synchronization, hhistory.trans hd.clientHistory, ?_, ?_, ?_, fun hlast => ?_⟩
  · rw [htiming, begun, hd.datagramTiming]
    exact small_timing
  · rw [hidentifier]
    exact checkedAdd_eq_some.mpr ⟨rfl, by omega⟩
  · rw [hrest]
  · rw [hnonces]
    obtain rfl : n = 2 ^ 63 - 1 := by omega
    exact List.mem_append_right _ (List.mem_singleton_self _)

/-- A request takes one sequence number. -/
theorem wp_requestPass {n : Nat} (hn : n < 2 ^ 63) {d : SessionDriver Unit} (hd : Requested n d) :
    wp (call Platform.small requestPass) (fun _ t => Requested (n + 1) t) (fun _ _ => False) d := by
  have hsync := hd.synchronization
  have hrequest : d.shutdownRequest sizeDifference = Connection.small.driver.shutdownRequest sizeDifference := by
    rw [shutdownRequest, hsync]
    rfl
  have hdifference : d.clientHistory.difference d.synchronization.knownReceiverState d.synchronization.localLatest =
      .ok sizeDifference := by
    rw [hd.clientHistory, hsync]
    exact small_difference
  rw [requestPass, call, effect, wp_bind, shutdownPass, wp_bind, nowMs, wp_ite]
  refine ⟨fun _ => ?_, fun h => absurd h (by decide)⟩
  rw [wp_pure, wp_ite]
  refine ⟨fun h => absurd h (by decide), fun _ => ?_⟩
  rw [wp_ite]
  refine ⟨fun _ => ?_, fun h => absurd h (by decide)⟩
  rw [wp_bind, requestShutdown, wp_bind, sendShutdownRequest, wp_bind, wp_get, wp_bind, planDifference, wp_bind, wp_get,
    hdifference, wp_ofExcept]
  refine ⟨fun difference h => ?_, fun e h => ?_⟩
  · cases h
    rw [hrequest]
    refine (wp_send_small hd hn small_request (by decide) (by decide) rfl rfl).mono ?_ (fun _ _ h => h)
    rintro outcome t ⟨rfl, ht⟩
    have hnext : checkedAdd 0 t.datagramTiming.estimator.retransmissionTimeoutMs ≠ none := by
      rw [ht.datagramTiming]
      decide +kernel
    rw [wp_bind, wp_get, wp_bind, wp_ofOption]
    refine ⟨fun next _ => ?_, fun h => absurd h hnext⟩
    exact ht
  · cases h

theorem calls_requests (k : Nat) {n : Nat} (hk : n + k ≤ 2 ^ 63) {d : SessionDriver Unit} (hd : Requested n d) :
    ∃ t, calls Platform.small (List.replicate k requestPass) d = .ok () t ∧ Requested (n + k) t := by
  have hwp : wp (calls Platform.small (List.replicate k requestPass)) (fun _ t => Requested (n + k) t)
      (fun _ _ => False) d := by
    induction k generalizing n d with
    | zero => exact hd
    | succ k ih =>
      rw [List.replicate_succ, calls, runAll, wp_bind]
      refine (wp_requestPass (by omega) hd).mono (fun _ t ht => ?_) (fun _ _ h => h)
      have hrest := ih (by omega) ht
      rwa [Nat.add_right_comm, Nat.add_assoc] at hrest
  obtain ⟨_, t, h⟩ := hwp.returns
  exact ⟨t, h⟩

theorem requested_small : Requested 0 Connection.small.driver :=
  ⟨rfl, rfl, rfl, by decide +kernel, by decide +kernel, nofun⟩

/-- A send that is cancelled before its first datagram returns without an error. -/
theorem send_cancelled {env : Transmission} {m : TransportInstruction} {bytes : Bytes} {n : Nat}
    {d : SessionDriver Unit} (hd : Requested n d) (hm : m.encodeZlib Zlib.stored = .ok bytes)
    (hcancelled : env.cancelled 0 = true) :
    ∃ t, sendTransportInstruction Platform.small env m 0 d = .ok .cancelled t := by
  have hsend : wp (sendTransportInstruction Platform.small env m 0) (fun outcome _ => outcome = .cancelled)
      (fun _ _ => False) d := by
    refine wp_sendTransportInstruction (fun e t _ he => hd.not_stopped hm he) fun compressed _ _ hc _ => ?_
    obtain ⟨body, rest, hchunks, -⟩ := chunks_eq_cons (encodeZlib_ne_nil hc)
    rw [hchunks, sendFragments, hcancelled, wp_ite]
    exact ⟨fun _ => rfl, fun h => absurd rfl h⟩
  obtain ⟨_, t, ht, rfl⟩ := hsend.returns
  exact ⟨t, ht⟩

/-- After 2^63 shutdown requests every sequence number has been used, and a send that is cancelled does not
    fail. -/
theorem exhausted_send_cancelled :
    ∃ d, calls Platform.small (List.replicate (2 ^ 63) requestPass) Connection.small.driver = .ok () d ∧
      clientNonce (2 ^ 63 - 1) ∈ d.trace.nonces ∧
      ∃ t, sendTransportInstruction Platform.small ⟨fun _ => true, fun _ => .ok 66, 0⟩
        (Connection.small.driver.shutdownRequest sizeDifference) 0 d = .ok .cancelled t := by
  obtain ⟨d, hrun, hd⟩ := calls_requests (2 ^ 63) (Nat.le_of_eq (Nat.zero_add _)) requested_small
  refine ⟨d, hrun, hd.last (Nat.zero_add _), ?_⟩
  exact send_cancelled hd small_request rfl

end SessionDriver
end MoshClient
