import MoshClient.Theorems.Envelope
import MoshClient.Theorems.Injection
import MoshClient.Theorems.Screen
import MoshClient.Theorems.Slot

/-! The authority of the server. The network may lose, repeat, reorder and forge datagrams. Under a key that nobody else
    has, every instruction that the session reads is one that the server sent; every terminal state that the session
    keeps is the server's state of that number; and what is painted is such a state, with a few predicted bytes at most. -/

namespace MoshClient
open Machine Limits Effect SynchronizationState SessionDriver Simulation

variable {T α : Type} {p : Platform T}

/-! ### The server -/

/-- A fragment that the server has sent, with the sequence number of its datagram. -/
structure SentFragment where
  sequence : Nat
  identifier : Nat
  number : Nat
  timestamp : Nat
  timestampReply : Option Nat
  deriving DecidableEq, Repr

/-- The fragment, of the payload that its identifier stands for. -/
def SentFragment.fragment (payload : Nat → Bytes) (f : SentFragment) : Fragment :=
  fragmentOf (payload f.identifier) f.identifier f.number f.timestamp f.timestampReply

/-- What the server of a session has sent, and the states that its instructions lead through. -/
structure Server (p : Platform T) where
  sent : List SentFragment
  payload : Nat → Bytes
  instruction : Nat → TransportInstruction
  state : Nat → T
  decodes : ∀ f ∈ sent, TransportInstruction.decodeZlib p.zlib (payload f.identifier) = .ok (instruction f.identifier)
  number_lt : ∀ f ∈ sent, f.number < fragmentCount (payload f.identifier)
  inRange : ∀ f ∈ sent, (f.fragment payload).InRange
  /-- The difference of an instruction takes the state of its base to that of its target. -/
  applies : ∀ f ∈ sent, ∃ difference, p.terminal.decode (instruction f.identifier).stateDifference = .ok difference ∧
    p.terminal.apply (state (instruction f.identifier).baseState) difference =
      .ok (state (instruction f.identifier).newState)
  /-- Under the nonces of the server, the AEAD opens nothing but what the server has sealed. -/
  unforgeable : ∀ sequence body tag plaintext, sequence ≤ maxSequence →
    p.crypto.openBody (nonce (PacketCodec.headerBytes .serverToClient sequence)) body tag = some plaintext →
      ∃ f ∈ sent, f.sequence = sequence ∧ plaintext = (f.fragment payload).toBytes

namespace Server

/-- The number of the first state, or of the target of an instruction. -/
def Announced (server : Server p) (n : Nat) : Prop :=
  n = 0 ∨ ∃ f ∈ server.sent, (server.instruction f.identifier).newState = n

/-- The instruction leads from one state of the server to another as one that the server sent does. -/
def Sends (server : Server p) (m : TransportInstruction) : Prop :=
  ∃ f ∈ server.sent, m.baseState = (server.instruction f.identifier).baseState ∧
    m.newState = (server.instruction f.identifier).newState ∧
    m.stateDifference = (server.instruction f.identifier).stateDifference

/-- A state of the server with the predicted bytes applied. -/
def Projects (server : Server p) (pending : List PendingPrediction) (terminal : T) : Prop :=
  ∃ n, server.Announced n ∧ LocalPrediction.project p.terminal (server.state n) pending = .ok terminal

/-- The predictions start from a state of the server. -/
structure Predicted (server : Server p) (mode : PredictionMode) (prediction : LocalPrediction T) : Prop where
  mode_eq : prediction.mode = mode
  pending : prediction.pending.length ≤ maxPendingPredictionScalars
  projected : ∀ terminal, prediction.projected = some terminal → server.Projects prediction.pending terminal

/-- What holds of the driver between any two methods, until one fails. -/
structure Obeyed (server : Server p) (mode : PredictionMode) (d : SessionDriver T) : Prop where
  direction : d.packetReceiver.direction = .serverToClient
  slot : d.reassembler.Faithful server.payload
  snapshots : ∀ n terminal, d.terminalStates.get? n = some terminal → server.Announced n ∧ terminal = server.state n
  final : ∀ terminal, d.finalTerminal = some terminal →
    server.Announced shutdownState ∧ terminal = server.state shutdownState
  prediction : server.Predicted mode d.prediction
  painted : ∀ terminal, d.paintedState = some terminal →
    ∃ pending, server.Projects pending terminal ∧ pending.length ≤ maxPendingPredictionScalars ∧
      (mode = .never → pending = [])

variable {server : Server p} {mode : PredictionMode} {s t : SessionDriver T}

/-- The parts of the driver that the server has authority over. -/
def subject (s : SessionDriver T) :=
  (s.packetReceiver.direction, s.reassembler, s.terminalStates, s.finalTerminal, s.prediction, s.paintedState)

theorem Obeyed.of_subject (h : subject t = subject s) (hs : server.Obeyed mode s) : server.Obeyed mode t := by
  simp only [subject, Prod.mk.injEq] at h
  obtain ⟨hdirection, hreassembler, hterminals, hfinal, hprediction, hpainted⟩ := h
  exact ⟨hdirection ▸ hs.direction, hreassembler ▸ hs.slot, hterminals ▸ hs.snapshots, hfinal ▸ hs.final,
    hprediction ▸ hs.prediction, hpainted ▸ hs.painted⟩

theorem preserves_subject {m : Driving T α} (h : (frame subject).Unseen m) : Preserves (server.Obeyed mode) m :=
  h.preserves Obeyed.of_subject

theorem preserves_sender {m : Driving T α} (h : (frame apartFromSender).Unseen m) : Preserves (server.Obeyed mode) m :=
  h.preserves fun heq => Obeyed.of_subject (congrArg subject heq :)

/-! ### Datagrams -/

/-- The header of a datagram of the server, from its sequence number. -/
theorem take_header {datagram : Bytes} (hlength : overheadBytes ≤ datagram.length)
    (hdirection : PacketCodec.header datagram &&& directionMask = Direction.serverToClient.headerBit) :
    datagram.take packetHeaderBytes =
      PacketCodec.headerBytes .serverToClient (PacketCodec.header datagram &&& maxSequence) := by
  have hbytes : (datagram.take packetHeaderBytes).length = 8 := by
    rw [List.length_take]
    unfold overheadBytes tagBytes at hlength
    unfold packetHeaderBytes at hlength ⊢
    omega
  have hlt : PacketCodec.header datagram < 2 ^ (63 + 1) := by
    have hlt := ofBigEndian_lt (datagram.take packetHeaderBytes)
    rw [hbytes] at hlt
    exact hlt
  have hflag : (PacketCodec.header datagram &&& 2 ^ 63 != 0) = true := by
    have hmask : PacketCodec.header datagram &&& 2 ^ 63 = 2 ^ 63 := hdirection
    rw [hmask]
    rfl
  have hword : Direction.serverToClient.headerBit ||| (PacketCodec.header datagram &&& maxSequence) =
      PacketCodec.header datagram := by
    rw [Nat.or_comm]
    refine Eq.trans ?_ (withFlag_of_lt hlt)
    rw [hflag]
    rfl
  rw [PacketCodec.headerBytes, hword]
  exact (toBigEndian_ofBigEndian hbytes).symm

/-- What the receiver opens comes from the address of the server, and is a fragment that the server sent. -/
theorem wp_openDatagram (server : Server p) (datagram : Bytes) (source : SocketAddr)
    (hs : s.packetReceiver.direction = .serverToClient) :
    wp (openDatagram p datagram source)
      (fun opened t => subject t = subject s ∧ ∀ packet, opened = some packet → source = .v4 s.serverAddr ∧
        ∃ f ∈ server.sent, packet.plaintext = (f.fragment server.payload).toBytes)
      (fun _ _ => True) s := by
  have hopen : wp (PacketReceiver.openFrom p.crypto s.serverAddr source datagram)
      (fun packet receiver => receiver.direction = .serverToClient ∧ source = .v4 s.serverAddr ∧
        ∃ f ∈ server.sent, packet.plaintext = (f.fragment server.payload).toBytes)
      (fun _ receiver => receiver.direction = .serverToClient) s.packetReceiver := by
    rw [PacketReceiver.openFrom, wp_ite]
    refine ⟨fun _ => hs, fun hsource => ?_⟩
    rw [PacketReceiver.openPacket, wp_bind, wp_get, wp_bind, wp_ofExcept]
    refine ⟨fun packet hpacket => ?_, fun _ _ => hs⟩
    rw [wp_bind, wp_zoom]
    refine wp_intro (fun _ replay _ => ⟨hs, not_not.mp hsource, ?_⟩) fun _ _ _ => hs
    rw [hs] at hpacket
    obtain ⟨hlength, -, hdirection, hbody, -⟩ := openPacket_ok hpacket
    unfold PacketCodec.openedBody at hbody
    rw [take_header hlength hdirection] at hbody
    obtain ⟨f, hf, -, hplaintext⟩ := server.unforgeable _ _ _ _ Nat.and_le_right hbody
    exact ⟨f, hf, hplaintext⟩
  unfold wp openDatagram
  cases hrun : PacketReceiver.openFrom p.crypto s.serverAddr source datagram s.packetReceiver with
  | ok packet receiver =>
    obtain ⟨hdirection, hsource, hf⟩ := hopen.ok hrun
    refine ⟨by simp only [subject, hdirection, hs], fun packet' hpacket => ?_⟩
    cases hpacket
    exact ⟨hsource, hf⟩
  | error e receiver =>
    have hdirection := hopen.error hrun
    by_cases he : isDroppedPacketError e = true
    · simp only [he, if_true]
      exact ⟨by simp only [subject, hdirection, hs], fun packet hpacket => by cases hpacket⟩
    · simp only [he]
      trivial

/-- What a datagram completes is an instruction that the server sent. -/
theorem wp_decodeDatagram (elapsedMs : Nat) (datagram : Bytes) (source : SocketAddr) (hs : server.Obeyed mode s) :
    wp (decodeDatagram p elapsedMs datagram source)
      (fun decoded t => server.Obeyed mode t ∧ ∀ m, decoded = some m → source = .v4 s.serverAddr ∧
        ∃ f ∈ server.sent, m = server.instruction f.identifier)
      (fun _ _ => True) s := by
  rw [decodeDatagram, wp_bind]
  refine (wp_nowMs elapsedMs s).mono (fun now s' h => ?_) fun _ _ _ => trivial
  obtain ⟨-, -, rfl⟩ := h
  rw [wp_bind]
  refine (wp_openDatagram server datagram source hs.direction).mono (fun opened t h => ?_) fun _ _ _ => trivial
  obtain ⟨hsubject, hopened⟩ := h
  have ht := hs.of_subject hsubject
  cases opened with
  | none => exact ⟨ht, fun m hm => by cases hm⟩
  | some packet =>
    obtain ⟨hsource, f, hf, hplaintext⟩ := hopened packet rfl
    rw [wp_bind, hplaintext, Fragment.decode_toBytes (server.inRange f hf), wp_ofExcept]
    refine ⟨fun decoded hdecoded => ?_, fun _ _ => trivial⟩
    cases hdecoded
    rw [wp_bind]
    refine ((preserves_subject (frame_zoom fun _ _ => by rfl) : Preserves (server.Obeyed mode) _) t ht).mono
      (fun _ u hu => ?_) fun _ _ _ => trivial
    rw [wp_bind, onReassembler, wp_zoom]
    refine (FragmentReassembler.wp_push now f.timestamp f.timestampReply hu.slot (server.number_lt f hf)).mono
      (fun outcome r hr => ?_) fun _ _ _ => trivial
    obtain ⟨hslot, hcomplete, -⟩ := hr
    have hv : server.Obeyed mode { u with reassembler := r } := { hu with slot := hslot }
    cases outcome with
    | pending => exact ⟨hv, fun m hm => by cases hm⟩
    | duplicate => exact ⟨hv, fun m hm => by cases hm⟩
    | complete compressed =>
      rw [hcomplete compressed rfl, wp_bind, server.decodes f hf, wp_ofExcept]
      refine ⟨fun m hm => ⟨hv, fun m' hm' => ?_⟩, fun _ _ => trivial⟩
      cases hm
      cases hm'
      exact ⟨hsource, f, hf, rfl⟩

/-! ### Predictions -/

namespace Predicted

variable {prediction : LocalPrediction T}

theorem clear (h : server.Predicted mode prediction) : server.Predicted mode prediction.clear.2 where
  mode_eq := h.mode_eq
  pending := Nat.zero_le _
  projected terminal hterminal := by cases hterminal

theorem observeInput (h : server.Predicted mode prediction) (clientState : Nat) (bytes : Bytes) {n : Nat}
    (hn : server.Announced n) (nowMs : Nat) :
    wp (LocalPrediction.observeInput p.terminal clientState bytes (server.state n) nowMs)
      (fun _ next => server.Predicted mode next) (fun _ _ => True) prediction := by
  have hinputs := LocalPrediction.inputs_observeInput p.terminal clientState bytes (server.state n) nowMs prediction
  unfold wp
  generalize LocalPrediction.observeInput p.terminal clientState bytes (server.state n) nowMs prediction = result at hinputs ⊢
  cases hinputs with
  | never => exact h
  | cleared => exact h.clear
  | started byte projected next hmode hends hempty happlies hnext =>
    subst hnext
    refine ⟨h.mode_eq, by show 1 ≤ maxPendingPredictionScalars; decide, ?_⟩
    rintro terminal ⟨⟩
    exact ⟨n, hn, LocalPrediction.project_of_take happlies⟩
  | appended byte before projected next hmode hends hpending hbefore happlies hnext =>
    subst hnext
    have hroom : prediction.pending.length ≠ maxPendingPredictionScalars := fun hfull => hends (Or.inr (Or.inl hfull))
    refine ⟨h.mode_eq, ?_, ?_⟩
    · have hle := h.pending
      simp only [List.length_append, List.length_singleton]
      omega
    · rintro terminal ⟨⟩
      obtain ⟨base, hbase, hproject⟩ := h.projected before hbefore
      refine ⟨base, hbase, ?_⟩
      rw [LocalPrediction.project_append hproject]
      exact LocalPrediction.project_of_take happlies
  | unstarted => trivial
  | failed => trivial

theorem observeAuthoritative (h : server.Predicted mode prediction) {n : Nat} (hn : server.Announced n) :
    wp (LocalPrediction.observeAuthoritative p.terminal (server.state n)) (fun _ next => server.Predicted mode next)
      (fun _ _ => True) prediction := by
  have hobserves := LocalPrediction.observes_observeAuthoritative p.terminal (server.state n) prediction
  unfold wp
  generalize LocalPrediction.observeAuthoritative p.terminal (server.state n) prediction = result at hobserves ⊢
  cases hobserves with
  | idle => exact h
  | failed => trivial
  | diverged => exact h.clear
  | unacknowledged => exact h
  | drained =>
    refine ⟨h.mode_eq, Nat.zero_le _, ?_⟩
    rintro terminal ⟨⟩
  | rebased count projected hmode hconfirms hrest hprojects =>
    refine ⟨h.mode_eq, ?_, ?_⟩
    · exact Nat.le_trans (by rw [List.length_drop]; exact Nat.sub_le _ _) h.pending
    · rintro terminal ⟨⟩
      exact ⟨n, hn, hprojects⟩
  | unprojected => trivial

theorem expire (h : server.Predicted mode prediction) (nowMs : Nat) : server.Predicted mode (prediction.expire nowMs).2 := by
  rcases prediction.expire_cases nowMs with hexpire | ⟨hexpire, -⟩
  · rw [hexpire]
    exact h.clear
  · rw [hexpire]
    exact h

theorem updatePolicy (h : server.Predicted mode prediction) (nowMs : Nat) (frameIntervalMs : Option Nat) :
    server.Predicted mode (prediction.updatePolicy nowMs frameIntervalMs).2 := by
  obtain ⟨slowLink, glitch, hpolicy⟩ := prediction.updatePolicy_eq nowMs frameIntervalMs
  rw [hpolicy]
  exact ⟨h.mode_eq, h.pending, h.projected⟩

/-- What is displayed over a state of the server. -/
theorem display (h : server.Predicted mode prediction) {n : Nat} (hn : server.Announced n) :
    ∃ pending, server.Projects pending (prediction.display (server.state n)) ∧
      pending.length ≤ maxPendingPredictionScalars ∧ (mode = .never → pending = []) := by
  have hplain : server.Projects [] (server.state n) := ⟨n, hn, rfl⟩
  by_cases hdisplaying : prediction.displayingPrediction = true
  · have hmode : mode ≠ .never := by
      obtain ⟨-, -, hshown⟩ := LocalPrediction.displayingPrediction_iff.mp hdisplaying
      rw [h.mode_eq] at hshown
      rintro rfl
      rcases hshown with hshown | ⟨hshown, -⟩ <;> cases hshown
    rw [LocalPrediction.display, if_pos hdisplaying]
    cases hprojected : prediction.projected with
    | none => exact ⟨[], hplain, Nat.zero_le _, fun _ => rfl⟩
    | some terminal => exact ⟨prediction.pending, h.projected terminal hprojected, h.pending, fun he => absurd he hmode⟩
  · rw [LocalPrediction.display_of_not_displaying (Bool.eq_false_iff.mpr hdisplaying)]
    exact ⟨[], hplain, Nat.zero_le _, fun _ => rfl⟩

end Predicted

theorem Obeyed.predict (hs : server.Obeyed mode s) {prediction : LocalPrediction T}
    (h : server.Predicted mode prediction) (requested : Bool) :
    server.Obeyed mode (requestOutput requested { s with prediction := prediction }) := by
  have hnext : server.Obeyed mode { s with prediction := prediction } := { hs with prediction := h }
  cases requested with
  | true => exact hnext.of_subject (by rfl)
  | false => exact hnext

theorem preserves_predictInput (state : Nat) (bytes : Bytes) (nowMs : Nat) :
    Preserves (server.Obeyed mode) (predictInput p state bytes nowMs) := by
  intro s hs
  rw [predictInput, wp_bind, wp_get, wp_bind, wp_ofOption]
  refine ⟨fun authoritative hget => ?_, fun _ => trivial⟩
  obtain ⟨hannounced, rfl⟩ := hs.snapshots _ authoritative hget
  rw [wp_bind, onPrediction, wp_zoom]
  refine (hs.prediction.observeInput state bytes hannounced nowMs).mono (fun displayed next hnext => ?_) fun _ _ h => h
  exact hs.predict hnext displayed

theorem preserves_handleCommand (elapsedMs : Nat) (command : SessionCommand) :
    Preserves (server.Obeyed mode) (handleCommand p elapsedMs command) := by
  refine preserves_handleCommand_of (fun operation now => preserves_sender (frame_advanceClient operation now))
    preserves_predictInput (fun s hs => ?_) elapsedMs command
  exact (hs.predict hs.prediction.clear true).of_subject (by rfl)

/-! ### The pass of `run` -/

theorem preserves_expireSlot (nowMs : Nat) :
    Preserves (server.Obeyed mode) (onReassembler (FragmentReassembler.expire nowMs) : Driving T Nat) := by
  intro s hs
  rw [onReassembler, wp_zoom]
  refine (FragmentReassembler.wp_expire nowMs s.reassembler).mono (fun _ r hr => ?_) fun _ _ _ => trivial
  exact { hs with slot := hs.slot.of_incomplete hr }

theorem preserves_beginPass (elapsedMs : Nat) :
    Preserves (server.Obeyed mode) (beginPass elapsedMs : Driving T Nat) := by
  refine (preserves_nowMs elapsedMs).bind fun now => ?_
  refine (preserves_subject (frame_publishReachability (fun _ _ _ => by rfl) now)).bind fun _ => preserves_get.bind fun _ => ?_
  refine .ite (preserves_throw _) ((preserves_expireSlot now).bind fun _ => ?_)
  refine (preserves_modify fun s hs => ?_).bind fun _ => (preserves_modify fun s hs => ?_).bind fun _ => preserves_pure _
  · exact hs.predict (hs.prediction.expire now) _
  · exact hs.predict (hs.prediction.updatePolicy now _) _

theorem preserves_pass (env : Transmission) (elapsedMs : Nat) :
    Preserves (server.Obeyed mode) (pass p env elapsedMs) := by
  intro s hs
  rw [wp_pass_iff]
  refine (preserves_beginPass elapsedMs s hs).mono (fun now t ht => ?_) fun _ _ h => h
  refine (preserves_sender (frame_pollScheduler now) t ht).mono (fun answer u hu => ?_) fun _ _ h => h
  cases answer with
  | send plan =>
    exact ((preserves_sender (frame_sendInstruction p env plan now)).bind fun _ => preserves_pure _) u hu
  | pending wakeAtMs =>
    refine ((preserves_subject ?_).bind fun _ => preserves_pure _) u hu
    exact unseen_get.bind fun _ => (unseen_ofExcept fun _ => trivial).bind fun _ => unseen_pure _

/-! ### Instructions -/

theorem get?_of_discard {m : OrderedMap Nat T} {floor n : Nat} {evicted : Option Nat} {terminal : T}
    (h : (discardTerminalStates floor evicted m).get? n = some terminal) : m.get? n = some terminal := by
  unfold discardTerminalStates at h
  cases evicted with
  | none =>
    simp only [OrderedMap.get?_retain] at h
    split at h
    · exact h
    · cases h
  | some number =>
    simp only [OrderedMap.get?_remove, OrderedMap.get?_retain] at h
    split at h
    · cases h
    · split at h
      · exact h
      · cases h

theorem Sends.applies {m : TransportInstruction} (h : server.Sends m) :
    server.Announced m.newState ∧ ∃ difference, p.terminal.decode m.stateDifference = .ok difference ∧
      p.terminal.apply (server.state m.baseState) difference = .ok (server.state m.newState) := by
  obtain ⟨f, hf, hbase, hnew, hdifference⟩ := h
  rw [hbase, hnew, hdifference]
  exact ⟨Or.inr ⟨f, hf, rfl⟩, server.applies f hf⟩

/-- The state that an instruction of the server constructs is the server's own. -/
theorem wp_applyRemoteState (nowMs : Nat) {plan : ApplyPlan} {m : TransportInstruction} (hm : server.Sends m)
    (hbase : plan.baseState = m.baseState) (htarget : plan.targetState = m.newState)
    (hdifference : plan.difference = m.stateDifference) (hs : server.Obeyed mode s) :
    wp (applyRemoteState p nowMs plan) (fun _ t => server.Obeyed mode t) (fun _ _ => True) s := by
  obtain ⟨hannounced, difference, hdecode, happly⟩ := hm.applies
  rw [← htarget] at hannounced happly
  rw [applyRemoteState, wp_bind, wp_get, wp_bind, wp_ofOption]
  refine ⟨fun base hget => ?_, fun _ => trivial⟩
  obtain ⟨-, rfl⟩ := hs.snapshots _ base hget
  rw [wp_bind, hdifference, hdecode, wp_ofExcept]
  refine ⟨fun decoded hdecoded => ?_, fun _ _ => trivial⟩
  cases hdecoded
  rw [wp_bind, hbase, happly, wp_ofExcept]
  refine ⟨fun next hnext => ?_, fun _ _ => trivial⟩
  cases hnext
  rw [wp_bind, onSynchronization, wp_zoom]
  refine wp_intro (fun commit u _ => ?_) fun _ _ _ => trivial
  have hinserted : server.Obeyed mode { s with
      synchronization := u
      terminalStates := discardTerminalStates commit.discardBeforeState commit.capacityEvictedState
        (s.terminalStates.insert plan.targetState (server.state plan.targetState)) } := by
    refine { hs with snapshots := fun n terminal hterminal => ?_ }
    have hinsert := get?_of_discard hterminal
    rw [OrderedMap.get?_insert] at hinsert
    split at hinsert
    · rename_i heq
      cases hinsert
      exact heq ▸ ⟨hannounced, rfl⟩
    · exact hs.snapshots n terminal hinsert
  rw [wp_bind, wp_modify, wp_bind, wp_get, wp_ite]
  refine ⟨fun _ => ?_, fun _ => hinserted⟩
  rw [noteLatestState, wp_bind, wp_modify, wp_bind, wp_get, wp_bind, wp_ofOption]
  refine ⟨fun authoritative hget => ?_, fun _ => trivial⟩
  obtain ⟨-, rfl⟩ := hinserted.snapshots _ authoritative hget
  rw [wp_bind, onPrediction, wp_zoom]
  refine (hinserted.prediction.observeAuthoritative hannounced).mono (fun _ prediction hprediction => ?_) fun _ _ h => h
  exact (hinserted.predict hprediction false).of_subject (by rfl)

theorem disposition_apply {u : SynchronizationState} {m : TransportInstruction} {plan : ApplyPlan}
    (h : u.disposition m = .apply plan) :
    plan.baseState = m.baseState ∧ plan.targetState = m.newState ∧ plan.difference = m.stateDifference := by
  unfold SynchronizationState.disposition at h
  split_ifs at h
  cases h
  exact ⟨rfl, rfl, rfl⟩

theorem wp_handleNormalInstruction (elapsedMs : Nat) {m : TransportInstruction} (hm : server.Sends m)
    (hs : server.Obeyed mode s) :
    wp (handleNormalInstruction p elapsedMs m) (fun _ t => server.Obeyed mode t) (fun _ _ => True) s := by
  rw [handleNormalInstruction, wp_bind]
  refine (wp_nowMs elapsedMs s).mono (fun now s' h => ?_) fun _ _ _ => trivial
  obtain ⟨-, -, rfl⟩ := h
  rw [wp_bind, wp_get, wp_bind, onSynchronization, wp_zoom]
  refine (wp_beginReceive m s'.synchronization).mono (fun transition u h => ?_) fun _ _ _ => trivial
  obtain ⟨-, -, hremote⟩ := h
  have hbegun : server.Obeyed mode { s' with synchronization := u } := hs.of_subject (by rfl)
  have hnoted := preserves_subject (frame_noteReply (fun _ _ => rfl) transition.acknowledgement
    (s'.synchronization.sentStateSentAtMs m.acknowledgedState)) _ hbegun
  rw [wp_bind]
  refine hnoted.mono (fun _ v hv => ?_) fun _ _ _ => trivial
  rw [wp_bind]
  refine (preserves_sender frame_acknowledgeHistory v hv).mono (fun _ w hw => ?_) fun _ _ _ => trivial
  rw [wp_bind]
  refine (preserves_sender (frame_onScheduler _) w hw).mono (fun _ x hx => ?_) fun _ _ _ => trivial
  have hsettled : wp (settleRemoteState p now transition.remoteState) (fun _ t => server.Obeyed mode t)
      (fun _ _ => True) x := by
    cases hdisposition : transition.remoteState with
    | apply plan =>
      obtain ⟨hbase, htarget, hdifference⟩ := disposition_apply (hremote.symm.trans hdisposition)
      exact wp_applyRemoteState now hm hbase htarget hdifference hx
    | alreadyConstructed => exact hx
    | missingReference => exact hx
    | belowThrowawayFloor => exact hx
    | belowRetentionWindow => exact hx
  rw [wp_bind]
  exact hsettled.mono (fun _ y hy => preserves_subject (frame_publishReachability (fun _ _ _ => by rfl) now) y hy)
    fun _ _ h => h

theorem wp_handleRemoteShutdown {m : TransportInstruction} (hm : server.Sends m) (hshutdown : m.isShutdown = true)
    (hs : server.Obeyed mode s) :
    wp (handleRemoteShutdown p m) (fun _ t => server.Obeyed mode t) (fun _ _ => True) s := by
  obtain ⟨hread, hdifference⟩ := readShutdown_eq s m
  obtain ⟨hannounced, difference, hdecode, happly⟩ := hm.applies
  rw [show m.newState = shutdownState from beq_iff_eq.mp hshutdown] at hannounced happly
  rw [handleRemoteShutdown, wp_bind, wp_get, wp_bind, onSynchronization, wp_zoom]
  refine (wp_beginShutdownReceive (s.readShutdown m) s.synchronization).mono (fun transition u h => ?_) fun _ _ _ => trivial
  obtain ⟨⟨rfl, -⟩, -⟩ := h
  have hbegun : server.Obeyed mode { s with synchronization := u } := hs.of_subject (by rfl)
  rw [wp_bind]
  refine (preserves_sender frame_acknowledgeHistory _ hbegun).mono (fun _ v hv => ?_) fun _ _ _ => trivial
  rw [wp_bind, wp_get, wp_bind, wp_ofOption, hread, hdifference]
  refine ⟨fun base hget => ?_, fun _ => trivial⟩
  obtain ⟨-, rfl⟩ := hv.snapshots _ base hget
  rw [wp_bind, hdecode, wp_ofExcept]
  refine ⟨fun decoded hdecoded => ?_, fun _ _ => trivial⟩
  cases hdecoded
  rw [wp_bind, happly, wp_ofExcept]
  refine ⟨fun terminal hterminal => ?_, fun _ _ => trivial⟩
  cases hterminal
  have hfinal : server.Obeyed mode { v with
      finalTerminal := some (server.state shutdownState), prediction := v.prediction.reset.2 } := by
    refine { hv with final := ?_, prediction := hv.prediction.clear }
    rintro terminal ⟨⟩
    exact ⟨hannounced, rfl⟩
  exact hfinal.of_subject (by rfl)

/-! ### What the socket answers -/

theorem sends_of_sent {f : SentFragment} (hf : f ∈ server.sent) (acknowledgedState : Nat) :
    server.Sends { server.instruction f.identifier with acknowledgedState } := ⟨f, hf, rfl, rfl, rfl⟩

theorem wp_handleDatagram (decodedAtMs handledAtMs : Nat) (datagram : Bytes) (source : SocketAddr) :
    Preserves (server.Obeyed mode) (handleDatagram p decodedAtMs handledAtMs datagram source) := by
  intro s hs
  rw [handleDatagram, wp_bind]
  refine (wp_decodeDatagram decodedAtMs datagram source hs).mono (fun decoded t h => ?_) fun _ _ h => h
  obtain ⟨ht, hdecoded⟩ := h
  cases decoded with
  | none => exact ht
  | some m =>
    obtain ⟨-, f, hf, rfl⟩ := hdecoded m rfl
    have hm := sends_of_sent hf (server.instruction f.identifier).acknowledgedState
    rw [wp_ite]
    refine ⟨fun hshutdown => ?_, fun _ => ?_⟩
    · rw [wp_bind]
      exact wp_handleRemoteShutdown hm hshutdown ht
    · rw [wp_bind]
      exact wp_handleNormalInstruction handledAtMs hm ht

theorem preserves_acknowledge (env : Transmission) (elapsedMs : Nat) {next : Bool → Driving T α}
    (hnext : ∀ sent, Preserves (server.Obeyed mode) (next sent)) :
    Preserves (server.Obeyed mode) (do next (← sendShutdownAcknowledgement p env (← nowMs elapsedMs))) :=
  (preserves_nowMs elapsedMs).bind fun now => (preserves_sender (frame_sendShutdownAcknowledgement p env now)).bind hnext

theorem preserves_handleShutdownDatagram (env : Transmission) (decodedAtMs handledAtMs : Nat) (datagram : Bytes)
    (source : SocketAddr) :
    Preserves (server.Obeyed mode) (handleShutdownDatagram p env decodedAtMs handledAtMs datagram source) := by
  intro s hs
  rw [handleShutdownDatagram, wp_bind]
  refine (wp_decodeDatagram decodedAtMs datagram source hs).mono (fun decoded t h => ?_) fun _ _ h => h
  obtain ⟨ht, hdecoded⟩ := h
  cases decoded with
  | none => exact ht
  | some m =>
    obtain ⟨-, f, hf, rfl⟩ := hdecoded m rfl
    have hm := sends_of_sent hf (server.instruction f.identifier).acknowledgedState
    rw [wp_ite]
    refine ⟨fun hshutdown => ?_, fun _ => ?_⟩
    · rw [wp_bind]
      refine (wp_handleRemoteShutdown hm hshutdown ht).mono (fun _ u hu => ?_) fun _ _ h => h
      exact preserves_acknowledge env handledAtMs (fun _ => .ite (preserves_pure _) (preserves_pure _)) u hu
    · rw [wp_bind, wp_get, wp_bind]
      have hordinary : server.Sends (if (server.instruction f.identifier).acknowledgedState == shutdownState then
          { server.instruction f.identifier with acknowledgedState := t.synchronization.knownReceiverState }
          else server.instruction f.identifier) := by
        split
        · exact sends_of_sent hf _
        · exact hm
      refine (wp_handleNormalInstruction handledAtMs hordinary ht).mono (fun _ u hu => ?_) fun _ _ h => h
      exact (preserves_get.bind fun _ => .ite (preserves_pure _) (preserves_pure _)) u hu

theorem preserves_receive (env : Transmission) (elapsedMs decodedAtMs handledAtMs repliedAtMs : Nat)
    (received : Except ErrorKind (Bytes × SocketAddr)) (loop : TaskLoop) :
    Preserves (server.Obeyed mode) (receive p env elapsedMs decodedAtMs handledAtMs repliedAtMs received loop) := by
  refine (preserves_subject (frame_classifyReceive (fun _ _ => by rfl) elapsedMs received)).bind fun classified => ?_
  cases classified with
  | none => exact preserves_pure _
  | some datagram =>
    cases loop with
    | run =>
      refine (wp_handleDatagram decodedAtMs handledAtMs _ _).bind fun outcome => ?_
      cases outcome with
      | «continue» => exact preserves_pure _
      | remoteShutdown => exact preserves_acknowledge env repliedAtMs fun _ => .ite (preserves_pure _) (preserves_pure _)
    | localShutdown progress =>
      refine (preserves_handleShutdownDatagram env decodedAtMs handledAtMs _ _).bind fun exit => ?_
      split <;> exact preserves_pure _

/-! ### Output -/

/-- The latest terminal state is one of the server. -/
theorem Obeyed.latest (hs : server.Obeyed mode s) {terminal : T} (h : s.latestTerminalState = .ok terminal) :
    ∃ n, server.Announced n ∧ terminal = server.state n := by
  unfold latestTerminalState at h
  split at h
  · rename_i final hfinal
    cases h
    exact ⟨shutdownState, hs.final terminal hfinal⟩
  · split at h
    · rename_i hget
      cases h
      exact ⟨_, hs.snapshots _ terminal hget⟩
    · cases h

theorem preserves_emitOutput : Preserves (server.Obeyed mode) (emitOutput p) := by
  intro s hs
  rw [emitOutput, wp_bind, wp_get, wp_bind, wp_ofExcept]
  refine ⟨fun authoritative hlatest => ?_, fun _ _ => trivial⟩
  obtain ⟨n, hn, rfl⟩ := hs.latest hlatest
  rw [wp_bind, wp_ofExcept]
  refine ⟨fun output _ => ?_, fun _ _ => trivial⟩
  have hpainted : server.Obeyed mode { s with paintedState := some (s.prediction.display (server.state n)) } := by
    refine { hs with painted := ?_ }
    rintro terminal ⟨⟩
    exact hs.prediction.display hn
  exact hpainted.of_subject (by rfl)

theorem methodsKeep (server : Server p) (mode : PredictionMode) : Session.MethodsKeep p (server.Obeyed mode) where
  pass := preserves_pass
  shutdownPass env elapsedMs progress := preserves_sender (frame_shutdownPass p env elapsedMs progress)
  command := preserves_handleCommand
  begin elapsedMs := preserves_subject (frame_beginLocalShutdown elapsedMs)
  output := preserves_emitOutput
  receive := preserves_receive

/-! ### Every run -/

end Server

/-! ### A server that sends one instruction -/

/-- A terminal that counts the bytes of its differences. -/
def Terminal.counting : Terminal Nat where
  Difference := Nat
  new columns rows := if isValidSize columns rows then .ok 0 else .error .invalidTerminalSize
  decode bytes := .ok bytes.length
  apply count added := .ok (count + added)
  withPredictedAscii count _ := .ok (count + 1)
  displayEquivalent a b := a == b
  echoAcknowledgement _ := none
  full _ := .ok []
  incremental _ _ := .ok []

/-- Opens one body under one nonce, and nothing else. -/
def SessionCrypto.opensOnly (sealedNonce sealedBody : Bytes) : SessionCrypto where
  sealBody := SessionCrypto.plain.sealBody
  openBody nonce body tag :=
    if nonce = sealedNonce ∧ body = sealedBody ∧ tag = List.replicate tagBytes 0 then some body else none
  sealBody_length := SessionCrypto.plain.sealBody_length
  openBody_length _ body tag opened h := by
    simp only [Option.ite_none_right_eq_some, Option.some.injEq] at h
    rw [h.2]

namespace Greeting

/-- The instruction takes the state 0 to the state 1. -/
def instruction : TransportInstruction := ⟨protocolVersion, 0, 1, 0, 0, [7], []⟩

def payload : Bytes := [0x78, 0x01, 8, 2, 24, 1, 50, 1, 7]

def fragment : SentFragment := ⟨0, 0, 0, 0, none⟩

def plaintext : Bytes := (fragment.fragment fun _ => payload).toBytes

def datagram : Bytes := PacketCodec.headerBytes .serverToClient 0 ++ plaintext ++ List.replicate tagBytes 0

def platform : Platform Nat :=
  ⟨.opensOnly (nonce (PacketCodec.headerBytes .serverToClient 0)) plaintext, .stored, .counting⟩

def server : Server platform where
  sent := [fragment]
  payload _ := payload
  instruction _ := instruction
  state n := n
  decodes f _ := by decide +kernel
  number_lt f hf := by
    rw [List.mem_singleton.mp hf]
    decide
  inRange f hf := by
    rw [List.mem_singleton.mp hf]
    exact ⟨by decide, fun reply hreply => (by cases hreply), by decide, by decide, by decide⟩
  applies f _ := ⟨(1 : Nat), rfl, rfl⟩
  unforgeable sequence body tag plaintext hsequence hopen := by
    simp only [platform, SessionCrypto.opensOnly, Option.ite_none_right_eq_some, Option.some.injEq] at hopen
    obtain ⟨⟨hnonce, hbody, -⟩, rfl⟩ := hopen
    have hheader := congrArg (fun header => ofBigEndian header &&& maxSequence) (List.append_cancel_left hnonce)
    simp only [(PacketCodec.header_and .serverToClient hsequence).2,
      (PacketCodec.header_and .serverToClient (Nat.zero_le maxSequence)).2] at hheader
    exact ⟨fragment, List.mem_singleton_self _, hheader.symm, hbody⟩

def connection : Connection platform where
  serverAddr := ⟨0x7f000001, 60001⟩
  columns := 80
  rows := 24
  mode := .never
  driver :=
    match SessionDriver.connect platform ⟨0x7f000001, 60001⟩ 80 24 .never with
    | .ok driver => driver
    | .error _ => SessionDriver.initial ⟨0x7f000001, 60001⟩ 0 .never
  opened := by decide +kernel

/-- A step of the task in which nothing happens from outside. -/
def idle : SessionAction := .drive ⟨0, ⟨fun _ => false, fun _ => .ok 0, 0⟩, .none⟩

/-- The datagram of the server arrives. -/
def arrival : TaskInput :=
  ⟨1, ⟨fun _ => false, fun _ => .ok 0, 0⟩, .datagram (.ok (datagram, .v4 ⟨0x7f000001, 60001⟩)) 1 1 1⟩

/-- The task waits, for a datagram among others. -/
def receives (s : Session Nat) : Bool :=
  match s.task with
  | .waiting .run wait .rest => wait.receiveEnabled
  | _ => false

end Greeting

namespace Session

end Session
end MoshClient
