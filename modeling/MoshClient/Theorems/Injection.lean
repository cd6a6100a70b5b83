import MoshClient.Injection
import MoshClient.Theorems.Replay

/-! Rejected datagrams do not interfere. A datagram that is rejected leaves the driver as it was, down to its
    replay window and its clocks, so a run with such datagrams in it is the run without them. -/

namespace MoshClient
open Limits Effect Machine SessionDriver

variable {T : Type} {p : Platform T}

/-- The number was accepted before, or is too far below the highest accepted one. -/
def ReplayWindow.Refuses (w : ReplayWindow) (sequence : Nat) : Prop :=
  ∃ highest, w.highest = some highest ∧ sequence ≤ highest ∧
    (replayWindowBits ≤ highest - sequence ∨ w.seen.getLsbD (highest - sequence) = true)

theorem ReplayWindow.wp_accept_refused {w : ReplayWindow} {sequence : Nat} (h : w.Refuses sequence) :
    wp (accept sequence) (fun _ _ => False) (fun e w' => (e = .tooOld ∨ e = .replay) ∧ w' = w) w := by
  obtain ⟨highest, hhighest, hle, hrefused⟩ := h
  have hnot : ¬sequence > highest := Nat.not_lt.mpr hle
  by_cases hfar : highest - sequence ≥ replayWindowBits
  · have hrun : accept sequence w = .error .tooOld w := by
      simp only [accept, hhighest, if_neg hnot, if_pos hfar]
    exact (wp_of_error hrun).mpr ⟨Or.inl rfl, rfl⟩
  · have hseen : w.seen.getLsbD (highest - sequence) = true := hrefused.resolve_left hfar
    have hbit := (bit_and_ne_zero w.seen (highest - sequence) (Nat.lt_of_not_le hfar)).mpr hseen
    have hrun : accept sequence w = .error .replay w := by
      simp only [accept, hhighest, if_neg hnot, if_neg hfar, if_pos hbit]
    exact (wp_of_error hrun).mpr ⟨Or.inr rfl, rfl⟩

/-! ### One datagram -/

namespace PacketCodec

/-- The header of a datagram, as a number. -/
def header (datagram : Bytes) : Nat := ofBigEndian (datagram.take packetHeaderBytes)

/-- What the AEAD makes of the body and the tag of a datagram. -/
def openedBody (crypto : SessionCrypto) (datagram : Bytes) : Option Bytes :=
  crypto.openBody (nonce (datagram.take packetHeaderBytes))
    ((datagram.take (datagram.length - tagBytes)).drop packetHeaderBytes)
    (datagram.drop (datagram.length - tagBytes))

end PacketCodec

namespace SessionDriver

/-- The reasons to reject a datagram. -/
inductive Rejected (p : Platform T) (d : SessionDriver T) (datagram : Bytes) (source : SocketAddr) : Prop where
  | source (h : source ≠ .v4 d.serverAddr)
  | length (h : datagram.length < overheadBytes ∨ maxDatagramBytes < datagram.length)
  | direction (h : PacketCodec.header datagram &&& directionMask ≠ d.packetReceiver.direction.headerBit)
  | authentication (h : PacketCodec.openedBody p.crypto datagram = none)
  | replay (h : d.packetReceiver.replay.Refuses (PacketCodec.header datagram &&& maxSequence))

/-- The codec opens a datagram only if nothing but its number is against it. -/
theorem openPacket_ok {crypto : SessionCrypto} {direction : Direction} {datagram : Bytes} {opened : OpenedPacket}
    (h : PacketCodec.openPacket crypto direction datagram = .ok opened) :
    overheadBytes ≤ datagram.length ∧ datagram.length ≤ maxDatagramBytes ∧
      PacketCodec.header datagram &&& directionMask = direction.headerBit ∧
      PacketCodec.openedBody crypto datagram = some opened.plaintext ∧
      opened.sequence = PacketCodec.header datagram &&& maxSequence := by
  unfold PacketCodec.openPacket at h
  split at h
  · cases h
  · split at h
    · cases h
    · rename_i hlarge hshort
      simp only at h
      split at h
      · cases h
      · rename_i hdirection
        split at h
        · cases h
        · rename_i plaintext hopen
          cases h
          exact ⟨Nat.le_of_not_lt hshort, Nat.le_of_not_lt hlarge, not_not.mp hdirection, hopen, rfl⟩

theorem openPacket_error {crypto : SessionCrypto} {direction : Direction} {datagram : Bytes} {e : PacketError}
    (h : PacketCodec.openPacket crypto direction datagram = .error e) : isDroppedPacketError e = true := by
  unfold PacketCodec.openPacket at h
  split at h
  · cases h
    rfl
  · split at h
    · cases h
      rfl
    · simp only at h
      split at h
      · cases h
        rfl
      · split at h
        · cases h
          rfl
        · cases h

/-- A rejected datagram fails to open with an error that the driver drops, and the receiver stays as it was. -/
theorem wp_openFrom_rejected {d : SessionDriver T} {datagram : Bytes} {source : SocketAddr}
    (h : Rejected p d datagram source) :
    wp (PacketReceiver.openFrom p.crypto d.serverAddr source datagram) (fun _ _ => False)
      (fun e receiver => isDroppedPacketError e = true ∧ receiver = d.packetReceiver) d.packetReceiver := by
  rw [PacketReceiver.openFrom, wp_ite]
  refine ⟨fun _ => ⟨rfl, rfl⟩, fun hsource => ?_⟩
  rw [PacketReceiver.openPacket, wp_bind, wp_get, wp_bind, wp_ofExcept]
  refine ⟨fun opened hopened => ?_, fun e he => ⟨openPacket_error he, rfl⟩⟩
  obtain ⟨hshort, hlarge, hdirection, hbody, hsequence⟩ := openPacket_ok hopened
  have hreplay : d.packetReceiver.replay.Refuses opened.sequence := by
    cases h with
    | source h => exact absurd (not_not.mp hsource) h
    | length h => omega
    | direction h => exact absurd hdirection h
    | authentication h =>
      rw [h] at hbody
      cases hbody
    | replay h => exact hsequence ▸ h
  rw [wp_bind, wp_zoom]
  refine (ReplayWindow.wp_accept_refused hreplay).mono (fun _ _ h => h) fun e w h => ?_
  obtain ⟨he, rfl⟩ := h
  refine ⟨?_, rfl⟩
  rcases he with rfl | rfl <;> rfl

theorem decodeDatagram_rejected {d : SessionDriver T} {datagram : Bytes} {source : SocketAddr} (atMs : UInt64)
    (h : Rejected p d datagram source) : decodeDatagram p atMs.toNat datagram source d = .ok none d := by
  have hopen : openDatagram p datagram source d = .ok none d := by
    have hwp := wp_openFrom_rejected h
    unfold openDatagram
    cases hrun : PacketReceiver.openFrom p.crypto d.serverAddr source datagram d.packetReceiver with
    | ok opened receiver => exact (hwp.ok hrun).elim
    | error e receiver =>
      obtain ⟨he, rfl⟩ := hwp.error hrun
      simp only [he, if_true]
  have hwp : wp (decodeDatagram p atMs.toNat datagram source) (fun decoded t => decoded = none ∧ t = d)
      (fun _ _ => False) d := by
    rw [decodeDatagram, wp_bind, nowMs, if_pos atMs.toNat_lt, wp_pure, wp_bind]
    exact (wp_of_ok hopen).mpr ⟨rfl, rfl⟩
  obtain ⟨decoded, t, hrun, rfl, rfl⟩ := hwp.returns
  exact hrun

theorem handleEvent_rejected {d : SessionDriver T} {a : Arrival} (h : Rejected p d a.datagram a.source) :
    handleEvent p (.arrival a) d = .ok .continue d := by
  have hwp : wp (handleEvent p (.arrival a)) (fun outcome t => outcome = .continue ∧ t = d) (fun _ _ => False) d := by
    rw [handleEvent, handleDatagram, wp_bind]
    exact (wp_of_ok (decodeDatagram_rejected a.decodedAtMs h)).mpr ⟨rfl, rfl⟩
  obtain ⟨outcome, t, hrun, rfl, rfl⟩ := hwp.returns
  exact hrun

/-! ### Two runs -/

/-- Every injected datagram is rejected where it arrives. -/
def InjectedRejected (p : Platform T) : List TaggedEvent → SessionDriver T → Prop
  | [], _ => True
  | tagged :: rest, d =>
    (∀ a, tagged = .injected a → Rejected p d a.datagram a.source) ∧
      ∀ outcome t, handleEvent p tagged.event d = .ok outcome t → InjectedRejected p rest t

theorem runEvents_injected (tagged : List TaggedEvent) {d : SessionDriver T} (h : InjectedRejected p tagged d) :
    (runEvents p (tagged.map TaggedEvent.event) d).2 = (runEvents p (genuineEvents tagged) d).2 ∧
      genuineOutcomes tagged (runEvents p (tagged.map TaggedEvent.event) d).1 =
        (runEvents p (genuineEvents tagged) d).1 := by
  induction tagged generalizing d with
  | nil => exact ⟨rfl, rfl⟩
  | cons event rest ih =>
    obtain ⟨hrejected, hrest⟩ := h
    cases event with
    | injected a =>
      -- The driver goes on as it was, in both runs.
      have hdropped := handleEvent_rejected (hrejected a rfl)
      have hrun : runEvents p (List.map TaggedEvent.event (.injected a :: rest)) d =
          (.ok .continue :: (runEvents p (rest.map TaggedEvent.event) d).1,
            (runEvents p (rest.map TaggedEvent.event) d).2) := by
        simp only [List.map_cons, TaggedEvent.event, runEvents, hdropped]
      rw [hrun]
      exact ih (hrest _ _ hdropped)
    | genuine event =>
      have hgenuine : genuineEvents (.genuine event :: rest) = event :: genuineEvents rest := rfl
      rw [hgenuine]
      simp only [List.map_cons, TaggedEvent.event, runEvents]
      cases hhandle : handleEvent p event d with
      | error e t =>
        refine ⟨rfl, ?_⟩
        simp [genuineOutcomes, TaggedEvent.isGenuine]
      | ok outcome t =>
        obtain ⟨hfinal, houtcomes⟩ := ih (hrest outcome t hhandle)
        refine ⟨hfinal, ?_⟩
        show genuineOutcomes _ (.ok outcome :: _) = .ok outcome :: _
        rw [← houtcomes]
        simp [genuineOutcomes, TaggedEvent.isGenuine]

/-- Rejected datagrams are dropped, leave the driver, and change nothing of what follows. -/
structure Noninterference (p : Platform T) (d : SessionDriver T) : Prop where
  dropped : ∀ datagram source (atMs : UInt64), Rejected p d datagram source →
    decodeDatagram p atMs.toNat datagram source d = .ok none d
  final : ∀ tagged, InjectedRejected p tagged d →
    (runEvents p (tagged.map TaggedEvent.event) d).2 = (runEvents p (genuineEvents tagged) d).2
  outcomes : ∀ tagged, InjectedRejected p tagged d →
    genuineOutcomes tagged (runEvents p (tagged.map TaggedEvent.event) d).1 = (runEvents p (genuineEvents tagged) d).1

/-- From every state of the driver, two sequences of events that differ by rejected datagrams have the same
    outcomes and lead to the same state. -/
theorem rejected_datagrams_do_not_interfere (p : Platform T) (d : SessionDriver T) : Noninterference p d :=
  ⟨fun _ _ atMs h => decodeDatagram_rejected atMs h, fun tagged h => (runEvents_injected tagged h).1,
    fun tagged h => (runEvents_injected tagged h).2⟩

end SessionDriver
end MoshClient
