import MoshClient.Delivery
import MoshClient.Theorems.Journal

/-! Exactly once, in order: every state that a peer builds from the instructions of a session holds the
    operations that the session had accepted when it allocated the state. -/

namespace MoshClient
open Effect Simulation

variable {T : Type} {p : Platform T}

namespace Ledger

/-- The peer's copy of a state is what the session had accepted when it allocated the state. -/
def Copies (l : Ledger T) (held : Nat × List ClientOperation) : Prop :=
  ∃ n, (held.1, n) ∈ l.allocated ∧ held.2 = l.accepted.take n

/-- A copy stays exact while the session goes on. -/
theorem Copies.move {l l' : Ledger T} {held : Nat × List ClientOperation} (hj : l.Journal) (hc : l.Copies held)
    (h : Move l l') : l'.Copies held := by
  obtain ⟨n, hmem, hheld⟩ := hc
  have hn : n ≤ l.accepted.length := (hj.allocated_le _ hmem).2
  cases h with
  | accept operation =>
    refine ⟨n, hmem, ?_⟩
    rw [hheld, Ledger.accept, List.take_append_of_le_length hn]
  | step h =>
    cases h with
    | allocate => exact ⟨n, List.mem_append_left _ hmem, hheld⟩
    | _ => exact ⟨n, hmem, hheld⟩

/-- What the peer builds from a transmitted instruction and an exact copy of its base is an exact copy of
    its target. -/
theorem Copies.build {l : Ledger T} {m : TransportInstruction} {held built : Nat × List ClientOperation}
    (hj : l.Journal) (hm : m ∈ l.transmitted) (hc : l.Copies held) (hb : Delivery.build m held = some built) :
    l.Copies built := by
  obtain ⟨first, last, hcarries⟩ := hj.transmitted m hm
  obtain ⟨n, hmem, hheld⟩ := hc
  unfold Delivery.build at hb
  split at hb
  · cases hb
  · rename_i hordinary
    push Not at hordinary
    obtain ⟨hshutdown, hbase⟩ := hordinary
    rw [hcarries.operations, Option.map_some] at hb
    cases hb
    -- A state is allocated once, so the copy of the base ends where the difference starts.
    have hfirst : n = first := hj.allocated_unique hmem (hbase ▸ hcarries.base)
    subst hfirst
    refine ⟨last, hcarries.target (by simpa using hshutdown), ?_⟩
    have htake : l.accepted.take n = (l.accepted.take last).take n := by
      rw [List.take_take, Nat.min_eq_left hcarries.le]
    simp only [hheld]
    rw [htake, List.take_append_drop]

/-- The peer can read every ordinary instruction against its base. -/
theorem Journal.builds {l : Ledger T} {m : TransportInstruction} {held : Nat × List ClientOperation}
    (hj : l.Journal) (hm : m ∈ l.transmitted) (hordinary : m.isShutdown = false) (hbase : m.baseState = held.1) :
    (Delivery.build m held).isSome := by
  obtain ⟨first, last, hcarries⟩ := hj.transmitted m hm
  have hreads : ¬(m.isShutdown ∨ m.baseState ≠ held.1) := by simp [hordinary, hbase]
  rw [Delivery.build, if_neg hreads, hcarries.operations]
  rfl

end Ledger

namespace Delivery

/-- What holds of a driver and its peer in every run. -/
structure Invariant (s : Delivery T) : Prop where
  sound : s.driver.ledger.Sound
  journal : s.driver.ledger.Journal
  copies : ∀ held ∈ s.held, s.driver.ledger.Copies held

theorem invariant_start (c : Connection p) : Invariant (start c.driver) := by
  obtain ⟨initialTerminal, h⟩ := c.ledger_eq
  refine ⟨c.sound, c.journal, fun held hheld => ?_⟩
  rw [List.mem_singleton.mp hheld]
  refine ⟨0, ?_, rfl⟩
  show (0, 0) ∈ c.driver.ledger.allocated
  rw [h]
  exact List.mem_append_left _ (List.mem_singleton_self _)

/-- The driver's part of the invariant goes along every run of the ledger. -/
theorem Invariant.reaches {s : Delivery T} (hs : Invariant s) {l : Ledger T}
    (h : SessionDriver.recording.Reaches s.driver.ledger l) :
    l.Sound ∧ l.Journal ∧ ∀ held ∈ s.held, l.Copies held := by
  induction h with
  | refl => exact ⟨hs.sound, hs.journal, hs.copies⟩
  | tail _ h ih =>
    obtain ⟨hsound, hjournal, hcopies⟩ := ih
    exact ⟨hsound.move h, hjournal.move hsound h, fun held hheld => (hcopies held hheld).move hjournal h⟩

theorem Invariant.step {s : Delivery T} (hs : Invariant s) (action : DeliveryAction) : Invariant (s.step p action) := by
  cases action with
  | call call =>
    have hfollows := SessionDriver.follows_call p call s.driver hs.sound
    simp only [Delivery.step]
    split
    · exact hs
    · split
      · rename_i driver hcall
        obtain ⟨hsound, hjournal, hcopies⟩ := hs.reaches (hfollows.ok hcall)
        exact ⟨hsound, hjournal, hcopies⟩
      · rename_i e driver hcall
        obtain ⟨hsound, hjournal, hcopies⟩ := hs.reaches (hfollows.error hcall).1
        exact ⟨hsound, hjournal, hcopies⟩
  | deliver message held =>
    simp only [Delivery.step]
    split
    · rename_i m state hmessage hstate
      refine ⟨hs.sound, hs.journal, fun built hbuilt => ?_⟩
      rcases List.mem_append.mp hbuilt with hbuilt | hbuilt
      · exact hs.copies built hbuilt
      · exact (hs.copies state (List.mem_of_getElem? hstate)).build hs.journal (List.mem_of_getElem? hmessage)
          (Option.mem_toList.mp hbuilt)
    · exact hs

theorem Invariant.run {s : Delivery T} (hs : Invariant s) (actions : List DeliveryAction) :
    Invariant (s.run p actions) := by
  induction actions generalizing s with
  | nil => exact hs
  | cons action actions ih => exact ih (hs.step action)

/-- Every state that the peer holds was allocated, once, and the peer's operations for it are those that
    the session had accepted at that time, in their order. Every ordinary instruction whose base the peer
    holds gives it a state. -/
structure Exact (s : Delivery T) : Prop where
  copies : ∀ held ∈ s.held, ∃ n, (held.1, n) ∈ s.driver.trace.allocated ∧ n ≤ s.driver.trace.accepted.length ∧
    held.2 = s.driver.trace.accepted.take n
  once : s.driver.trace.allocated.Pairwise fun a b => a.1 < b.1 ∧ a.2 ≤ b.2
  builds : ∀ m ∈ s.driver.trace.transmitted, m.isShutdown = false → ∀ held ∈ s.held, m.baseState = held.1 →
    (build m held).isSome

/-- Over every run of the driver and every delivery of its instructions, no operation is lost, repeated or
    reordered in a state that the peer builds. -/
theorem exactly_once (c : Connection p) (actions : List DeliveryAction) : Exact ((start c.driver).run p actions) := by
  have h := (invariant_start c).run (p := p) actions
  refine ⟨fun held hheld => ?_, h.journal.increasing, fun m hm hordinary held _ hbase => ?_⟩
  · obtain ⟨n, hmem, heq⟩ := h.copies held hheld
    exact ⟨n, hmem, (h.journal.allocated_le _ hmem).2, heq⟩
  · exact h.journal.builds hm hordinary hbase

end Delivery
end MoshClient
