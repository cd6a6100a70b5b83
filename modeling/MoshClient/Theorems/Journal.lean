import MoshClient.Theorems.Driver
import MoshClient.Theorems.Instruction

/-! The journal of a session: the history is the end of what was accepted, its ends are those of the
    allocations, and every transmitted instruction carries the operations between two allocations. -/

namespace MoshClient
namespace Ledger
open SynchronizationState

variable {T : Type} {l l' : Ledger T}

/-- The instruction carries the operations that its base lacks, up to the end of its target. -/
structure Carries (accepted : List ClientOperation) (allocated : List (Nat × Nat)) (m : TransportInstruction)
    (first last : Nat) : Prop where
  base : (m.baseState, first) ∈ allocated
  target : m.isShutdown = false → (m.newState, last) ∈ allocated
  le : first ≤ last
  last_le : last ≤ accepted.length
  operations : decodeClientDifference m.stateDifference = some ((accepted.take last).drop first)

theorem Carries.append {accepted : List ClientOperation} {allocated : List (Nat × Nat)} {m : TransportInstruction}
    {first last : Nat} (h : Carries accepted allocated m first last) (operations : List ClientOperation)
    (states : List (Nat × Nat)) : Carries (accepted ++ operations) (allocated ++ states) m first last := by
  refine ⟨List.mem_append_left _ h.base, fun hs => List.mem_append_left _ (h.target hs), h.le, ?_, ?_⟩
  · rw [List.length_append]
    exact Nat.le_add_right_of_le h.last_le
  · rw [List.take_append_of_le_length h.last_le]
    exact h.operations

/-- What the records of the session say about its history and its instructions. -/
structure Journal (l : Ledger T) : Prop where
  length : l.accepted.length = l.clientHistory.nextOperation
  operations : l.clientHistory.operations = l.accepted.drop l.clientHistory.operationOffset
  checkpoint : ∀ a x, l.clientHistory.checkpoints.get? a = some x → (a, x) ∈ l.allocated
  increasing : l.allocated.Pairwise fun a b => a.1 < b.1 ∧ a.2 ≤ b.2
  allocated_le : ∀ e ∈ l.allocated, e.1 ≤ l.synchronization.localLatest ∧ e.2 ≤ l.accepted.length
  transmitted : ∀ m ∈ l.transmitted, ∃ first last, Carries l.accepted l.allocated m first last

theorem Journal.lookup (hj : l.Journal) {state n : Nat} (h : (state, n) ∈ l.allocated) :
    l.allocated.lookup state = some n := by
  obtain ⟨older, newer, hsplit⟩ := List.append_of_mem h
  refine List.lookup_eq_some_iff.mpr ⟨older, newer, hsplit, fun e he => ?_⟩
  have hincreasing := hj.increasing
  rw [hsplit] at hincreasing
  have hlt := ((List.pairwise_append.mp hincreasing).2.2 e he _ (List.mem_cons_self)).1
  simp only [bne_iff_ne, ne_eq]
  omega

/-- Each state is allocated once. -/
theorem Journal.allocated_unique (hj : l.Journal) {state a b : Nat} (ha : (state, a) ∈ l.allocated)
    (hb : (state, b) ∈ l.allocated) : a = b :=
  Option.some.inj ((hj.lookup ha).symm.trans (hj.lookup hb))

/-- An instruction that the driver may send carries the operations between the ends of its base and of
    the latest state. -/
theorem Journal.carries (hj : l.Journal) (hl : l.Sound) {m : TransportInstruction} (hm : l.Transmittable m)
    {first last : Nat} (hb : l.clientHistory.Between m.baseState l.synchronization.localLatest first last) :
    Carries l.accepted l.allocated m first last := by
  have hlen := hj.length
  have hlast := hb.last_le
  have hoffset := hb.offset_le
  have hbook := hl.bookkept.length
  refine ⟨hj.checkpoint _ _ hb.base, fun hs => ?_, hb.le, by omega, ?_⟩
  · rcases hm.target with htarget | ⟨hshutdown, -⟩
    · rw [htarget]
      exact hj.checkpoint _ _ hb.target
    · simp [TransportInstruction.isShutdown, hshutdown] at hs
  · have hdifference := hm.difference
    rw [ClientHistory.difference_eq hb, hj.operations] at hdifference
    -- The history starts at its offset, so its indices are those of the session less the offset.
    have hindex : ((l.accepted.drop l.clientHistory.operationOffset).take (last - l.clientHistory.operationOffset)).drop
        (first - l.clientHistory.operationOffset) = (l.accepted.take last).drop first := by
      rw [← List.drop_take, List.drop_drop]
      congr 1
      omega
    rw [hindex] at hdifference
    cases hencode : encodeClientDifference ((l.accepted.take last).drop first) with
    | error e =>
      rw [hencode] at hdifference
      cases hdifference
    | ok bytes =>
      rw [hencode] at hdifference
      cases hdifference
      exact decode_encodeClientDifference hencode

theorem Journal.accept (hj : l.Journal) (hl : l.Sound) (operation : ClientOperation) :
    (l.accept operation).Journal := by
  have hlen := hj.length
  have hbook := hl.bookkept.length
  refine ⟨?_, ?_, hj.checkpoint, hj.increasing, fun e he => ?_, fun m hm => ?_⟩
  · simp only [Ledger.accept, ClientHistory.extend, List.length_append, List.length_singleton, hlen]
  · simp only [Ledger.accept, ClientHistory.extend]
    rw [hj.operations, List.drop_append_of_le_length (by omega)]
  · obtain ⟨hstate, hcount⟩ := hj.allocated_le e he
    refine ⟨hstate, ?_⟩
    simp only [Ledger.accept, List.length_append]
    omega
  · obtain ⟨first, last, h⟩ := hj.transmitted m hm
    have happend := h.append [operation] []
    rw [List.append_nil] at happend
    exact ⟨first, last, happend⟩

theorem Journal.allocate (hj : l.Journal) : l.allocate.Journal := by
  have hlen := hj.length
  refine ⟨hlen, hj.operations, fun a x hx => ?_, ?_, fun e he => ?_, fun m hm => ?_⟩
  · simp only [Ledger.allocate, ClientHistory.checkpoint, OrderedMap.get?_insert] at hx
    refine List.mem_append.mpr ?_
    split at hx
    · rename_i ha
      rw [← ha, ← Option.some.inj hx, ← hlen]
      exact Or.inr (List.mem_singleton_self _)
    · exact Or.inl (hj.checkpoint a x hx)
  · refine List.pairwise_append.mpr ⟨hj.increasing, List.pairwise_singleton _ _, fun a ha b hb => ?_⟩
    obtain ⟨hstate, hcount⟩ := hj.allocated_le a ha
    rw [List.mem_singleton.mp hb]
    exact ⟨Nat.lt_succ_of_le hstate, hcount⟩
  · rcases List.mem_append.mp he with he | he
    · obtain ⟨hstate, hcount⟩ := hj.allocated_le e he
      exact ⟨Nat.le_succ_of_le hstate, hcount⟩
    · rw [List.mem_singleton.mp he]
      exact ⟨Nat.le_refl _, Nat.le_refl _⟩
  · obtain ⟨first, last, h⟩ := hj.transmitted m hm
    have happend := h.append [] [(l.synchronization.localLatest + 1, l.accepted.length)]
    rw [List.append_nil] at happend
    exact ⟨first, last, happend⟩

theorem Journal.transmit (hj : l.Journal) (hl : l.Sound) {m : TransportInstruction} (hm : l.Transmittable m) :
    Journal { l with transmitted := l.transmitted ++ [m] } := by
  refine ⟨hj.length, hj.operations, hj.checkpoint, hj.increasing, hj.allocated_le, fun m' hm' => ?_⟩
  rcases List.mem_append.mp hm' with hm' | hm'
  · exact hj.transmitted m' hm'
  · rw [List.mem_singleton.mp hm']
    obtain ⟨first, last, hbetween⟩ := hl.bookkept.between hl.sender hm.base
    exact ⟨first, last, hj.carries hl hm hbetween⟩

theorem Journal.step (hj : l.Journal) (hl : l.Sound) (h : Step l l') : l'.Journal := by
  cases h with
  | allocate => exact hj.allocate
  | transmit m hm => exact hj.transmit hl hm
  | skip sequence rest hrest => exact ⟨hj.length, hj.operations, hj.checkpoint, hj.increasing, hj.allocated_le, hj.transmitted⟩
  | encrypt sequence h rest hrest =>
    exact ⟨hj.length, hj.operations, hj.checkpoint, hj.increasing, hj.allocated_le, hj.transmitted⟩
  | commit evicted t h =>
    obtain ⟨hoffset, hnext, hops⟩ := l.clientHistory.forget_operations evicted
    refine ⟨hj.length.trans hnext.symm, ?_, fun a x hx => ?_, hj.increasing, fun e he => ?_, hj.transmitted⟩
    · rw [hops, hoffset]
      exact hj.operations
    · simp only [ClientHistory.get?_forget] at hx
      split at hx
      · cases hx
      · exact hj.checkpoint a x hx
    · simp only [h.latest]
      exact hj.allocated_le e he
  | acknowledge n count d t h hcount =>
    have hle := (hl.bookkept.bounds _ _ hcount).1
    refine ⟨hj.length, ?_, fun a x hx => ?_, hj.increasing, fun e he => ?_, hj.transmitted⟩
    · simp only [ClientHistory.trim]
      rw [hj.operations, List.drop_drop]
      congr 1
      omega
    · simp only [ClientHistory.get?_trim] at hx
      split at hx
      · exact hj.checkpoint a x hx
      · cases hx
    · simp only [h.localLatest_eq]
      exact hj.allocated_le e he
  | construct plan commit t terminal hp h =>
    refine ⟨hj.length, hj.operations, hj.checkpoint, hj.increasing, fun e he => ?_, hj.transmitted⟩
    simp only [h.sender.latest]
    exact hj.allocated_le e he

theorem Journal.move (hj : l.Journal) (hl : l.Sound) (h : Move l l') : l'.Journal := by
  cases h with
  | accept operation => exact hj.accept hl operation
  | step h => exact hj.step hl h

theorem journal_initial (serverAddr : SocketAddrV4) (initialTerminal : T) (mode : PredictionMode) :
    (SessionDriver.initial serverAddr initialTerminal mode).ledger.Journal := by
  refine ⟨rfl, rfl, fun a x hx => ?_, List.pairwise_singleton _ _, fun e he => ?_, fun m hm => (List.not_mem_nil hm).elim⟩
  · simp only [SessionDriver.ledger, SessionDriver.initial, ClientHistory.new, OrderedMap.get?_insert,
      OrderedMap.get?_empty] at hx
    split at hx
    · rename_i ha
      rw [← ha, ← Option.some.inj hx]
      exact List.mem_singleton_self _
    · cases hx
  · rw [List.mem_singleton.mp he]
    exact ⟨Nat.le_refl _, Nat.le_refl _⟩

theorem Journal.runs (hj : l.Journal) (hl : l.Sound) (h : Runs l l') : l'.Sound ∧ l'.Journal := by
  induction h with
  | refl => exact ⟨hl, hj⟩
  | tail _ h ih => exact ⟨ih.1.move h, ih.2.move ih.1 h⟩

/-! ### What grows -/

/-- What was accepted and what was allocated stays. -/
structure Extends (l l' : Ledger T) : Prop where
  accepted : l.accepted <+: l'.accepted
  allocated : l.allocated <+: l'.allocated

theorem Extends.carries (h : Extends l l') {m : TransportInstruction} {first last : Nat}
    (hm : Carries l.accepted l.allocated m first last) : Carries l'.accepted l'.allocated m first last := by
  obtain ⟨operations, ho⟩ := h.accepted
  obtain ⟨states, hs⟩ := h.allocated
  rw [← ho, ← hs]
  exact hm.append operations states

theorem Step.accepted_eq (h : Step l l') : l'.accepted = l.accepted := by
  cases h <;> rfl

theorem Step.extends (h : Step l l') : Extends l l' := by
  cases h with
  | allocate => exact ⟨List.prefix_refl _, List.prefix_append _ _⟩
  | _ => exact ⟨List.prefix_refl _, List.prefix_refl _⟩

theorem Move.extends (h : Move l l') : Extends l l' := by
  cases h with
  | accept operation => exact ⟨List.prefix_append _ _, List.prefix_refl _⟩
  | step h => exact h.extends

theorem Extends.trans {l'' : Ledger T} (h : Extends l l') (h' : Extends l' l'') : Extends l l'' :=
  ⟨h.accepted.trans h'.accepted, h.allocated.trans h'.allocated⟩

theorem Runs.extends (h : Runs l l') : Extends l l' := by
  induction h with
  | refl => exact ⟨List.prefix_refl _, List.prefix_refl _⟩
  | tail _ h ih => exact ih.trans h.extends

/-! ### The latest state -/

/-- The latest state has all operations accepted so far. -/
def Settled (l : Ledger T) : Prop :=
  l.clientHistory.checkpoints.get? l.synchronization.localLatest = some l.clientHistory.nextOperation

theorem settled_allocate (l : Ledger T) : l.allocate.Settled := by
  simp [Settled, Ledger.allocate, ClientHistory.checkpoint]

theorem Settled.advance (hs : l.Settled) (operation : Option ClientOperation) : (l.advance operation).Settled := by
  cases operation with
  | none => exact hs
  | some operation => exact settled_allocate _

/-- A history that only dropped ends still has that of the latest state. -/
theorem Settled.of_dropped (hs : l.Settled) (hl' : l'.Sound)
    (hlatest : l'.synchronization.localLatest = l.synchronization.localLatest)
    (hnext : l'.clientHistory.nextOperation = l.clientHistory.nextOperation)
    (hkept : ∀ a x, l'.clientHistory.checkpoints.get? a = some x → l.clientHistory.checkpoints.get? a = some x) :
    l'.Settled := by
  obtain ⟨x, hx⟩ := OrderedMap.mem_keys.mp hl'.bookkept.latest
  have hold := hkept _ _ hx
  rw [hlatest] at hold
  unfold Settled
  rw [hx, ← hold, hs, hnext]

theorem Settled.step (hs : l.Settled) (hl : l.Sound) (h : Step l l') : l'.Settled := by
  have hl' := hl.step h
  cases h with
  | allocate => exact settled_allocate l
  | transmit m hm => exact hs
  | skip sequence rest hrest => exact hs
  | encrypt sequence h rest hrest => exact hs
  | commit evicted t h =>
    refine hs.of_dropped hl' h.latest (l.clientHistory.forget_operations evicted).2.1 fun a x hx => ?_
    simp only [ClientHistory.get?_forget] at hx
    split at hx
    · cases hx
    · exact hx
  | acknowledge n count d t h hcount =>
    refine hs.of_dropped hl' h.localLatest_eq rfl fun a x hx => ?_
    simp only [ClientHistory.get?_trim] at hx
    split at hx
    · exact hx
    · cases hx
  | construct plan commit t terminal hp h => exact hs.of_dropped hl' h.sender.latest rfl fun _ _ hx => hx

/-- From a settled ledger, an instruction carries the operations from its base to the last one. -/
theorem Settled.carries (hs : l.Settled) (hj : l.Journal) (hl : l.Sound) {m : TransportInstruction}
    (hm : l.Transmittable m) : ∃ first, Carries l.accepted l.allocated m first l.accepted.length := by
  obtain ⟨first, last, hbetween⟩ := hl.bookkept.between hl.sender hm.base
  have hlast : last = l.accepted.length := by
    rw [hj.length]
    exact Option.some.inj (hbetween.target.symm.trans hs)
  exact ⟨first, hlast ▸ hj.carries hl hm hbetween⟩

/-- What steps without a new operation leave behind. -/
structure Quiet (l l' : Ledger T) : Prop where
  sound : l'.Sound
  journal : l'.Journal
  settled : l'.Settled
  accepted : l'.accepted = l.accepted
  grown : Extends l l'
  transmitted : ∃ sent, l'.transmitted = l.transmitted ++ sent ∧
    ∀ m ∈ sent, ∃ first, Carries l'.accepted l'.allocated m first l'.accepted.length

theorem quiet_of_reaches (hl : l.Sound) (hj : l.Journal) (hs : l.Settled) (h : Reaches l l') : Quiet l l' := by
  induction h with
  | refl => exact ⟨hl, hj, hs, rfl, ⟨List.prefix_refl _, List.prefix_refl _⟩, [], by simp, by simp⟩
  | @tail k k' _ h ih =>
    obtain ⟨hk, hjk, hsk, haccepted, hextends, sent, hsent, hcarries⟩ := ih
    have hstep := h.extends
    refine ⟨hk.step h, hjk.step hk h, hsk.step hk h, h.accepted_eq.trans haccepted, hextends.trans hstep, ?_⟩
    have hold : ∀ m ∈ sent, ∃ first, Carries k'.accepted k'.allocated m first k'.accepted.length := by
      intro m hm
      obtain ⟨first, hc⟩ := hcarries m hm
      refine ⟨first, ?_⟩
      rw [h.accepted_eq]
      have hc' := hstep.carries hc
      rwa [h.accepted_eq] at hc'
    cases h with
    | transmit m hm =>
      refine ⟨sent ++ [m], by simp [hsent], fun m' hm' => ?_⟩
      rcases List.mem_append.mp hm' with hm' | hm'
      · exact hold m' hm'
      · rw [List.mem_singleton.mp hm']
        exact hsk.carries hjk hk hm
    | _ => exact ⟨sent, hsent, hold⟩

end Ledger

/-- The journal of an opened session holds its first operation. -/
theorem Connection.journal {T : Type} {p : Platform T} (c : Connection p) : c.driver.ledger.Journal := by
  obtain ⟨initialTerminal, h⟩ := c.ledger_eq
  have hsound := SessionDriver.sound_initial c.serverAddr initialTerminal c.mode
  rw [h]
  exact ((Ledger.journal_initial _ initialTerminal _).accept hsound _).allocate

end MoshClient
