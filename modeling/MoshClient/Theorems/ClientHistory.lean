import MoshClient.ClientHistory
import MoshClient.Theorems.Synchronization

/-! The client history beside the synchronization state. The history keeps an end for every local state
    that a send may start from or lead to, through appends, allocations, committed sends with their
    evictions, and acknowledgements. -/

namespace MoshClient.ClientHistory
open Machine Limits Effect SynchronizationState

variable {s t : SynchronizationState} {h : ClientHistory}

/-- The history with one more operation. -/
def extend (h : ClientHistory) (operation : ClientOperation) : ClientHistory :=
  { h with operations := h.operations ++ [operation], nextOperation := h.nextOperation + 1 }

/-- The history up to the end `count` of `state`, whose operations the peer holds. -/
def trim (h : ClientHistory) (state count : Nat) : ClientHistory :=
  { h with
    operationOffset := count
    operations := h.operations.drop (count - h.operationOffset)
    checkpoints := h.checkpoints.retain fun number => decide (number ≥ state) }

/-- The history without the end of a state that made room, if one did. -/
def forget (h : ClientHistory) : Option Nat → ClientHistory
  | some evicted => h.removeCheckpoint evicted
  | none => h

/-- The ends that the history keeps, for the states that the synchronization state names. -/
structure Bookkept (s : SynchronizationState) (h : ClientHistory) : Prop where
  known : h.checkpoints.get? s.knownReceiverState = some h.operationOffset
  sent : ∀ n ∈ s.sentNumbers, n ∈ h.checkpoints.keys
  latest : s.localLatest ∈ h.checkpoints.keys
  monotone : ∀ a b x y, a ≤ b → h.checkpoints.get? a = some x → h.checkpoints.get? b = some y → x ≤ y
  bounds : ∀ a x, h.checkpoints.get? a = some x → h.operationOffset ≤ x ∧ x ≤ h.nextOperation
  keys_le : ∀ a ∈ h.checkpoints.keys, a ≤ s.localLatest
  length : h.operationOffset + h.operations.length = h.nextOperation

theorem bookkept_new : Bookkept SynchronizationState.new new := by
  have hget : ∀ a x, new.checkpoints.get? a = some x → a = 0 ∧ x = 0 := by
    intro a x
    simp only [new, OrderedMap.get?_insert, OrderedMap.get?_empty]
    split
    · rintro ⟨⟩
      exact ⟨‹0 = a›.symm, rfl⟩
    · intro hx
      cases hx
  refine ⟨rfl, fun _ hn => (List.not_mem_nil hn).elim, OrderedMap.mem_keys.mpr ⟨0, rfl⟩, fun a b x y _ hx hy => ?_,
    fun a x hx => ?_, fun a ha => ?_, rfl⟩
  · rw [(hget a x hx).2]
    exact Nat.zero_le y
  · rw [(hget a x hx).2]
    exact ⟨Nat.le_refl 0, Nat.le_refl 0⟩
  · obtain ⟨x, hx⟩ := OrderedMap.mem_keys.mp ha
    exact Nat.le_of_eq (hget a x hx).1

/-! ### Appending -/

theorem wp_append (operation : ClientOperation) (h : ClientHistory) :
    wp (append operation) (fun _ h' => h' = h.extend operation)
      (fun e h' => h' = h ∧ (e = .operationIndexExhausted ∨ ∃ e', e = .instruction e')) h := by
  unfold wp
  fun_cases append operation h with
  | case1 => exact ⟨rfl, Or.inr ⟨_, rfl⟩⟩
  | case2 => simp_all
  | case3 => simp_all
  | case4 =>
    obtain ⟨rfl, -⟩ := checkedAdd_eq_some.mp ‹_›
    simp_all [extend]

theorem Bookkept.extend (hb : Bookkept s h) (operation : ClientOperation) : Bookkept s (h.extend operation) := by
  refine ⟨hb.known, hb.sent, hb.latest, hb.monotone, fun a x hx => ?_, hb.keys_le, ?_⟩
  · obtain ⟨hle, hnext⟩ := hb.bounds a x hx
    exact ⟨hle, Nat.le_succ_of_le hnext⟩
  · have hlen := hb.length
    simp only [ClientHistory.extend, List.length_append, List.length_singleton]
    omega

/-! ### Allocating a state -/

theorem Bookkept.allocate (hb : Bookkept s h) (hs : SenderSound s) :
    Bookkept { s with localLatest := s.localLatest + 1, senderGeneration := s.senderGeneration + 1 }
      (h.checkpoint (s.localLatest + 1)) := by
  have hlen := hb.length
  have hold : ∀ a, a ≤ s.localLatest →
      (h.checkpoint (s.localLatest + 1)).checkpoints.get? a = h.checkpoints.get? a := by
    intro a ha
    simp only [checkpoint, OrderedMap.get?_insert]
    rw [if_neg (by omega)]
  have hnew : (h.checkpoint (s.localLatest + 1)).checkpoints.get? (s.localLatest + 1) = some h.nextOperation := by
    simp [checkpoint]
  -- Every end is that of the new state, or one that was there before.
  have hget : ∀ a x, (h.checkpoint (s.localLatest + 1)).checkpoints.get? a = some x →
      a = s.localLatest + 1 ∧ x = h.nextOperation ∨ a ≤ s.localLatest ∧ h.checkpoints.get? a = some x := by
    intro a x hx
    by_cases ha : a = s.localLatest + 1
    · subst ha
      rw [hnew] at hx
      exact Or.inl ⟨rfl, (Option.some.inj hx).symm⟩
    · simp only [checkpoint, OrderedMap.get?_insert, if_neg (Ne.symm ha)] at hx
      exact Or.inr ⟨hb.keys_le a (OrderedMap.mem_keys.mpr ⟨x, hx⟩), hx⟩
  refine ⟨?_, fun n hn => ?_, OrderedMap.mem_keys.mpr ⟨_, hnew⟩, fun a b x y hab hx hy => ?_, fun a x hx => ?_,
    fun a ha => ?_, hlen⟩
  · exact (hold _ hs.known_le).trans hb.known
  · obtain ⟨x, hx⟩ := OrderedMap.mem_keys.mp (hb.sent n hn)
    exact OrderedMap.mem_keys.mpr ⟨x, (hold n (hs.le_latest n hn)).trans hx⟩
  · rcases hget a x hx with ⟨rfl, rfl⟩ | ⟨ha, hx⟩
    · rcases hget b y hy with ⟨-, rfl⟩ | ⟨hb', -⟩
      · exact Nat.le_refl _
      · omega
    · rcases hget b y hy with ⟨-, rfl⟩ | ⟨-, hy⟩
      · exact (hb.bounds a x hx).2
      · exact hb.monotone a b x y hab hx hy
  · rcases hget a x hx with ⟨-, rfl⟩ | ⟨-, hx⟩
    · exact ⟨by simp only [checkpoint]; omega, Nat.le_refl _⟩
    · exact hb.bounds a x hx
  · obtain ⟨x, hx⟩ := OrderedMap.mem_keys.mp ha
    rcases hget a x hx with ⟨rfl, -⟩ | ⟨ha, -⟩
    · exact Nat.le_refl _
    · exact Nat.le_succ_of_le ha

/-! ### Committing a send -/

theorem get?_forget (h : ClientHistory) (evicted : Option Nat) (a : Nat) :
    (h.forget evicted).checkpoints.get? a = if evicted = some a then none else h.checkpoints.get? a := by
  cases evicted with
  | none => simp [forget]
  | some n => simp [forget, removeCheckpoint, eq_comm]

theorem forget_operations (h : ClientHistory) (evicted : Option Nat) :
    (h.forget evicted).operationOffset = h.operationOffset ∧ (h.forget evicted).nextOperation = h.nextOperation ∧
      (h.forget evicted).operations = h.operations := by
  cases evicted <;> exact ⟨rfl, rfl, rfl⟩

/-- The state that makes room is none that a later send could start from or lead to. -/
theorem committed_evicted {evicted : Option Nat} (hs : SenderSound s) (hc : Committed s evicted t) {n : Nat}
    (hn : evicted = some n) : s.knownReceiverState < n ∧ n < s.localLatest ∧ ∀ m ∈ t.sentNumbers, n < m := by
  subst hn
  by_cases hlt : s.knownReceiverState < s.localLatest
  · have hrec := hc.recorded hlt
    obtain ⟨hmem, hafter⟩ := hrec.evicted_lt hs.increasing hs.le_latest
    refine ⟨hs.known_lt n hmem, ?_, hafter⟩
    cases hrec with
    | evicted hnew _ rest hb h => exact hafter _ (h ▸ by simp)
  · cases (hc.unrecorded hlt).2

theorem Bookkept.commit {evicted : Option Nat} (hb : Bookkept s h) (hs : SenderSound s)
    (hc : Committed s evicted t) : Bookkept t (h.forget evicted) := by
  obtain ⟨hoffset, hnext, hops⟩ := forget_operations h evicted
  have hsub : ∀ a x, (h.forget evicted).checkpoints.get? a = some x → h.checkpoints.get? a = some x := by
    intro a x hx
    rw [get?_forget] at hx
    split at hx
    · cases hx
    · exact hx
  have hkeep : ∀ a, evicted ≠ some a → (h.forget evicted).checkpoints.get? a = h.checkpoints.get? a := by
    intro a ha
    rw [get?_forget, if_neg ha]
  have hkeys : ∀ a, evicted ≠ some a → a ∈ h.checkpoints.keys → a ∈ (h.forget evicted).checkpoints.keys := by
    intro a ha hmem
    obtain ⟨x, hx⟩ := OrderedMap.mem_keys.mp hmem
    exact OrderedMap.mem_keys.mpr ⟨x, (hkeep a ha).trans hx⟩
  have hlatest : s.localLatest ∈ (h.forget evicted).checkpoints.keys :=
    hkeys _ (fun he => Nat.lt_irrefl _ (committed_evicted hs hc he).2.1) hb.latest
  refine ⟨?_, fun n hn => ?_, hc.latest ▸ hlatest, fun a b x y hab hx hy => ?_, fun a x hx => ?_, fun a ha => ?_, ?_⟩
  · rw [hc.known, hkeep _ fun he => Nat.lt_irrefl _ (committed_evicted hs hc he).1, hoffset]
    exact hb.known
  · by_cases hlt : s.knownReceiverState < s.localLatest
    · rcases (hc.recorded hlt).mem hn with rfl | hmem
      · exact hlatest
      · exact hkeys n (fun he => Nat.lt_irrefl _ ((committed_evicted hs hc he).2.2 n hn)) (hb.sent n hmem)
    · obtain ⟨hsent, rfl⟩ := hc.unrecorded hlt
      exact hb.sent n (hsent ▸ hn)
  · exact hb.monotone a b x y hab (hsub a x hx) (hsub b y hy)
  · rw [hoffset, hnext]
    exact hb.bounds a x (hsub a x hx)
  · obtain ⟨x, hx⟩ := OrderedMap.mem_keys.mp ha
    rw [hc.latest]
    exact hb.keys_le a (OrderedMap.mem_keys.mpr ⟨x, hsub a x hx⟩)
  · rw [hoffset, hnext, hops]
    exact hb.length

/-! ### Acknowledging -/

/-- A state whose end the history keeps is acknowledged without an error. -/
theorem wp_acknowledge {state count : Nat} (hget : h.checkpoints.get? state = some count)
    (hle : h.operationOffset ≤ count) (hlen : count ≤ h.operationOffset + h.operations.length) :
    wp (acknowledge state) (fun _ h' => h' = h.trim state count) (fun _ _ => False) h := by
  have hsub : checkedSub count h.operationOffset = some (count - h.operationOffset) :=
    checkedSub_eq_some.mpr ⟨rfl, hle⟩
  simp only [wp, acknowledge, hget, hsub]
  rw [if_neg (by omega)]
  rfl

theorem acknowledge_error {state : Nat} {e : DriverError} {h' : ClientHistory} (herror : acknowledge state h = .error e h') :
    h' = h := by
  unfold acknowledge at herror
  split at herror
  · cases herror
    rfl
  · split at herror
    · cases herror
      rfl
    · split at herror
      · cases herror
        rfl
      · cases herror

theorem acknowledge_ok {state : Nat} {h' : ClientHistory} (hok : acknowledge state h = .ok () h') :
    ∃ count, h.checkpoints.get? state = some count ∧ h.operationOffset ≤ count ∧ h' = h.trim state count := by
  unfold acknowledge at hok
  split at hok
  · cases hok
  · rename_i count hcount
    split at hok
    · cases hok
    · rename_i discard hdiscard
      obtain ⟨rfl, hoffset⟩ := checkedSub_eq_some.mp hdiscard
      split at hok
      · cases hok
      · cases hok
        exact ⟨count, hcount, hoffset, rfl⟩

theorem get?_trim (h : ClientHistory) (state count a : Nat) :
    (h.trim state count).checkpoints.get? a = if state ≤ a then h.checkpoints.get? a else none := by
  simp [trim]

/-- An acknowledgement moves the known receiver state to a state whose end is kept. -/
theorem Bookkept.known_kept {n : Nat} {d : AcknowledgementDisposition} (hb : Bookkept s h)
    (ha : Acknowledged n s d t) :
    ∃ count, h.checkpoints.get? t.knownReceiverState = some count ∧ h.operationOffset ≤ count ∧
      count ≤ h.operationOffset + h.operations.length := by
  have hlen := hb.length
  have hmem : t.knownReceiverState ∈ h.checkpoints.keys := by
    cases ha with
    | kept => exact OrderedMap.mem_keys.mpr ⟨_, hb.known⟩
    | moved _ hsent => exact hb.sent _ hsent
  obtain ⟨count, hcount⟩ := OrderedMap.mem_keys.mp hmem
  obtain ⟨hle, hnext⟩ := hb.bounds _ _ hcount
  exact ⟨count, hcount, hle, by omega⟩

theorem Bookkept.acknowledge {n count : Nat} {d : AcknowledgementDisposition} (hb : Bookkept s h)
    (hs : SenderSound s) (ha : Acknowledged n s d t)
    (hcount : h.checkpoints.get? t.knownReceiverState = some count) :
    Bookkept t (h.trim t.knownReceiverState count) := by
  have ht := ha.senderSound hs
  have hlen := hb.length
  obtain ⟨hle, hnext⟩ := hb.bounds _ _ hcount
  have hget : ∀ a x, (h.trim t.knownReceiverState count).checkpoints.get? a = some x ↔
      t.knownReceiverState ≤ a ∧ h.checkpoints.get? a = some x := by
    intro a x
    rw [get?_trim]
    split <;> simp_all
  have hkeys : ∀ a ∈ h.checkpoints.keys, t.knownReceiverState ≤ a →
      a ∈ (h.trim t.knownReceiverState count).checkpoints.keys := by
    intro a hmem hka
    obtain ⟨x, hx⟩ := OrderedMap.mem_keys.mp hmem
    exact OrderedMap.mem_keys.mpr ⟨x, (hget a x).mpr ⟨hka, hx⟩⟩
  refine ⟨(hget _ _).mpr ⟨Nat.le_refl _, hcount⟩, fun m hm => ?_, ?_, fun a b x y hab hx hy => ?_, fun a x hx => ?_,
    fun a hmem => ?_, ?_⟩
  · exact hkeys m (hb.sent m (ha.mem_sentNumbers hm)) (Nat.le_of_lt (ht.known_lt m hm))
  · rw [ha.localLatest_eq]
    exact hkeys _ hb.latest (ha.localLatest_eq ▸ ht.known_le)
  · exact hb.monotone a b x y hab ((hget a x).mp hx).2 ((hget b y).mp hy).2
  · obtain ⟨hka, hx⟩ := (hget a x).mp hx
    exact ⟨hb.monotone _ _ _ _ hka hcount hx, (hb.bounds a x hx).2⟩
  · obtain ⟨x, hx⟩ := OrderedMap.mem_keys.mp hmem
    rw [ha.localLatest_eq]
    exact hb.keys_le a (OrderedMap.mem_keys.mpr ⟨x, ((hget a x).mp hx).2⟩)
  · simp only [trim, List.length_drop]
    omega

theorem Bookkept.sameSender (hb : Bookkept s h) (hsame : SameSender s t) : Bookkept t h := by
  have hn : t.sentNumbers = s.sentNumbers := congrArg (List.map SentState.number) hsame.sent
  obtain ⟨hk, hsent, hlatest, hmono, hbounds, hkeys, hlen⟩ := hb
  refine ⟨?_, ?_, ?_, hmono, hbounds, ?_, hlen⟩
  · rw [hsame.known]; exact hk
  · rw [hn]; exact hsent
  · rw [hsame.latest]; exact hlatest
  · rw [hsame.latest]; exact hkeys

/-! ### Differences -/

/-- The ends of two states, in order and within the operations that the history keeps. -/
structure Between (h : ClientHistory) (base target : Nat) (first last : Nat) : Prop where
  base : h.checkpoints.get? base = some first
  target : h.checkpoints.get? target = some last
  offset_le : h.operationOffset ≤ first
  le : first ≤ last
  last_le : last ≤ h.operationOffset + h.operations.length

/-- Between the ends that the history keeps, a difference fails only where its encoding does. -/
theorem difference_eq {base target first last : Nat} (hb : Between h base target first last) :
    h.difference base target =
      (encodeClientDifference ((h.operations.take (last - h.operationOffset)).drop (first - h.operationOffset))).mapError
        .instruction := by
  have hoffset := hb.offset_le
  have hle := hb.le
  have hlast := hb.last_le
  have hfirst : h.index base = some (first - h.operationOffset) := by
    simp only [index, hb.base, Option.bind_some]
    exact checkedSub_eq_some.mpr ⟨rfl, hoffset⟩
  have hstop : h.index target = some (last - h.operationOffset) := by
    simp only [index, hb.target, Option.bind_some]
    exact checkedSub_eq_some.mpr ⟨rfl, by omega⟩
  simp only [difference, hfirst, hstop]
  rw [if_pos (by omega)]

theorem difference_error {base target first last : Nat} {e : DriverError} (hb : Between h base target first last)
    (he : h.difference base target = .error e) : ∃ e', e = .instruction e' := by
  rw [difference_eq hb] at he
  cases hencode : encodeClientDifference
      ((h.operations.take (last - h.operationOffset)).drop (first - h.operationOffset)) with
  | ok bytes =>
    rw [hencode] at he
    cases he
  | error e' =>
    rw [hencode] at he
    cases he
    exact ⟨e', rfl⟩

/-- A base that a plan or a shutdown request chooses, and the latest state, have their ends in order. -/
theorem Bookkept.between (hb : Bookkept s h) (hs : SenderSound s) {base : Nat}
    (hbase : base = s.knownReceiverState ∨ base ∈ s.sentNumbers) :
    ∃ first last, Between h base s.localLatest first last := by
  have hlen := hb.length
  have hmem : base ∈ h.checkpoints.keys ∧ base ≤ s.localLatest := by
    rcases hbase with rfl | hsent
    · exact ⟨OrderedMap.mem_keys.mpr ⟨_, hb.known⟩, hs.known_le⟩
    · exact ⟨hb.sent base hsent, hs.le_latest base hsent⟩
  obtain ⟨first, hfirst⟩ := OrderedMap.mem_keys.mp hmem.1
  obtain ⟨last, hlast⟩ := OrderedMap.mem_keys.mp hb.latest
  exact ⟨first, last, hfirst, hlast, (hb.bounds _ _ hfirst).1, hb.monotone _ _ _ _ hmem.2 hfirst hlast,
    by have := (hb.bounds _ _ hlast).2; omega⟩

end MoshClient.ClientHistory
