import MoshClient.Theorems.Admission
import MoshClient.Theorems.Instruction
import MoshClient.Theorems.Run

/-! Client differences compose. The encoding of a log is the encodings of its parts one after the other, and each part
    is within the limits that the log is within; so the difference between two states is that up to a state between
    them followed by that from there on. -/

namespace MoshClient
open Wire Machine Limits Effect Simulation

/-! ### Parts of a log -/

theorem encodeToVec_append (xs ys : List TerminalOperation) :
    (TerminalDifference.mk (xs ++ ys)).encodeToVec =
      (TerminalDifference.mk xs).encodeToVec ++ (TerminalDifference.mk ys).encodeToVec := by
  simp only [TerminalDifference.encodeToVec, TerminalDifference.fields, List.map_append, encodeFields, List.flatMap_append]

theorem encodeClientDifference_append {xs ys : List ClientOperation} {bytes : Bytes}
    (h : encodeClientDifference (xs ++ ys) = .ok bytes) :
    ∃ left right, encodeClientDifference xs = .ok left ∧ encodeClientDifference ys = .ok right ∧ bytes = left ++ right := by
  obtain ⟨henc, rfl⟩ := encodeClientDifference_eq_ok.mp h
  refine ⟨_, _, encodeClientDifference_eq_ok.mpr ⟨henc.sublist (List.sublist_append_left xs ys), rfl⟩,
    encodeClientDifference_eq_ok.mpr ⟨henc.sublist (List.sublist_append_right xs ys), rfl⟩, ?_⟩
  rw [List.map_append, encodeToVec_append]

/-- What lies between two places of a list is what lies between the first and a third, and then the rest. -/
theorem drop_take_append {α : Type} (l : List α) {i j k : Nat} (hij : i ≤ j) (hjk : j ≤ k) :
    (l.take k).drop i = (l.take j).drop i ++ (l.take k).drop j := by
  have htake : (l.take j).drop i = ((l.take k).drop i).take (j - i) := by
    rw [← List.drop_take, List.take_take, Nat.min_eq_left hjk]
  have hdrop : (l.take k).drop j = ((l.take k).drop i).drop (j - i) := by rw [List.drop_drop, Nat.add_sub_cancel' hij]
  rw [htake, hdrop, List.take_append_drop]

namespace ClientHistory

variable {h : ClientHistory}

/-! ### Histories -/

/-- The counts of a history are in step with its operations. -/
structure Counted (h : ClientHistory) : Prop where
  length : h.operationOffset + h.operations.length = h.nextOperation
  bounds : ∀ state count, h.checkpoints.get? state = some count → count ≤ h.nextOperation

theorem counted_new : Counted new := by
  refine ⟨rfl, fun state count hget => ?_⟩
  simp only [new, OrderedMap.get?_insert, OrderedMap.get?_empty] at hget
  split at hget
  · cases hget
    exact Nat.le_refl 0
  · cases hget

theorem Counted.perform (hc : h.Counted) (call : HistoryCall) : (h.perform call).Counted := by
  cases call with
  | append operation =>
    refine exec_of_wp (P := Counted) ((wp_append operation h).mono (fun _ t ht => ?_) fun _ t ht => ht.1 ▸ hc)
    subst ht
    refine ⟨?_, fun state count hget => Nat.le_succ_of_le (hc.bounds state count hget)⟩
    have hlength := hc.length
    simp only [extend, List.length_append, List.length_singleton]
    omega
  | checkpoint state =>
    refine ⟨hc.length, fun a count hget => ?_⟩
    simp only [ClientHistory.perform, checkpoint, OrderedMap.get?_insert] at hget
    split at hget
    · cases hget
      exact Nat.le_refl _
    · exact hc.bounds a count hget
  | acknowledge state =>
    rw [ClientHistory.perform, exec]
    split
    · rename_i hok
      obtain ⟨count, hcount, hoffset, rfl⟩ := acknowledge_ok hok
      have hlength := hc.length
      have hbound := hc.bounds state count hcount
      refine ⟨?_, fun a count' hget => hc.bounds a count' ?_⟩
      · simp only [trim, List.length_drop]
        omega
      · rw [get?_trim] at hget
        split at hget
        · exact hget
        · cases hget
    · rename_i herror
      rw [acknowledge_error herror]
      exact hc
  | removeCheckpoint state =>
    refine ⟨hc.length, fun a count hget => hc.bounds a count ?_⟩
    simp only [ClientHistory.perform, removeCheckpoint, OrderedMap.get?_remove] at hget
    split at hget
    · cases hget
    · exact hget

theorem counted_after (calls : List HistoryCall) : (after calls).Counted := by
  suffices ∀ h : ClientHistory, h.Counted → (calls.foldl perform h).Counted from this new counted_new
  induction calls with
  | nil => exact fun h hc => hc
  | cons call calls ih => exact fun h hc => ih (h.perform call) (hc.perform call)

/-- The three differences between the ends of three states, given in the order of the ends. -/
def Composed (h : ClientHistory) (a b c : Nat) : Prop :=
  ∃ left right, h.difference a b = .ok left ∧ h.difference b c = .ok right ∧ h.difference a c = .ok (left ++ right)

/-- The differences compose between all states, in their order, whose ends the history keeps. -/
def Composes (h : ClientHistory) : Prop :=
  ∀ a b c first middle last, a ≤ b → b ≤ c → h.checkpoints.get? a = some first → h.checkpoints.get? b = some middle →
    h.checkpoints.get? c = some last → h.operationOffset ≤ first → h.Composed a b c

theorem composed_of_ends (henc : Encodable h.operations) {a b c first middle last : Nat}
    (hab : h.Between a b first middle) (hbc : h.Between b c middle last) : h.Composed a b c := by
  have hac : h.Between a c first last := ⟨hab.base, hbc.target, hab.offset_le, hab.le.trans hbc.le, hbc.last_le⟩
  -- The operations between the outer ends are encoded, as they are part of the log.
  have hrange : Encodable ((h.operations.take (last - h.operationOffset)).drop (first - h.operationOffset)) :=
    henc.sublist ((List.drop_sublist _ _).trans (List.take_sublist _ _))
  have hwhole := encodeClientDifference_eq_ok.mpr ⟨hrange, rfl⟩
  rw [drop_take_append _ (Nat.sub_le_sub_right hab.le _) (Nat.sub_le_sub_right hbc.le _)] at hwhole
  obtain ⟨left, right, hleft, hright, hbytes⟩ := encodeClientDifference_append hwhole
  refine ⟨left, right, ?_, ?_, ?_⟩
  · rw [difference_eq hab, hleft]
    rfl
  · rw [difference_eq hbc, hright]
    rfl
  · rw [difference_eq hac, drop_take_append _ (Nat.sub_le_sub_right hab.le _) (Nat.sub_le_sub_right hbc.le _), hwhole, hbytes]
    rfl

end ClientHistory

/-! ### The history of a session -/

namespace SessionDriver

variable {T : Type} {p : Platform T}

/-- The ledger is sound, and its log is encoded. -/
structure Encoded (l : Ledger T) : Prop where
  sound : l.Sound
  encodable : Encodable l.clientHistory.operations

/-- Only the acceptance of an operation makes the log longer. -/
theorem Encoded.step {l l' : Ledger T} (hl : Encoded l) (h : Ledger.Step l l') : Encoded l' := by
  refine ⟨hl.sound.step h, ?_⟩
  cases h with
  | allocate => exact hl.encodable
  | transmit m h => exact hl.encodable
  | skip sequence rest hrest => exact hl.encodable
  | encrypt sequence h rest hrest => exact hl.encodable
  | commit evicted t h =>
    obtain ⟨-, -, hsame⟩ := ClientHistory.forget_operations l.clientHistory evicted
    rw [hsame]
    exact hl.encodable
  | acknowledge n count d t h hcount => exact hl.encodable.sublist (List.drop_sublist _ _)
  | construct plan commit t terminal hp h => exact hl.encodable

def encoding : Simulation DriverError (SessionDriver T) (Ledger T) := keeping ledger Encoded

theorem encoding_of_bookkeeping {α : Type} {m : Driving T α} (h : bookkeeping.Follows m) : encoding.Follows m := by
  have hruns : ∀ {l l' : Ledger T}, Encoded l → Ledger.Reaches l l' → Encoded l' := by
    intro l l' hl hreach
    induction hreach with
    | refl => exact hl
    | tail _ hstep ih => exact ih.step hstep
  intro s
  refine followsFrom_keeping.mpr fun hs => ?_
  exact (h s hs.sound).mono (fun _ _ ht => hruns hs ht) fun _ _ ht => hruns hs ht.1

theorem encoding_appendOperation (operation : ClientOperation) :
    encoding.Follows (appendOperation operation : Driving T Unit) := by
  intro s
  refine followsFrom_keeping.mpr fun hs => ?_
  have hencodable : wp (appendOperation operation) (fun _ t => Encodable t.clientHistory.operations)
      (fun _ t => Encodable t.clientHistory.operations) s := by
    rw [appendOperation, wp_bind, onClientHistory, wp_zoom]
    exact (ClientHistory.encodable_append hs.encodable operation).mono (fun _ _ ht => ht) fun _ _ ht => ht
  refine ((wp_appendOperation operation s).and hencodable).mono ?_ ?_
  · intro _ t ht
    exact ⟨ht.1 ▸ hs.sound.accept operation, ht.2⟩
  · intro _ t ht
    exact ⟨ht.1.1 ▸ hs.sound, ht.2⟩

theorem encoding_advanceClient (operation : ClientOperation) (nowMs : Nat) :
    encoding.Follows (advanceClient operation nowMs : Driving T Nat) := by
  refine (encoding_appendOperation operation).bind fun _ => ?_
  refine (encoding_of_bookkeeping follows_allocateState).bind fun _ => ?_
  refine Follows.bind (encoding_of_bookkeeping ?_) fun _ => (unseen_pure _).follows
  exact (unseen_onScheduler (SendScheduler.neverStale_noteLocalChange nowMs)).follows

theorem encoding_handleCommand (elapsedMs : Nat) (command : SessionCommand) :
    encoding.Follows (handleCommand p elapsedMs command) := by
  refine (encoding_of_bookkeeping (unseen_nowMs elapsedMs).follows).bind fun now => ?_
  cases command with
  | input bytes =>
    refine .ite (unseen_pure _).follows ((encoding_advanceClient _ now).bind fun state => ?_)
    exact encoding_of_bookkeeping (follows_predictInput p state bytes now)
  | resize columns rows =>
    refine (encoding_advanceClient _ now).bind fun _ => unseen_get.follows.bind fun self => ?_
    exact encoding_of_bookkeeping (follows_predictInput p _ [] now)
  | repaint => exact (unseen_modify fun _ => by rfl).follows

theorem encoding_call (c : Call) : encoding.Follows (call p c) := by
  obtain ⟨elapsedMs, command, rfl⟩ | h := bookkeeping_call p c
  · exact encoding_handleCommand elapsedMs command
  · exact encoding_of_bookkeeping h

theorem encoded_driver (c : Connection p) : Encoded c.driver.ledger := by
  have hopened := c.opened
  unfold connect at hopened
  split at hopened
  · cases hopened
  · rename_i initialTerminal _
    split at hopened
    · cases hopened
    · rename_i n driver hadvance
      cases hopened
      have hinitial : Encoded (initial c.serverAddr initialTerminal c.mode).ledger :=
        ⟨sound_initial _ _ _, ⟨Nat.zero_le _, fun _ hmem => (List.not_mem_nil hmem).elim, Nat.zero_le _⟩⟩
      exact (followsFrom_keeping.mp (encoding_advanceClient _ 0 _) hinitial).ok hadvance

/-- The log of a session is encoded after every run, also after one that ended with an error. -/
theorem wp_calls_encoded (c : Connection p) (cs : List Call) :
    wp (calls p cs) (fun _ d => Encoded d.ledger) (fun _ d => Encoded d.ledger) c.driver :=
  followsFrom_keeping.mp (follows_runAll encoding_call cs c.driver) (encoded_driver c)

/-- In a session the ends of states are in the order of the states. -/
theorem Encoded.composes {d : SessionDriver T} (hd : Encoded d.ledger) : d.clientHistory.Composes := by
  intro a b c first middle last hab hbc ha hb hc hoffset
  have hbook := hd.sound.bookkept
  have hlower := hbook.monotone a b first middle hab ha hb
  have hupper := hbook.monotone b c middle last hbc hb hc
  have hbound : last ≤ d.clientHistory.operationOffset + d.clientHistory.operations.length :=
    (hbook.bounds c last hc).2.trans_eq hbook.length.symm
  exact ClientHistory.composed_of_ends hd.encodable ⟨ha, hb, hoffset, hlower, hupper.trans hbound⟩
    ⟨hb, hc, hoffset.trans hlower, hupper, hbound⟩

end SessionDriver

/-- Client differences compose. Each part of a log that is encoded is encoded; the encoding of a log is that of its
    parts in order; and the peer reads back the operations. So, after any calls of a history and in every run of a
    session, the difference between two states is the differences to and from a state between them, and none of
    them fails; and an operation that is refused leaves the history. -/
theorem client_differences_compose :
    (∀ operations bytes, encodeClientDifference operations = .ok bytes →
      (∀ part, part <:+: operations → ∃ encoded, encodeClientDifference part = .ok encoded) ∧
      (∀ xs ys, operations = xs ++ ys → ∃ left right, encodeClientDifference xs = .ok left ∧
        encodeClientDifference ys = .ok right ∧ bytes = left ++ right) ∧
      decodeClientDifference bytes = some operations) ∧
    (∀ (calls : List HistoryCall) a b c first middle last,
      (ClientHistory.after calls).checkpoints.get? a = some first →
      (ClientHistory.after calls).checkpoints.get? b = some middle →
      (ClientHistory.after calls).checkpoints.get? c = some last →
      (ClientHistory.after calls).operationOffset ≤ first → first ≤ middle → middle ≤ last →
      (ClientHistory.after calls).Composed a b c) ∧
    (∀ {T : Type} {p : Platform T} (connection : Connection p) (cs : List Call),
      wp (SessionDriver.calls p cs) (fun _ d => d.clientHistory.Composes) (fun _ d => d.clientHistory.Composes)
        connection.driver) ∧
    ∀ (h : ClientHistory) operation e h', ClientHistory.append operation h = .error e h' → h' = h := by
  refine ⟨?_, ?_, ?_, ?_⟩
  · intro operations bytes hbytes
    refine ⟨?_, ?_, decode_encodeClientDifference hbytes⟩
    · intro part hpart
      obtain ⟨henc, -⟩ := encodeClientDifference_eq_ok.mp hbytes
      exact ⟨_, encodeClientDifference_eq_ok.mpr ⟨henc.sublist hpart.sublist, rfl⟩⟩
    · intro xs ys hsplit
      subst hsplit
      exact encodeClientDifference_append hbytes
  · intro calls a b c first middle last ha hb hc hoffset hlower hupper
    have hcounted := ClientHistory.counted_after calls
    have hbound := (hcounted.bounds c last hc).trans_eq hcounted.length.symm
    exact ClientHistory.composed_of_ends (ClientHistory.encodable_after calls)
      ⟨ha, hb, hoffset, hlower, hupper.trans hbound⟩ ⟨hb, hc, hoffset.trans hlower, hupper, hbound⟩
  · intro T p connection cs
    exact (SessionDriver.wp_calls_encoded connection cs).mono (fun _ _ hd => hd.composes) fun _ _ hd => hd.composes
  · intro h operation e h' hfails
    exact ((ClientHistory.wp_append operation h).error hfails).1

end MoshClient
