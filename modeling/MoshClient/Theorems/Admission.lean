import Mathlib.Algebra.Order.BigOperators.Group.List
import Mathlib.Algebra.Order.Group.Nat
import MoshClient.Driver
import MoshClient.Theorems.ClientHistory

/-! Admission against sending. The log admits operations while their difference is within its limit, and an
    instruction is sent while all of it is within the same limit. What an instruction adds to its difference
    has to fit as well: a log can be sent, whatever the state numbers are, exactly when it leaves room for it. -/

namespace MoshClient
open Wire Machine Limits Effect

/-! ### Lengths on the wire -/

theorem length_encodeFields_append (xs ys : List Field) :
    (encodeFields (xs ++ ys)).length = (encodeFields xs).length + (encodeFields ys).length := by
  simp [encodeFields, List.flatMap_append]

/-- A key of a number below 16 is one byte. -/
theorem length_encode_key {number wireType : Nat} (hnumber : number < 16) (htype : wireType < 8) :
    (encodeVarint (number * 8 + wireType)).length = 1 := by
  have hle := length_encodeVarint_le (j := 0) (n := number * 8 + wireType) (by omega)
  have hge := one_le_length_encodeVarint (number * 8 + wireType)
  omega

theorem length_encode_bytes {number : Nat} (hnumber : number < 16) (bytes : Bytes) :
    (Field.encode ⟨number, .bytes bytes⟩).length = 1 + (encodeVarint bytes.length).length + bytes.length := by
  have hkey := length_encode_key hnumber (show Value.wireType (.bytes bytes) < 8 by simp [Value.wireType])
  simp only [Field.encode, Value.encode, List.length_append]
  omega

theorem length_numberField {number n : Nat} (hnumber : number < 16) (hn : n ≠ 0) :
    (encodeFields (numberField number n)).length = 1 + (encodeVarint n).length := by
  have hkey := length_encode_key hnumber (show Value.wireType (.varint n) < 8 by simp [Value.wireType])
  simp [numberField, hn, encodeFields, Field.encode, Value.encode, hkey]

theorem length_numberField_le (number : Nat) {n : Nat} (hnumber : number < 16) (hn : n < 2 ^ 64) :
    (encodeFields (numberField number n)).length ≤ 11 := by
  by_cases h : n = 0
  · simp [numberField, h, encodeFields]
  · have hlen := length_encodeVarint_le (j := 9) (n := n) (by omega)
    rw [length_numberField hnumber h]
    omega

theorem length_bytesField {number : Nat} (hnumber : number < 16) {bytes : Bytes} (hbytes : bytes ≠ []) :
    (encodeFields (bytesField number bytes)).length = 1 + (encodeVarint bytes.length).length + bytes.length := by
  rw [bytesField, if_neg hbytes, ← length_encode_bytes hnumber]
  simp [encodeFields]

/-! ### The length of a log -/

namespace ClientOperation

def message : ClientOperation → TerminalOperation
  | .input bytes => ⟨some ⟨bytes⟩, none⟩
  | .resize columns rows => ⟨none, some ⟨columns, rows⟩⟩

/-- The bytes that the operation takes in a difference. -/
def wireBytes (operation : ClientOperation) : Nat :=
  (Field.encode ⟨1, .bytes (encodeFields operation.message.fields)⟩).length

theorem toWire_eq {operation : ClientOperation} {wire : TerminalOperation} (h : operation.toWire = .ok wire) :
    wire = operation.message := by
  cases operation <;> simp only [toWire] at h <;> split at h <;> cases h <;> rfl

end ClientOperation

/-- The bytes that the difference over the whole log takes. -/
def logBytes (operations : List ClientOperation) : Nat := (operations.map ClientOperation.wireBytes).sum

theorem logBytes_sublist {part whole : List ClientOperation} (h : part.Sublist whole) : logBytes part ≤ logBytes whole :=
  (h.map ClientOperation.wireBytes).sum_le_sum fun _ _ => Nat.zero_le _

theorem length_encodeToVec (operations : List ClientOperation) :
    (TerminalDifference.mk (operations.map ClientOperation.message)).encodeToVec.length = logBytes operations := by
  simp only [TerminalDifference.encodeToVec, TerminalDifference.fields, encodeFields, List.map_map, List.length_flatMap]
  rfl

theorem wireOperations_eq_ok {operations : List ClientOperation} {wires : List TerminalOperation} :
    wireOperations operations = .ok wires ↔
      (∀ operation ∈ operations, operation.toWire = .ok operation.message) ∧
        wires = operations.map ClientOperation.message := by
  induction operations generalizing wires with
  | nil => simp [wireOperations, eq_comm]
  | cons operation rest ih =>
    simp only [wireOperations, List.mem_cons, forall_eq_or_imp, List.map_cons]
    cases hwire : operation.toWire with
    | error e => simp
    | ok wire =>
      obtain rfl := ClientOperation.toWire_eq hwire
      cases hrest : wireOperations rest with
      | error e =>
        have hno : ¬∀ op ∈ rest, op.toWire = .ok op.message := by
          intro hall
          have hok := ih.mpr ⟨hall, rfl⟩
          rw [hrest] at hok
          cases hok
        simp [hno]
      | ok rests =>
        obtain ⟨hall, rfl⟩ := ih.mp hrest
        simp only [Except.ok.injEq, true_and]
        exact ⟨fun h => ⟨hall, h.symm⟩, fun h => h.2.symm⟩

/-- A log that is encoded: of operations within their limits, not too many and not too long. -/
structure Encodable (operations : List ClientOperation) : Prop where
  length_le : operations.length ≤ maxClientOperationsAfterAck
  within : ∀ operation ∈ operations, operation.toWire = .ok operation.message
  bytes_le : logBytes operations ≤ maxStateDifferenceBytes

theorem encodeClientDifference_eq_ok {operations : List ClientOperation} {difference : Bytes} :
    encodeClientDifference operations = .ok difference ↔
      Encodable operations ∧ difference = (TerminalDifference.mk (operations.map ClientOperation.message)).encodeToVec := by
  constructor
  · intro h
    unfold encodeClientDifference at h
    split at h
    · cases h
    · rename_i hcount
      split at h
      · cases h
      · rename_i wires hwires
        obtain ⟨hwithin, rfl⟩ := wireOperations_eq_ok.mp hwires
        simp only [length_encodeToVec] at h
        split at h
        · cases h
        · rename_i hbytes
          cases h
          exact ⟨⟨Nat.le_of_not_lt hcount, hwithin, Nat.le_of_not_lt hbytes⟩, rfl⟩
  · rintro ⟨⟨hcount, hwithin, hbytes⟩, rfl⟩
    unfold encodeClientDifference
    rw [if_neg (Nat.not_lt.mpr hcount), wireOperations_eq_ok.mpr ⟨hwithin, rfl⟩]
    simp only [length_encodeToVec]
    rw [if_neg (Nat.not_lt.mpr hbytes)]

theorem length_encodeClientDifference {operations : List ClientOperation} {difference : Bytes}
    (h : encodeClientDifference operations = .ok difference) : difference.length = logBytes operations := by
  obtain ⟨-, rfl⟩ := encodeClientDifference_eq_ok.mp h
  exact length_encodeToVec operations

theorem Encodable.sublist {part whole : List ClientOperation} (h : Encodable whole) (hsub : part.Sublist whole) :
    Encodable part :=
  ⟨hsub.length_le.trans h.length_le, fun operation hmem => h.within operation (hsub.subset hmem),
    (logBytes_sublist hsub).trans h.bytes_le⟩

/-! ### Histories -/

inductive HistoryCall where
  | append (operation : ClientOperation)
  | checkpoint (state : Nat)
  | acknowledge (state : Nat)
  | removeCheckpoint (state : Nat)

namespace ClientHistory

/-- The history after a call, whether it was accepted or refused. -/
def perform (h : ClientHistory) : HistoryCall → ClientHistory
  | .append operation => exec (append operation) h
  | .checkpoint state => h.checkpoint state
  | .acknowledge state => exec (acknowledge state) h
  | .removeCheckpoint state => h.removeCheckpoint state

def after (calls : List HistoryCall) : ClientHistory := calls.foldl perform new

variable {h : ClientHistory}

theorem append_encodable {operation : ClientOperation} (hnext : h.nextOperation + 1 < 2 ^ 64)
    (henc : Encodable (h.operations ++ [operation])) :
    append operation h =
      .ok () { h with operations := h.operations ++ [operation], nextOperation := h.nextOperation + 1 } := by
  have hcount := henc.length_le
  rw [List.length_append, List.length_singleton] at hcount
  unfold append
  rw [if_neg (by omega), checkedAdd_eq_some.mpr ⟨rfl, hnext⟩]
  simp only [encodeClientDifference_eq_ok.mpr ⟨henc, rfl⟩]

theorem encodable_append (henc : Encodable h.operations) (operation : ClientOperation) :
    wp (append operation) (fun _ t => Encodable t.operations) (fun _ t => Encodable t.operations) h := by
  unfold wp
  fun_cases append operation h with
  | case1 => exact henc
  | case2 => simp_all
  | case3 => simp_all
  | case4 _ _ _ _ hok => simp_all [(encodeClientDifference_eq_ok.mp hok).1]

theorem encodable_perform (henc : Encodable h.operations) (call : HistoryCall) :
    Encodable (h.perform call).operations := by
  cases call with
  | append operation => exact exec_of_wp (P := fun h : ClientHistory => Encodable h.operations) (encodable_append henc operation)
  | checkpoint state => exact henc
  | acknowledge state =>
    rw [perform, exec]
    split
    · rename_i hok
      obtain ⟨count, -, -, rfl⟩ := acknowledge_ok hok
      exact henc.sublist (List.drop_sublist _ _)
    · rename_i herror
      rw [acknowledge_error herror]
      exact henc
  | removeCheckpoint state => exact henc

theorem encodable_after (calls : List HistoryCall) : Encodable (after calls).operations := by
  suffices ∀ h : ClientHistory, Encodable h.operations → Encodable (calls.foldl perform h).operations from
    this new ⟨Nat.zero_le _, fun _ hmem => (List.not_mem_nil hmem).elim, Nat.zero_le _⟩
  induction calls with
  | nil => exact fun h henc => henc
  | cons call calls ih => exact fun h henc => ih (h.perform call) (encodable_perform henc call)

/-- Operations that are encoded together are admitted one by one. -/
theorem after_append {operations : List ClientOperation} (henc : Encodable operations) :
    after (operations.map .append) = ⟨0, operations.length, operations, new.checkpoints⟩ := by
  induction operations using List.reverseRecOn with
  | nil => rfl
  | append_singleton operations operation ih =>
    have hcount := henc.length_le
    rw [List.length_append, List.length_singleton] at hcount
    have hbound : maxClientOperationsAfterAck < 2 ^ 64 := by decide
    have hbefore := ih (henc.sublist (List.sublist_append_left _ _))
    rw [after] at hbefore ⊢
    rw [List.map_append, List.foldl_append, hbefore]
    simp only [List.map_cons, List.map_nil, List.foldl_cons, List.foldl_nil, perform, exec]
    rw [append_encodable (by simp only; omega) henc]
    simp

end ClientHistory

/-! ### Instructions over a log -/

/-- An instruction over a log: any state numbers, the difference of some range of the log, and one byte of
    chaff. -/
structure Carries (operations : List ClientOperation) (m : TransportInstruction) : Prop where
  version : m.protocolVersion = protocolVersion
  base_lt : m.baseState < 2 ^ 64
  new_lt : m.newState < 2 ^ 64
  acknowledged_lt : m.acknowledgedState < 2 ^ 64
  discard_lt : m.discardBeforeState < 2 ^ 64
  range : ∃ first last, encodeClientDifference ((operations.take last).drop first) = .ok m.stateDifference
  chaff : m.chaff.length = 1

/-- The most that an instruction adds to a difference of less than 2 MiB: the version in two bytes, four
    numbers in eleven bytes each, the key and the length of the difference in four, and the chaff in three. -/
def instructionOverhead : Nat := 2 + 4 * 11 + 4 + 3

/-- The length of an instruction, but for its four numbers. -/
theorem Carries.length_eq {operations : List ClientOperation} {m : TransportInstruction} (h : Carries operations m) :
    m.encodeToVec.length =
      2 + (encodeFields (numberField 2 m.baseState)).length + (encodeFields (numberField 3 m.newState)).length +
        (encodeFields (numberField 4 m.acknowledgedState)).length +
        (encodeFields (numberField 5 m.discardBeforeState)).length +
        (encodeFields (bytesField 6 m.stateDifference)).length + 3 := by
  have hversion : (encodeFields (numberField 1 m.protocolVersion)).length = 2 := by
    rw [h.version]
    rfl
  have hchaff : (encodeFields (bytesField 7 m.chaff)).length = 3 := by
    obtain ⟨b, hb⟩ := List.length_eq_one_iff.mp h.chaff
    rw [hb]
    rfl
  simp only [TransportInstruction.encodeToVec, TransportInstruction.fields, length_encodeFields_append, hversion, hchaff]

theorem Carries.length_le {operations : List ClientOperation} {m : TransportInstruction} (h : Carries operations m)
    (hroom : logBytes operations + instructionOverhead ≤ maxDecompressedInstructionBytes) :
    m.encodeToVec.length ≤ maxDecompressedInstructionBytes := by
  obtain ⟨first, last, hrange⟩ := h.range
  have hlen : m.stateDifference.length ≤ logBytes operations := by
    rw [length_encodeClientDifference hrange]
    exact logBytes_sublist ((List.drop_sublist _ _).trans (List.take_sublist _ _))
  have hdifference : (encodeFields (bytesField 6 m.stateDifference)).length ≤ m.stateDifference.length + 4 := by
    by_cases hempty : m.stateDifference = []
    · simp [bytesField, hempty, encodeFields]
    · have hvarint := length_encodeVarint_le (j := 2) (n := m.stateDifference.length)
        (by simp only [instructionOverhead, maxDecompressedInstructionBytes] at hroom; omega)
      rw [length_bytesField (by decide) hempty]
      omega
  have hbase := length_numberField_le 2 (by decide) h.base_lt
  have hnew := length_numberField_le 3 (by decide) h.new_lt
  have hacknowledged := length_numberField_le 4 (by decide) h.acknowledged_lt
  have hdiscard := length_numberField_le 5 (by decide) h.discard_lt
  have hoverhead : instructionOverhead = 53 := rfl
  have heq := h.length_eq
  omega

/-- The whole log, under the longest state numbers. -/
def longest (difference : Bytes) : TransportInstruction where
  protocolVersion := protocolVersion
  baseState := u64Max
  newState := u64Max
  acknowledgedState := u64Max
  discardBeforeState := u64Max
  stateDifference := difference
  chaff := initialChaff

theorem carries_longest {operations : List ClientOperation} {difference : Bytes}
    (h : encodeClientDifference operations = .ok difference) : Carries operations (longest difference) where
  version := rfl
  base_lt := u64Max_lt
  new_lt := u64Max_lt
  acknowledged_lt := u64Max_lt
  discard_lt := u64Max_lt
  range := ⟨0, operations.length, by simpa [longest] using h⟩
  chaff := rfl

/-- A long log under the longest state numbers takes all of the overhead. -/
theorem length_longest {operations : List ClientOperation} {difference : Bytes}
    (h : encodeClientDifference operations = .ok difference) (hlong : 2 ^ 14 ≤ logBytes operations) :
    logBytes operations + instructionOverhead ≤ (longest difference).encodeToVec.length := by
  have hlen := length_encodeClientDifference h
  have hnumber : ∀ number < 16, (encodeFields (numberField number u64Max)).length = 11 := by
    intro number hnumber
    rw [length_numberField hnumber (by decide)]
    rfl
  have hdifference : logBytes operations + 4 ≤ (encodeFields (bytesField 6 difference)).length := by
    have hvarint := lt_length_encodeVarint (j := 2) (n := difference.length) (by decide) (by omega)
    have hne : difference ≠ [] := by
      rintro rfl
      simp only [List.length_nil] at hlen
      omega
    rw [length_bytesField (by decide) hne]
    omega
  have hoverhead : instructionOverhead = 53 := rfl
  have heq := (carries_longest h).length_eq
  simp only [longest] at heq ⊢
  rw [hnumber 2 (by decide), hnumber 3 (by decide), hnumber 4 (by decide), hnumber 5 (by decide)] at heq
  omega

theorem encodeZlib_decodedTooLarge {zlib : Zlib} {m : TransportInstruction} :
    m.encodeZlib zlib = .error .decodedTooLarge ↔ maxDecompressedInstructionBytes < m.encodeToVec.length := by
  unfold TransportInstruction.encodeZlib
  split
  · simpa
  · simp only
    split <;> simpa using Nat.le_of_not_lt ‹_›

/-! ### What the driver sends over a log -/

/-- The instructions that the driver composes over a history. -/
inductive Composes (T : Type) (h : ClientHistory) : TransportInstruction → Prop where
  | send (plan : SendPlan) {difference : Bytes} (hdifference : h.difference plan.baseState plan.targetState = .ok difference)
      (hbase : plan.baseState < 2 ^ 64) (htarget : plan.targetState < 2 ^ 64)
      (hacknowledged : plan.acknowledgedState < 2 ^ 64) (hthrowaway : plan.throwawayState < 2 ^ 64) :
      Composes T h (plan.instruction difference initialChaff)
  | shutdownAcknowledgement (plan : SendPlan) {difference : Bytes}
      (hdifference : h.difference plan.baseState plan.targetState = .ok difference)
      (hbase : plan.baseState < 2 ^ 64) (htarget : plan.targetState < 2 ^ 64) (hthrowaway : plan.throwawayState < 2 ^ 64) :
      Composes T h { plan.instruction difference initialChaff with acknowledgedState := shutdownState }
  | shutdownRequest (self : SessionDriver T) {difference : Bytes}
      (hdifference : h.difference self.synchronization.knownReceiverState self.synchronization.localLatest = .ok difference)
      (hknown : self.synchronization.knownReceiverState < 2 ^ 64) (hremote : self.synchronization.remoteLatest < 2 ^ 64) :
      Composes T h (self.shutdownRequest difference)

theorem range_of_difference {h : ClientHistory} {base target : Nat} {difference : Bytes}
    (hd : h.difference base target = .ok difference) :
    ∃ first last, encodeClientDifference ((h.operations.take last).drop first) = .ok difference := by
  unfold ClientHistory.difference at hd
  split at hd
  · rename_i start stop _ _
    split at hd
    · refine ⟨start, stop, ?_⟩
      cases henc : encodeClientDifference ((h.operations.take stop).drop start) with
      | error e =>
        rw [henc] at hd
        cases hd
      | ok bytes =>
        rw [henc] at hd
        cases hd
        rfl
    · cases hd
  · cases hd

theorem Composes.carries {T : Type} {h : ClientHistory} {m : TransportInstruction} (hm : Composes T h m) :
    Carries h.operations m := by
  cases hm with
  | send plan hd hbase htarget hack hthrow => exact ⟨rfl, hbase, htarget, hack, hthrow, range_of_difference hd, rfl⟩
  | shutdownAcknowledgement plan hd hbase htarget hthrow =>
    exact ⟨rfl, hbase, htarget, u64Max_lt, hthrow, range_of_difference hd, rfl⟩
  | shutdownRequest self hd hknown hremote =>
    exact ⟨rfl, hknown, u64Max_lt, hremote, hknown, range_of_difference hd, rfl⟩

namespace ClientHistory

/-- After any calls of the history, everything that the driver composes over it is an instruction over its
    log; and no instruction over the log, whatever its state numbers, is too large to be sent exactly when the
    log leaves the overhead of an instruction free. -/
theorem sendable_iff_room (T : Type) (zlib : Zlib) (calls : List HistoryCall) :
    (∀ m, Composes T (after calls) m → Carries (after calls).operations m) ∧
    ((∀ m, Carries (after calls).operations m →
        m.encodeToVec.length ≤ maxDecompressedInstructionBytes ∧ m.encodeZlib zlib ≠ .error .decodedTooLarge) ↔
      logBytes (after calls).operations + instructionOverhead ≤ maxDecompressedInstructionBytes) := by
  refine ⟨fun m hm => hm.carries, fun hall => ?_, fun hroom m hm => ?_⟩
  · have henc := encodeClientDifference_eq_ok.mpr ⟨encodable_after calls, rfl⟩
    have hle := (hall _ (carries_longest henc)).1
    by_cases hlong : 2 ^ 14 ≤ logBytes (after calls).operations
    · exact (length_longest henc hlong).trans hle
    · simp only [instructionOverhead, maxDecompressedInstructionBytes]
      omega
  · have hle := hm.length_le hroom
    exact ⟨hle, fun hlarge => Nat.not_lt.mpr hle (encodeZlib_decodedTooLarge.mp hlarge)⟩

/-! ### A log that fills its limit -/

theorem wireBytes_input (bytes : Bytes) (hlow : 2 ^ 14 ≤ bytes.length) (hhigh : bytes.length + 12 < 2 ^ 21) :
    (ClientOperation.input bytes).wireBytes = bytes.length + 12 := by
  have hvarint : ∀ n, 2 ^ 14 ≤ n → n < 2 ^ 21 → (encodeVarint n).length = 3 := by
    intro n h₁ h₂
    have hge := lt_length_encodeVarint (j := 2) (by decide) h₁
    have hle := length_encodeVarint_le (j := 2) h₂
    omega
  have hne : bytes ≠ [] := by
    rintro rfl
    simp at hlow
  have hinner : (encodeFields (TerminalBytes.mk bytes).fields).length = bytes.length + 4 := by
    rw [TerminalBytes.fields, length_bytesField (by decide) hne, hvarint _ hlow (by omega)]
    omega
  have hmiddle : (encodeFields (ClientOperation.input bytes).message.fields).length = bytes.length + 8 := by
    have hsingle : (ClientOperation.input bytes).message.fields =
        [⟨2, .bytes (encodeFields (TerminalBytes.mk bytes).fields)⟩] := rfl
    rw [hsingle, encodeFields, List.flatMap_singleton, length_encode_bytes (by decide), hinner,
      hvarint _ (by omega) (by omega)]
    omega
  rw [ClientOperation.wireBytes, length_encode_bytes (by decide), hmiddle, hvarint _ (by omega) (by omega)]
  omega

/-- 31 of the longest inputs and one of 65,152 bytes. -/
def fullLog : List ClientOperation :=
  List.replicate 31 (.input (List.replicate 65536 0)) ++ [.input (List.replicate 65152 0)]

theorem logBytes_fullLog : logBytes fullLog = maxStateDifferenceBytes := by
  have h₁ := wireBytes_input (List.replicate 65536 0) (by rw [List.length_replicate]; omega)
    (by rw [List.length_replicate]; omega)
  have h₂ := wireBytes_input (List.replicate 65152 0) (by rw [List.length_replicate]; omega)
    (by rw [List.length_replicate]; omega)
  rw [List.length_replicate] at h₁ h₂
  simp only [logBytes, fullLog, List.map_append, List.map_replicate, List.sum_append, List.sum_replicate, h₁,
    List.map_cons, List.map_nil, List.sum_cons, List.sum_nil, h₂]
  rfl

theorem encodable_fullLog : Encodable fullLog where
  length_le := by
    rw [fullLog, List.length_append, List.length_replicate]
    decide
  within operation hmem := by
    have hinput : ∃ n ≤ maxInputCommandBytes, operation = .input (List.replicate n 0) := by
      rcases List.mem_append.mp hmem with hmem | hmem
      · exact ⟨65536, by decide, List.eq_of_mem_replicate hmem⟩
      · exact ⟨65152, by decide, List.mem_singleton.mp hmem⟩
    obtain ⟨n, hn, rfl⟩ := hinput
    rw [ClientOperation.toWire, List.length_replicate, if_neg (Nat.not_lt.mpr hn)]
    rfl
  bytes_le := Nat.le_of_eq logBytes_fullLog

theorem length_fullLog : fullLog.length = 32 := by
  rw [fullLog, List.length_append, List.length_replicate]
  rfl

/-- The history of the full log, with its end as state 1. -/
theorem after_fullLog : after (fullLog.map .append ++ [.checkpoint 1]) =
    ⟨0, 32, fullLog, new.checkpoints.insert 1 32⟩ := by
  rw [after, List.foldl_append, ← after, after_append encodable_fullLog, length_fullLog]
  rfl

theorem difference_fullLog : ∃ difference, difference.length = maxStateDifferenceBytes ∧
    (after (fullLog.map .append ++ [.checkpoint 1])).difference 0 1 = .ok difference := by
  have hencode := encodeClientDifference_eq_ok.mpr ⟨encodable_fullLog, rfl⟩
  refine ⟨_, (length_encodeClientDifference hencode).trans logBytes_fullLog, ?_⟩
  rw [after_fullLog, difference_eq ⟨rfl, rfl, Nat.le_refl 0, Nat.zero_le 32, ?_⟩]
  · simp only [Nat.sub_zero, List.drop_zero]
    rw [List.take_of_length_le (Nat.le_of_eq length_fullLog), hencode]
    rfl
  · rw [length_fullLog]

/-- The operations of the full log are admitted one by one, and the first plan to send them composes an
    instruction that is too large. -/
theorem full_log_never_sent :
    (after (fullLog.map .append ++ [.checkpoint 1])).operations = fullLog ∧
    ∃ plan difference,
      (exec SynchronizationState.advanceLocal SynchronizationState.new).planSend 0 1000 = .ok plan ∧
      (after (fullLog.map .append ++ [.checkpoint 1])).difference plan.baseState plan.targetState = .ok difference ∧
      ∀ zlib : Zlib, (plan.instruction difference initialChaff).encodeZlib zlib = .error .decodedTooLarge := by
  obtain ⟨difference, hlength, hdifference⟩ := difference_fullLog
  refine ⟨by rw [after_fullLog], ⟨1, 0, 1, 0, 0, 0⟩, difference, rfl, hdifference,
    fun zlib => encodeZlib_decodedTooLarge.mpr ?_⟩
  have hlimit : maxStateDifferenceBytes = maxDecompressedInstructionBytes := rfl
  have hne : difference ≠ [] := by
    rintro rfl
    cases hlength
  have hcomposes := Composes.send (T := Unit) ⟨1, 0, 1, 0, 0, 0⟩ hdifference (by decide) (by decide) (by decide) (by decide)
  rw [hcomposes.carries.length_eq]
  simp only [SendPlan.instruction]
  rw [length_bytesField (by decide) hne]
  omega

end ClientHistory
end MoshClient
