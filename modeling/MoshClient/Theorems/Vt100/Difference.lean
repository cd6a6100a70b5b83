import MoshClient.Theorems.Instruction
import MoshClient.Theorems.Vt100.Boundaries
import MoshClient.Vt100.Difference

/-! Differences of the server: what a server encodes is what the client decodes, the bytes of two differences one after
    the other are the difference that does one and then the other, and the echo acknowledgement of a terminal is the
    last one it was sent. -/

namespace MoshClient.Vt100
open Wire Limits Checked

/-! ### The message of an operation -/

namespace TerminalOperation

/-- The fields of an operation as the fixed-width types of the source hold them. -/
def InRange : TerminalOperation → Prop
  | .hostBytes _ => True
  | .resize columns rows => columns < 2 ^ 32 ∧ rows < 2 ^ 32
  | .echoAcknowledgement number => number < 2 ^ 64

def toWire : TerminalOperation → WireHostOperation
  | .hostBytes bytes => ⟨some ⟨bytes⟩, none, none⟩
  | .resize columns rows => ⟨none, some ⟨columns, rows⟩, none⟩
  | .echoAcknowledgement number => ⟨none, none, some ⟨number⟩⟩

end TerminalOperation

theorem WireEchoAcknowledgement.decode_fields {number : Nat} (hn : number < 2 ^ 64) :
    decodeFields (encodeFields (WireEchoAcknowledgement.mk number).fields) =
        some (WireEchoAcknowledgement.mk number).fields ∧
      (WireEchoAcknowledgement.mk number).fields.foldlM merge ⟨0⟩ = some ⟨number⟩ := by
  refine ⟨decodeFields_encodeFields (valid_numberField (by decide) (by decide) hn), ?_⟩
  unfold fields numberField
  split
  · rename_i h
    have h : number = 0 := h
    subst h
    rfl
  · rfl

namespace WireHostOperation

/-- A message with one field reads back, when the message inside the field does. -/
theorem decode_singleton {number : Nat} {b : Bytes} (hpos : 0 < number) (hlt : number < 2 ^ 29)
    (hlen : (encodeFields [⟨number, .bytes b⟩]).length < 2 ^ 64) :
    decodeFields (encodeFields [⟨number, .bytes b⟩]) = some [⟨number, .bytes b⟩] := by
  refine decodeFields_encodeFields fun f hf => ?_
  obtain rfl : f = ⟨number, .bytes b⟩ := by simpa using hf
  exact ⟨hpos, hlt, Nat.lt_of_le_of_lt (length_le_encodeFields hf) hlen⟩

theorem decode_toWire {operation : TerminalOperation} (h : operation.InRange)
    (hlen : (encodeFields operation.toWire.fields).length < 2 ^ 64) :
    decodeFields (encodeFields operation.toWire.fields) = some operation.toWire.fields ∧
      operation.toWire.fields.foldlM merge ⟨none, none, none⟩ = some operation.toWire := by
  cases operation with
  | hostBytes bytes =>
    have hbytes : bytes.length < 2 ^ 64 := by
      -- The bytes are in a message that is in the field of the operation.
      have houter : ⟨2, .bytes (encodeFields (TerminalBytes.mk bytes).fields)⟩ ∈
          (TerminalOperation.hostBytes bytes).toWire.fields := List.mem_singleton.mpr rfl
      rcases eq_or_ne bytes [] with rfl | hne
      · decide
      · have hinner : ⟨4, .bytes bytes⟩ ∈ (TerminalBytes.mk bytes).fields := by
          simp [TerminalBytes.fields, bytesField, hne]
        exact Nat.lt_of_le_of_lt ((length_le_encodeFields hinner).trans (length_le_encodeFields houter)) hlen
    obtain ⟨hdecode, hmerge⟩ := TerminalBytes.decode_fields bytes hbytes
    refine ⟨decode_singleton (by decide) (by decide) hlen, ?_⟩
    simp [TerminalOperation.toWire, fields, merge, hdecode, hmerge]
  | resize columns rows =>
    obtain ⟨hdecode, hmerge⟩ := TerminalSize.decode_fields columns rows h.1 h.2
    refine ⟨decode_singleton (by decide) (by decide) hlen, ?_⟩
    simp [TerminalOperation.toWire, fields, merge, hdecode, hmerge]
  | echoAcknowledgement number =>
    obtain ⟨hdecode, hmerge⟩ := WireEchoAcknowledgement.decode_fields h
    refine ⟨decode_singleton (by decide) (by decide) hlen, ?_⟩
    simp [TerminalOperation.toWire, fields, merge, hdecode, hmerge]

/-! ### The operations of the messages -/

theorem push_toWire (operations : List TerminalOperation) (operation : TerminalOperation) :
    push operations operation.toWire = .ok (operations ++ [operation]) := by
  cases operation <;> rfl

/-- A message that is accepted adds the operation that it is the message of. -/
theorem push_ok {operations next : List TerminalOperation} {m : WireHostOperation} (h : push operations m = .ok next) :
    ∃ operation : TerminalOperation, m = operation.toWire ∧ next = operations ++ [operation] := by
  obtain ⟨hostBytes, size, echo⟩ := m
  cases hostBytes with
  | some hostBytes =>
    cases size with
    | some size => cases echo <;> cases h
    | none =>
      cases echo with
      | some echo => cases h
      | none =>
        cases h
        exact ⟨.hostBytes hostBytes.bytes, rfl, rfl⟩
  | none =>
    cases size with
    | some size =>
      cases echo with
      | some echo => cases h
      | none =>
        cases h
        exact ⟨.resize size.columns size.rows, rfl, rfl⟩
    | none =>
      cases echo with
      | some echo =>
        cases h
        exact ⟨.echoAcknowledgement echo.number, rfl, rfl⟩
      | none => cases h

theorem foldlM_push_toWire (acc operations : List TerminalOperation) :
    (operations.map TerminalOperation.toWire).foldlM push acc = .ok (acc ++ operations) := by
  induction operations generalizing acc with
  | nil => simp [pure, Except.pure]
  | cons operation operations ih =>
    rw [List.map_cons, List.foldlM_cons, push_toWire]
    simpa [bind, Except.bind] using ih (acc ++ [operation])

/-- Messages are accepted exactly when each is the message of an operation. -/
theorem foldlM_push_ok {acc next : List TerminalOperation} {ms : List WireHostOperation}
    (h : ms.foldlM push acc = .ok next) :
    ∃ operations : List TerminalOperation, ms = operations.map TerminalOperation.toWire ∧ next = acc ++ operations := by
  induction ms generalizing acc with
  | nil =>
    cases h
    exact ⟨[], rfl, by simp⟩
  | cons m ms ih =>
    rw [List.foldlM_cons] at h
    cases hm : push acc m with
    | error e =>
      rw [hm] at h
      cases h
    | ok middle =>
      rw [hm] at h
      obtain ⟨operation, rfl, rfl⟩ := push_ok hm
      obtain ⟨operations, rfl, rfl⟩ := ih h
      exact ⟨operation :: operations, rfl, by simp⟩

end WireHostOperation

/-! ### Messages of whole differences -/

namespace WireHostDifference

theorem merge_append (acc : List WireHostOperation) {m next : WireHostDifference} {f : Field} (h : m.merge f = some next) :
    merge ⟨acc ++ m.operations⟩ f = some ⟨acc ++ next.operations⟩ := by
  unfold merge at h ⊢
  split at h
  · simp only [Option.bind_eq_bind, Option.bind_eq_some_iff, Option.some.injEq] at h
    obtain ⟨fields, hfields, operation, hoperation, rfl⟩ := h
    simp [hfields, hoperation]
  · cases h
  · cases h
    rfl

theorem foldlM_merge_append (acc : List WireHostOperation) {m next : WireHostDifference} {fields : List Field}
    (h : fields.foldlM merge m = some next) :
    fields.foldlM merge ⟨acc ++ m.operations⟩ = some ⟨acc ++ next.operations⟩ := by
  induction fields generalizing m with
  | nil =>
    cases h
    rfl
  | cons f fields ih =>
    simp only [List.foldlM_cons, Option.bind_eq_bind, Option.bind_eq_some_iff] at h ⊢
    obtain ⟨middle, hmiddle, h⟩ := h
    exact ⟨_, merge_append acc hmiddle, ih h⟩

theorem decode_append {a b : Bytes} {x y : WireHostDifference} (ha : decode a = some x) (hb : decode b = some y) :
    decode (a ++ b) = some ⟨x.operations ++ y.operations⟩ := by
  simp only [decode, Option.bind_eq_bind, Option.bind_eq_some_iff] at ha hb ⊢
  obtain ⟨fieldsA, hfieldsA, ha⟩ := ha
  obtain ⟨fieldsB, hfieldsB, hb⟩ := hb
  refine ⟨fieldsA ++ fieldsB, decodeFields_append hfieldsA hfieldsB, ?_⟩
  have hsecond := foldlM_merge_append x.operations hb
  rw [List.append_nil] at hsecond
  rw [List.foldlM_append, ha]
  exact hsecond

theorem foldlM_merge_fields {operations : List TerminalOperation} (acc : List WireHostOperation)
    (h : ∀ operation ∈ operations, operation.InRange ∧ (encodeFields operation.toWire.fields).length < 2 ^ 64) :
    (WireHostDifference.mk (operations.map TerminalOperation.toWire)).fields.foldlM merge ⟨acc⟩ =
      some ⟨acc ++ operations.map TerminalOperation.toWire⟩ := by
  induction operations generalizing acc with
  | nil => simp [fields]
  | cons operation operations ih =>
    obtain ⟨hrange, hlen⟩ := h operation List.mem_cons_self
    obtain ⟨hdecode, hmerge⟩ := WireHostOperation.decode_toWire hrange hlen
    have hrest := ih (acc ++ [operation.toWire]) fun o ho => h o (List.mem_cons_of_mem _ ho)
    simp only [fields] at hrest
    simpa [fields, merge, hdecode, hmerge] using hrest

theorem decode_encodeToVec {operations : List TerminalOperation} (hrange : ∀ operation ∈ operations, operation.InRange)
    (hlen : (WireHostDifference.mk (operations.map TerminalOperation.toWire)).encodeToVec.length < 2 ^ 64) :
    decode (WireHostDifference.mk (operations.map TerminalOperation.toWire)).encodeToVec =
      some ⟨operations.map TerminalOperation.toWire⟩ := by
  have hoperation : ∀ operation ∈ operations, (encodeFields operation.toWire.fields).length < 2 ^ 64 := by
    intro operation ho
    have hmem : ⟨1, .bytes (encodeFields operation.toWire.fields)⟩ ∈
        (WireHostDifference.mk (operations.map TerminalOperation.toWire)).fields :=
      List.mem_map.mpr ⟨operation.toWire, List.mem_map.mpr ⟨operation, ho, rfl⟩, rfl⟩
    exact Nat.lt_of_le_of_lt (length_le_encodeFields hmem) hlen
  have hvalid : ∀ f ∈ (WireHostDifference.mk (operations.map TerminalOperation.toWire)).fields, f.Valid := by
    intro f hf
    obtain ⟨wire, hwire, rfl⟩ := List.mem_map.mp hf
    obtain ⟨operation, ho, rfl⟩ := List.mem_map.mp hwire
    exact ⟨Nat.one_pos, by simp only; omega, hoperation operation ho⟩
  unfold decode encodeToVec
  rw [decodeFields_encodeFields hvalid]
  exact foldlM_merge_fields [] fun operation ho => ⟨hrange operation ho, hoperation operation ho⟩

end WireHostDifference

/-! ### Decoding a difference -/

namespace TerminalDifference

/-- The bytes of a difference. -/
def encodeToVec (difference : TerminalDifference) : Bytes :=
  (WireHostDifference.mk (difference.operations.map TerminalOperation.toWire)).encodeToVec

/-- What an accepted difference is made of: the messages of its operations, within both limits. -/
theorem decode_ok_iff {bytes : Bytes} {difference : TerminalDifference} :
    decode bytes = .ok difference ↔
      WireHostDifference.decode bytes = some ⟨difference.operations.map TerminalOperation.toWire⟩ ∧
        bytes.length ≤ maxStateDifferenceBytes ∧
          difference.operations.length ≤ maxTerminalOperationsPerDifference := by
  constructor
  · intro h
    unfold decode at h
    split at h
    · cases h
    · rename_i hbytes
      split at h
      · cases h
      · rename_i wire hwire
        split at h
        · cases h
        · rename_i hcount
          cases hpush : wire.operations.foldlM WireHostOperation.push [] with
          | error e =>
            rw [hpush] at h
            cases h
          | ok operations =>
            rw [hpush] at h
            cases h
            obtain ⟨ops, hops, rfl⟩ := WireHostOperation.foldlM_push_ok hpush
            rw [hops, List.length_map] at hcount
            rw [hwire]
            exact ⟨congrArg some (congrArg WireHostDifference.mk hops), Nat.le_of_not_lt hbytes, Nat.le_of_not_lt hcount⟩
  · rintro ⟨hwire, hbytes, hcount⟩
    have hpush := WireHostOperation.foldlM_push_toWire [] difference.operations
    unfold decode
    rw [if_neg (Nat.not_lt.mpr hbytes), hwire]
    simp only [List.length_map]
    rw [if_neg (Nat.not_lt.mpr hcount), hpush]
    rfl

/-- What a server encodes within the limits is what the client decodes, and beyond them it is refused by the limit. -/
theorem server_difference_round_trip (difference : TerminalDifference)
    (hrange : ∀ operation ∈ difference.operations, operation.InRange) :
    decode difference.encodeToVec =
      if difference.encodeToVec.length > maxStateDifferenceBytes then .error .differenceTooLarge
      else if difference.operations.length > maxTerminalOperationsPerDifference then .error .tooManyOperations
      else .ok difference := by
  have hpush := WireHostOperation.foldlM_push_toWire [] difference.operations
  unfold decode
  split
  · rfl
  · rename_i hlen
    have hlen : difference.encodeToVec.length < 2 ^ 64 := Nat.lt_of_le_of_lt (Nat.le_of_not_lt hlen) (by decide)
    have hwire := WireHostDifference.decode_encodeToVec hrange hlen
    unfold encodeToVec
    rw [hwire]
    simp only [List.length_map]
    rw [hpush]
    rfl

theorem server_difference_round_trip_greeting :
    decode (encodeToVec ⟨[.resize 80 24, .hostBytes [0x68, 0x69], .echoAcknowledgement 7]⟩) =
      .ok ⟨[.resize 80 24, .hostBytes [0x68, 0x69], .echoAcknowledgement 7]⟩ := by
  rw [server_difference_round_trip _ (by simp [TerminalOperation.InRange])]
  rfl

/-! ### Differences one after another -/

theorem decode_append {a b : Bytes} {x y : TerminalDifference} (ha : decode a = .ok x) (hb : decode b = .ok y) :
    decode (a ++ b) =
      if a.length + b.length > maxStateDifferenceBytes then .error .differenceTooLarge
      else if x.operations.length + y.operations.length > maxTerminalOperationsPerDifference then
        .error .tooManyOperations
      else .ok ⟨x.operations ++ y.operations⟩ := by
  obtain ⟨hwireA, -, -⟩ := decode_ok_iff.mp ha
  obtain ⟨hwireB, -, -⟩ := decode_ok_iff.mp hb
  have hwire := WireHostDifference.decode_append hwireA hwireB
  have hpush := WireHostOperation.foldlM_push_toWire [] (x.operations ++ y.operations)
  rw [List.map_append] at hpush
  unfold decode
  rw [List.length_append, hwire]
  simp only [List.length_append, List.length_map]
  rw [hpush]
  rfl

end TerminalDifference

namespace TerminalState

theorem applyOperations_append (crates : Crates) (s : TerminalState) (xs ys : List TerminalOperation) :
    s.applyOperations crates (xs ++ ys) = (do
      match ← s.applyOperations crates xs with
      | .error e => return .error e
      | .ok next => next.applyOperations crates ys) := by
  induction xs generalizing s with
  | nil => rfl
  | cons operation xs ih =>
    simp only [List.cons_append, applyOperations]
    rw [bind_assoc]
    congr 1
    funext result
    cases result with
    | error e => rfl
    | ok next => exact ih next

/-- Applies differences in turn, up to the first that fails. -/
def applyAll (crates : Crates) (self : TerminalState) : List TerminalDifference → Except Fault TerminalResult
  | [] => return .ok self
  | difference :: differences => do
    match ← self.apply crates difference with
    | .error e => return .error e
    | .ok next => next.applyAll crates differences

theorem applyAll_eq (crates : Crates) (s : TerminalState) (differences : List TerminalDifference) :
    s.applyAll crates differences =
      s.applyOperations crates (differences.flatMap TerminalDifference.operations) := by
  induction differences generalizing s with
  | nil => rfl
  | cons difference differences ih =>
    rw [List.flatMap_cons, applyOperations_append]
    simp only [applyAll, ih]
    rfl

/-! ### Echo acknowledgements -/

end TerminalState

def TerminalOperation.acknowledgement : TerminalOperation → Option Nat
  | .echoAcknowledgement number => some number
  | _ => none

theorem TerminalDifference.latestEchoAcknowledgement_eq (difference : TerminalDifference) :
    difference.latestEchoAcknowledgement =
      (difference.operations.filterMap TerminalOperation.acknowledgement).getLast? := by
  rw [← List.head?_reverse, ← List.filterMap_reverse, List.head?_filterMap]
  rfl

namespace TerminalState

/-- An operation acknowledges a number that is not below the one before it, or keeps that one. -/
theorem acknowledgement_applyOperation {crates : Crates} {s next : TerminalState} {operation : TerminalOperation}
    (h : s.applyOperation crates operation = .ok (.ok next)) :
    next.echoAcknowledgement = operation.acknowledgement.or s.echoAcknowledgement ∧
      ∀ old ∈ s.echoAcknowledgement, ∀ new ∈ operation.acknowledgement, old ≤ new := by
  cases operation with
  | hostBytes bytes =>
    obtain ⟨w, -, rfl⟩ := applyHostBytes_ok_iff.mp h
    exact ⟨rfl, fun _ _ _ hnew => by cases hnew⟩
  | resize columns rows =>
    refine ⟨?_, fun _ _ _ hnew => by cases hnew⟩
    unfold applyOperation at h
    simp only at h
    split at h
    · cases h
    · rename_i rows columns _
      cases hsize : s.screen.setSize rows columns with
      | error e =>
        rw [hsize] at h
        cases h
      | ok screen =>
        rw [hsize] at h
        cases h
        rfl
  | echoAcknowledgement number =>
    unfold applyOperation at h
    simp only at h
    split at h
    · cases h
    · rename_i hlower
      cases h
      refine ⟨rfl, fun old hold new hnew => ?_⟩
      cases hnew
      rw [Option.mem_def.mp hold] at hlower
      simpa using hlower

theorem acknowledgements_applyOperations {crates : Crates} {s t : TerminalState} {operations : List TerminalOperation}
    (h : s.applyOperations crates operations = .ok (.ok t)) :
    t.echoAcknowledgement =
        (operations.filterMap TerminalOperation.acknowledgement).getLast?.or s.echoAcknowledgement ∧
      (s.echoAcknowledgement.toList ++ operations.filterMap TerminalOperation.acknowledgement).Pairwise (· ≤ ·) := by
  induction operations generalizing s with
  | nil =>
    cases h
    cases t.echoAcknowledgement <;> simp
  | cons operation operations ih =>
    obtain ⟨next, hnext, hrest⟩ := applyOperations_cons_ok_iff.mp h
    obtain ⟨hecho, hle⟩ := acknowledgement_applyOperation hnext
    obtain ⟨hlast, hsorted⟩ := ih hrest
    rw [hecho] at hlast hsorted
    cases hnew : operation.acknowledgement with
    | none =>
      rw [hnew] at hlast hsorted
      rw [List.filterMap_cons_none hnew]
      exact ⟨hlast, hsorted⟩
    | some new =>
      rw [hnew] at hlast hsorted hle
      rw [List.filterMap_cons_some hnew, List.getLast?_cons, hlast]
      refine ⟨by cases (operations.filterMap TerminalOperation.acknowledgement).getLast? <;> rfl, ?_⟩
      have hsorted : (new :: operations.filterMap TerminalOperation.acknowledgement).Pairwise (· ≤ ·) := hsorted
      cases hold : s.echoAcknowledgement with
      | none => exact hsorted
      | some old =>
        have hstep : old ≤ new := hle old hold new rfl
        refine List.pairwise_cons.mpr ⟨fun later hlater => ?_, hsorted⟩
        rcases List.mem_cons.mp hlater with rfl | hlater
        · exact hstep
        · exact hstep.trans ((List.pairwise_cons.mp hsorted).1 later hlater)

/-- The difference of consecutive messages, when the limits allow them to be one message. -/
theorem decode_flatten {messages : List Bytes} {differences : List TerminalDifference}
    (h : List.Forall₂ (fun bytes difference => TerminalDifference.decode bytes = .ok difference) messages differences)
    (hbytes : messages.flatten.length ≤ maxStateDifferenceBytes)
    (hcount : (differences.flatMap TerminalDifference.operations).length ≤ maxTerminalOperationsPerDifference) :
    TerminalDifference.decode messages.flatten = .ok ⟨differences.flatMap TerminalDifference.operations⟩ := by
  induction h with
  | nil => rfl
  | @cons bytes difference messages differences hfirst _ ih =>
    simp only [List.flatten_cons, List.flatMap_cons, List.length_append] at hbytes hcount ⊢
    rw [TerminalDifference.decode_append hfirst (ih (by omega) (by omega))]
    simp only
    rw [if_neg (by omega), if_neg (by omega)]

/-- Differences that arrive as one message, where the limits allow it, do what they do one after another. After either,
    the terminal has the latest echo acknowledgement of all, and none of them went back. -/
theorem differences_as_one (crates : Crates) (s : TerminalState) {messages : List Bytes}
    {differences : List TerminalDifference}
    (h : List.Forall₂ (fun bytes difference => TerminalDifference.decode bytes = .ok difference) messages differences)
    (hbytes : messages.flatten.length ≤ maxStateDifferenceBytes)
    (hcount : (differences.flatMap TerminalDifference.operations).length ≤ maxTerminalOperationsPerDifference) :
    ∃ difference, TerminalDifference.decode messages.flatten = .ok difference ∧
      s.apply crates difference = s.applyAll crates differences ∧
      ∀ t, s.applyAll crates differences = .ok (.ok t) →
        t.echoAcknowledgement = difference.latestEchoAcknowledgement.or s.echoAcknowledgement ∧
          (s.echoAcknowledgement.toList ++ difference.operations.filterMap TerminalOperation.acknowledgement).Pairwise
            (· ≤ ·) := by
  refine ⟨_, decode_flatten h hbytes hcount, (applyAll_eq crates s differences).symm, fun t ht => ?_⟩
  rw [applyAll_eq] at ht
  rw [TerminalDifference.latestEchoAcknowledgement_eq]
  exact acknowledgements_applyOperations ht

/-- A letter and then an acknowledgement, on a new terminal. -/
theorem differences_as_one_letter :
    ∃ s, TerminalState.new 4 2 = .ok (.ok s) ∧
      ∃ difference,
        TerminalDifference.decode [0x0a, 0x05, 0x12, 0x03, 0x22, 0x01, 0x41, 0x0a, 0x04, 0x3a, 0x02, 0x40, 0x07] =
            .ok difference ∧
          s.apply resuming difference = s.applyAll resuming [⟨[.hostBytes [0x41]]⟩, ⟨[.echoAcknowledgement 7]⟩] ∧
          ∀ t, s.applyAll resuming [⟨[.hostBytes [0x41]]⟩, ⟨[.echoAcknowledgement 7]⟩] = .ok (.ok t) →
            t.echoAcknowledgement = difference.latestEchoAcknowledgement.or s.echoAcknowledgement ∧
              (s.echoAcknowledgement.toList ++
                difference.operations.filterMap TerminalOperation.acknowledgement).Pairwise (· ≤ ·) :=
  ⟨_, rfl, differences_as_one resuming _
    (.cons (a := [0x0a, 0x05, 0x12, 0x03, 0x22, 0x01, 0x41]) (by rfl)
      (.cons (a := [0x0a, 0x04, 0x3a, 0x02, 0x40, 0x07]) (by rfl) .nil)) (by decide) (by decide)⟩

end TerminalState

end MoshClient.Vt100
