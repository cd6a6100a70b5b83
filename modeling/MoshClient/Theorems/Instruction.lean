import MoshClient.Instruction

/-! Client differences survive the wire: a peer that reads a difference by its schema gets back the
    operations that the client encoded, in order. -/

namespace MoshClient
open Wire Limits

/-- A byte string inside a message is no longer than the message. -/
theorem length_le_encodeFields {fields : List Field} {number : Nat} {b : Bytes}
    (h : ⟨number, .bytes b⟩ ∈ fields) : b.length ≤ (encodeFields fields).length := by
  induction fields with
  | nil => cases h
  | cons f fields ih =>
    have hsplit : encodeFields (f :: fields) = f.encode ++ encodeFields fields := rfl
    rw [hsplit, List.length_append]
    rcases List.mem_cons.mp h with rfl | h
    · simp only [Field.encode, Value.encode, List.length_append]
      omega
    · exact Nat.le_trans (ih h) (Nat.le_add_left _ _)

theorem valid_bytesField {number : Nat} {b : Bytes} (hpos : 0 < number) (hlt : number < 2 ^ 29)
    (hb : b.length < 2 ^ 64) : ∀ f ∈ bytesField number b, f.Valid := by
  intro f hf
  unfold bytesField at hf
  split at hf
  · cases hf
  · rw [List.mem_singleton] at hf
    subst hf
    exact ⟨hpos, hlt, hb⟩

theorem valid_numberField {number n : Nat} (hpos : 0 < number) (hlt : number < 2 ^ 29) (hn : n < 2 ^ 64) :
    ∀ f ∈ numberField number n, f.Valid := by
  intro f hf
  unfold numberField at hf
  split at hf
  · cases hf
  · rw [List.mem_singleton] at hf
    subst hf
    exact ⟨hpos, hlt, hn⟩

/-! ### One operation -/

/-- A message that some operation within the limits has. -/
inductive TerminalOperation.Sent : TerminalOperation → Prop where
  | bytes (b : Bytes) (hb : b.length ≤ maxInputCommandBytes) : Sent ⟨some ⟨b⟩, none⟩
  | size (columns rows : Nat) (hc : columns ≤ maxTerminalColumns) (hr : rows ≤ maxTerminalRows) :
      Sent ⟨none, some ⟨columns, rows⟩⟩

theorem ClientOperation.toWire_ok {operation : ClientOperation} {wire : TerminalOperation}
    (h : operation.toWire = .ok wire) : wire.Sent ∧ wire.toClient = some operation := by
  cases operation with
  | input bytes =>
    simp only [toWire] at h
    split at h
    · cases h
    · rename_i hlen
      cases h
      exact ⟨.bytes bytes (Nat.le_of_not_lt hlen), rfl⟩
  | resize columns rows =>
    simp only [toWire] at h
    split at h
    · cases h
    · rename_i hsize
      cases h
      push Not at hsize
      obtain ⟨-, hc, -, hr⟩ := hsize
      exact ⟨.size columns rows hc hr, rfl⟩

theorem TerminalBytes.decode_fields (b : Bytes) (hb : b.length < 2 ^ 64) :
    decodeFields (encodeFields (TerminalBytes.mk b).fields) = some (TerminalBytes.mk b).fields ∧
      (TerminalBytes.mk b).fields.foldlM merge ⟨[]⟩ = some ⟨b⟩ := by
  refine ⟨decodeFields_encodeFields (valid_bytesField (by decide) (by decide) hb), ?_⟩
  unfold fields bytesField
  split
  · rename_i h
    subst h
    rfl
  · rfl

theorem TerminalSize.decode_fields (columns rows : Nat) (hc : columns < 2 ^ 32) (hr : rows < 2 ^ 32) :
    decodeFields (encodeFields (TerminalSize.mk columns rows).fields) = some (TerminalSize.mk columns rows).fields ∧
      (TerminalSize.mk columns rows).fields.foldlM merge ⟨0, 0⟩ = some ⟨columns, rows⟩ := by
  constructor
  · refine decodeFields_encodeFields fun f hf => ?_
    rcases List.mem_append.mp hf with hf | hf
    · exact valid_numberField (by decide) (by decide) (by simp only; omega) f hf
    · exact valid_numberField (by decide) (by decide) (by simp only; omega) f hf
  · unfold fields numberField
    by_cases h₁ : columns = 0 <;> by_cases h₂ : rows = 0 <;>
      simp [h₁, h₂, merge] <;> omega

theorem TerminalOperation.decode_fields {wire : TerminalOperation} (h : wire.Sent)
    (hlen : (encodeFields wire.fields).length < 2 ^ 64) :
    decodeFields (encodeFields wire.fields) = some wire.fields ∧
      wire.fields.foldlM merge ⟨none, none⟩ = some wire := by
  cases h with
  | bytes b hb =>
    obtain ⟨hdecode, hmerge⟩ := TerminalBytes.decode_fields b (Nat.lt_of_le_of_lt hb (by decide))
    constructor
    · refine decodeFields_encodeFields fun f hf => ?_
      obtain rfl : f = ⟨2, .bytes (encodeFields (TerminalBytes.mk b).fields)⟩ := by simpa [fields] using hf
      exact ⟨Nat.succ_pos 1, by simp only; omega, Nat.lt_of_le_of_lt (length_le_encodeFields hf) hlen⟩
    · simp [fields, merge, hdecode, hmerge]
  | size columns rows hc hr =>
    obtain ⟨hdecode, hmerge⟩ := TerminalSize.decode_fields columns rows
      (Nat.lt_of_le_of_lt hc (by decide)) (Nat.lt_of_le_of_lt hr (by decide))
    constructor
    · refine decodeFields_encodeFields fun f hf => ?_
      obtain rfl : f = ⟨3, .bytes (encodeFields (TerminalSize.mk columns rows).fields)⟩ := by
        simpa [fields] using hf
      exact ⟨Nat.succ_pos 2, by simp only; omega, Nat.lt_of_le_of_lt (length_le_encodeFields hf) hlen⟩
    · simp [fields, merge, hdecode, hmerge]

/-! ### A whole difference -/

theorem TerminalDifference.foldlM_merge {wires : List TerminalOperation} (acc : List TerminalOperation)
    (h : ∀ wire ∈ wires, wire.Sent ∧ (encodeFields wire.fields).length < 2 ^ 64) :
    (TerminalDifference.mk wires).fields.foldlM merge ⟨acc⟩ = some ⟨acc ++ wires⟩ := by
  induction wires generalizing acc with
  | nil => simp [fields]
  | cons wire wires ih =>
    obtain ⟨hsent, hlen⟩ := h wire List.mem_cons_self
    obtain ⟨hdecode, hmerge⟩ := TerminalOperation.decode_fields hsent hlen
    have hrest := ih (acc ++ [wire]) fun w hw => h w (List.mem_cons_of_mem _ hw)
    simp only [fields] at hrest
    simp [fields, merge, hdecode, hmerge, hrest]

theorem TerminalDifference.decode_encodeToVec {wires : List TerminalOperation} (hsent : ∀ wire ∈ wires, wire.Sent)
    (hlen : (TerminalDifference.mk wires).encodeToVec.length < 2 ^ 64) :
    TerminalDifference.decode (TerminalDifference.mk wires).encodeToVec = some ⟨wires⟩ := by
  have hwire : ∀ wire ∈ wires, (encodeFields wire.fields).length < 2 ^ 64 := by
    intro wire hw
    have hmem : ⟨1, .bytes (encodeFields wire.fields)⟩ ∈ (TerminalDifference.mk wires).fields :=
      List.mem_map.mpr ⟨wire, hw, rfl⟩
    exact Nat.lt_of_le_of_lt (length_le_encodeFields hmem) hlen
  have hvalid : ∀ f ∈ (TerminalDifference.mk wires).fields, f.Valid := by
    intro f hf
    obtain ⟨wire, hw, rfl⟩ := List.mem_map.mp hf
    exact ⟨Nat.one_pos, by simp only; omega, hwire wire hw⟩
  unfold decode encodeToVec
  rw [decodeFields_encodeFields hvalid]
  exact TerminalDifference.foldlM_merge [] fun wire hw => ⟨hsent wire hw, hwire wire hw⟩

theorem wireOperations_ok {operations : List ClientOperation} {wires : List TerminalOperation}
    (h : wireOperations operations = .ok wires) :
    (∀ wire ∈ wires, wire.Sent) ∧ wires.mapM TerminalOperation.toClient = some operations := by
  induction operations generalizing wires with
  | nil =>
    cases h
    exact ⟨fun _ hw => (List.not_mem_nil hw).elim, rfl⟩
  | cons operation rest ih =>
    simp only [wireOperations] at h
    split at h
    · cases h
    · rename_i wire hwire
      split at h
      · cases h
      · rename_i wires hwires
        cases h
        obtain ⟨hsent, hclient⟩ := ClientOperation.toWire_ok hwire
        obtain ⟨hsents, hclients⟩ := ih hwires
        refine ⟨fun w hw => ?_, ?_⟩
        · rcases List.mem_cons.mp hw with rfl | hw
          · exact hsent
          · exact hsents w hw
        · simp [hclient, hclients]

/-- What the client encodes is what a peer reads. -/
theorem decode_encodeClientDifference {operations : List ClientOperation} {bytes : Bytes}
    (h : encodeClientDifference operations = .ok bytes) : decodeClientDifference bytes = some operations := by
  unfold encodeClientDifference at h
  split at h
  · cases h
  · split at h
    · cases h
    · rename_i wires hwires
      simp only at h
      split at h
      · cases h
      · rename_i hlen
        cases h
        obtain ⟨hsent, hclient⟩ := wireOperations_ok hwires
        have hbound : (TerminalDifference.mk wires).encodeToVec.length < 2 ^ 64 :=
          Nat.lt_of_le_of_lt (Nat.le_of_not_lt hlen) (by decide)
        simp [decodeClientDifference, TerminalDifference.decode_encodeToVec hsent hbound, hclient]

/-! ### Instructions -/

theorem TransportInstruction.merge_newState_lt {m m' : TransportInstruction} {f : Field} (h : m.merge f = some m')
    (hm : m.newState < 2 ^ 64) (hf : ∀ n, f.value = .varint n → n < 2 ^ 64) : m'.newState < 2 ^ 64 := by
  unfold merge at h
  split at h
  all_goals try (cases h; first | exact hm | exact hf _ rfl)
  split at h
  · cases h
  · cases h
    exact hm

/-- The state numbers of an instruction are 64-bit numbers. -/
theorem TransportInstruction.decode_newState_lt {bytes : Bytes} {m : TransportInstruction} (h : decode bytes = some m) :
    m.newState < 2 ^ 64 := by
  simp only [decode, Option.bind_eq_bind, Option.bind_eq_some_iff] at h
  obtain ⟨fields, hfields, h⟩ := h
  have hvarint : ∀ f ∈ fields, ∀ n, f.value = .varint n → n < 2 ^ 64 := fun f hf n hn =>
    readFields_varint_lt hfields hf hn
  clear hfields
  have hstart : (⟨0, 0, 0, 0, 0, [], []⟩ : TransportInstruction).newState < 2 ^ 64 := Nat.two_pow_pos 64
  generalize (⟨0, 0, 0, 0, 0, [], []⟩ : TransportInstruction) = start at h hstart
  induction fields generalizing start with
  | nil =>
    cases h
    exact hstart
  | cons f fields ih =>
    simp only [List.foldlM_cons, Option.bind_eq_bind, Option.bind_eq_some_iff] at h
    obtain ⟨next, hnext, h⟩ := h
    refine ih (fun g hg => hvarint g (List.mem_cons_of_mem f hg)) next h ?_
    exact merge_newState_lt hnext hstart (hvarint f List.mem_cons_self)

theorem TransportInstruction.decodeZlib_newState_lt {zlib : Zlib} {compressed : Bytes} {m : TransportInstruction}
    (h : decodeZlib zlib compressed = .ok m) : m.newState < 2 ^ 64 := by
  unfold decodeZlib at h
  split at h
  · cases h
  · split at h
    · cases h
    · split at h
      · cases h
      · rename_i hdecode
        split at h
        · cases h
        · cases h
          exact decode_newState_lt hdecode

end MoshClient
