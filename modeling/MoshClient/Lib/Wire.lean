import Mathlib.Algebra.Group.Nat.Defs
import Mathlib.Data.List.Basic

/-! The Protocol Buffers wire format: base-128 varints of 64-bit numbers, and messages as lists of
    numbered fields. A field is a varint, a byte string with its length, or eight or four fixed bytes.
    Groups, which proto3 dropped, are refused. -/

namespace Wire

abbrev Bytes := List UInt8

/-! ### Varints -/

/-- The varint of `n` in at most `k + 1` bytes: seven bits a byte, lowest first, and the high bit set
    on every byte but the last. -/
def varintTail : Nat → Nat → Bytes
  | 0, n => [UInt8.ofNat n]
  | k + 1, n => if n < 128 then [UInt8.ofNat n] else UInt8.ofNat (n % 128 + 128) :: varintTail k (n / 128)

/-- The varint of a 64-bit number, in at most ten bytes. -/
def encodeVarint (n : Nat) : Bytes := varintTail 9 n

/-- Reads a varint of at most `k + 1` bytes, and the bytes after it. The last byte that fits holds one
    bit only. -/
def readVarint : Nat → Bytes → Option (Nat × Bytes)
  | _, [] => none
  | 0, b :: rest => if b.toNat < 2 then some (b.toNat, rest) else none
  | k + 1, b :: rest =>
    if b.toNat < 128 then some (b.toNat, rest)
    else (readVarint k rest).map fun (n, rest) => (b.toNat % 128 + 128 * n, rest)

def decodeVarint (bytes : Bytes) : Option (Nat × Bytes) := readVarint 9 bytes

theorem toNat_ofNat {n : Nat} (h : n < 256) : (UInt8.ofNat n).toNat = n := by
  simp [Nat.mod_eq_of_lt h]

theorem readVarint_varintTail {k n : Nat} (h : n < 2 ^ (7 * k + 1)) (rest : Bytes) :
    readVarint k (varintTail k n ++ rest) = some (n, rest) := by
  induction k generalizing n with
  | zero =>
    have hn : n < 2 := by simpa using h
    simp [varintTail, readVarint, toNat_ofNat (show n < 256 by omega), hn]
  | succ k ih =>
    simp only [varintTail]
    split
    · rename_i hlt
      simp [readVarint, toNat_ofNat (show n < 256 by omega), hlt]
    · have hbyte := toNat_ofNat (show n % 128 + 128 < 256 by omega)
      have hshift : n / 128 < 2 ^ (7 * k + 1) := by
        rw [Nat.div_lt_iff_lt_mul (by decide)]
        calc n < 2 ^ (7 * (k + 1) + 1) := h
          _ = 2 ^ (7 * k + 1) * 128 := by rw [show 7 * (k + 1) + 1 = 7 * k + 1 + 7 by omega, Nat.pow_add]
      rw [List.cons_append, readVarint, hbyte, if_neg (by omega), ih hshift]
      simp only [Option.map_some, Option.some.injEq, Prod.mk.injEq, and_true]
      omega

theorem decodeVarint_encodeVarint {n : Nat} (h : n < 2 ^ 64) (rest : Bytes) :
    decodeVarint (encodeVarint n ++ rest) = some (n, rest) :=
  readVarint_varintTail h rest

theorem readVarint_lt {k : Nat} {bytes rest : Bytes} {n : Nat} (h : readVarint k bytes = some (n, rest)) :
    n < 2 ^ (7 * k + 1) := by
  induction k generalizing bytes rest n with
  | zero =>
    cases bytes with
    | nil => cases h
    | cons b bytes =>
      simp only [readVarint, Option.ite_none_right_eq_some, Option.some.injEq, Prod.mk.injEq] at h
      obtain ⟨hlt, rfl, -⟩ := h
      exact hlt
  | succ k ih =>
    cases bytes with
    | nil => cases h
    | cons b bytes =>
      have hpow : 2 ^ (7 * (k + 1) + 1) = 128 * 2 ^ (7 * k + 1) := by
        rw [show 7 * (k + 1) + 1 = 7 + (7 * k + 1) by omega, Nat.pow_add]
      have hpos : 1 ≤ 2 ^ (7 * k + 1) := Nat.one_le_two_pow
      rw [hpow]
      rw [readVarint] at h
      split at h
      · cases h
        omega
      · simp only [Option.map_eq_some_iff, Prod.mk.injEq, Prod.exists] at h
        obtain ⟨m, rest', hm, rfl, -⟩ := h
        have hlt := ih hm
        omega

theorem decodeVarint_lt {bytes rest : Bytes} {n : Nat} (h : decodeVarint bytes = some (n, rest)) : n < 2 ^ 64 :=
  readVarint_lt h

theorem varintTail_ne_nil (k n : Nat) : varintTail k n ≠ [] := by
  cases k with
  | zero => simp [varintTail]
  | succ k =>
    simp only [varintTail]
    split <;> simp

theorem one_le_length_encodeVarint (n : Nat) : 1 ≤ (encodeVarint n).length :=
  List.length_pos_iff.mpr (varintTail_ne_nil 9 n)

/-- A number of at most `j + 1` groups of seven bits takes at most `j + 1` bytes. -/
theorem length_varintTail_le {k j n : Nat} (h : n < 2 ^ (7 * (j + 1))) : (varintTail k n).length ≤ j + 1 := by
  induction k generalizing j n with
  | zero => simp [varintTail]
  | succ k ih =>
    simp only [varintTail]
    split
    · simp
    · rename_i hge
      cases j with
      | zero => exact absurd h hge
      | succ j =>
        have hpow : 2 ^ (7 * (j + 1 + 1)) = 2 ^ (7 * (j + 1)) * 128 := by
          rw [show 7 * (j + 1 + 1) = 7 * (j + 1) + 7 by omega, Nat.pow_add]
        rw [List.length_cons]
        exact Nat.succ_le_succ (ih ((Nat.div_lt_iff_lt_mul (by decide)).mpr (hpow ▸ h)))

/-- A number of more than `j` groups of seven bits takes more than `j` bytes. -/
theorem lt_length_varintTail {k j n : Nat} (hj : j ≤ k) (h : 2 ^ (7 * j) ≤ n) : j < (varintTail k n).length := by
  induction k generalizing j n with
  | zero =>
    obtain rfl := Nat.le_zero.mp hj
    simp [varintTail]
  | succ k ih =>
    cases j with
    | zero => exact List.length_pos_iff.mpr (varintTail_ne_nil _ n)
    | succ j =>
      have hpow : 2 ^ (7 * (j + 1)) = 2 ^ (7 * j) * 128 := by
        rw [show 7 * (j + 1) = 7 * j + 7 by omega, Nat.pow_add]
      have hpos : 1 ≤ 2 ^ (7 * j) := Nat.one_le_two_pow
      simp only [varintTail]
      rw [if_neg (by omega), List.length_cons]
      exact Nat.succ_lt_succ (ih (Nat.le_of_succ_le_succ hj) ((Nat.le_div_iff_mul_le (by decide)).mpr (hpow ▸ h)))

theorem length_encodeVarint_le {j n : Nat} (h : n < 2 ^ (7 * (j + 1))) : (encodeVarint n).length ≤ j + 1 :=
  length_varintTail_le h

theorem lt_length_encodeVarint {j n : Nat} (hj : j ≤ 9) (h : 2 ^ (7 * j) ≤ n) : j < (encodeVarint n).length :=
  lt_length_varintTail hj h

/-! ### Fields -/

inductive Value where
  | varint (n : Nat)
  | fixed64 (bytes : Bytes)
  | bytes (bytes : Bytes)
  | fixed32 (bytes : Bytes)
  deriving DecidableEq, Repr

structure Field where
  number : Nat
  value : Value
  deriving DecidableEq, Repr

def Value.wireType : Value → Nat
  | .varint _ => 0
  | .fixed64 _ => 1
  | .bytes _ => 2
  | .fixed32 _ => 5

def Value.encode : Value → Bytes
  | .varint n => encodeVarint n
  | .fixed64 b => b
  | .bytes b => encodeVarint b.length ++ b
  | .fixed32 b => b

/-- A field: its number and wire type as one varint, then its value. -/
def Field.encode (f : Field) : Bytes := encodeVarint (f.number * 8 + f.value.wireType) ++ f.value.encode

def encodeFields (fields : List Field) : Bytes := fields.flatMap Field.encode

/-- Reads the first `n` bytes, when there are so many. -/
def takeBytes (n : Nat) (bytes : Bytes) : Option (Bytes × Bytes) :=
  if n ≤ bytes.length then some (bytes.take n, bytes.drop n) else none

def decodeValue (wireType : Nat) (bytes : Bytes) : Option (Value × Bytes) :=
  match wireType with
  | 0 => (decodeVarint bytes).map fun (n, rest) => (.varint n, rest)
  | 1 => (takeBytes 8 bytes).map fun (b, rest) => (.fixed64 b, rest)
  | 2 => do
    let (length, rest) ← decodeVarint bytes
    let (b, rest) ← takeBytes length rest
    some (.bytes b, rest)
  | 5 => (takeBytes 4 bytes).map fun (b, rest) => (.fixed32 b, rest)
  | _ => none

/-- Reads one field. Its key must fit in 32 bits and name a field other than zero. -/
def decodeField (bytes : Bytes) : Option (Field × Bytes) := do
  let (key, rest) ← decodeVarint bytes
  if key < 8 ∨ 2 ^ 32 ≤ key then none
  else do
    let (value, rest) ← decodeValue (key % 8) rest
    some (⟨key / 8, value⟩, rest)

def readFields : Nat → Bytes → Option (List Field)
  | _, [] => some []
  | 0, _ :: _ => none
  | k + 1, bytes => do
    let (field, rest) ← decodeField bytes
    let fields ← readFields k rest
    some (field :: fields)

/-- The fields of a message; every field takes at least a byte. -/
def decodeFields (bytes : Bytes) : Option (List Field) := readFields bytes.length bytes

/-- A value as a field can hold it: a 64-bit number, or as many bytes as its wire type or a 64-bit
    length allows. -/
def Value.Valid : Value → Prop
  | .varint n => n < 2 ^ 64
  | .fixed64 b => b.length = 8
  | .bytes b => b.length < 2 ^ 64
  | .fixed32 b => b.length = 4

structure Field.Valid (f : Field) : Prop where
  pos : 0 < f.number
  lt : f.number < 2 ^ 29
  value : f.value.Valid

theorem takeBytes_append {n : Nat} {b : Bytes} (h : b.length = n) (rest : Bytes) :
    takeBytes n (b ++ rest) = some (b, rest) := by
  simp [takeBytes, ← h]

theorem decodeValue_encode {v : Value} (hv : v.Valid) (rest : Bytes) :
    decodeValue v.wireType (v.encode ++ rest) = some (v, rest) := by
  cases v with
  | varint n => simp [decodeValue, Value.wireType, Value.encode, decodeVarint_encodeVarint hv]
  | fixed64 b => simp [decodeValue, Value.wireType, Value.encode, takeBytes_append hv]
  | bytes b =>
    simp [decodeValue, Value.wireType, Value.encode, decodeVarint_encodeVarint hv, takeBytes_append rfl]
  | fixed32 b => simp [decodeValue, Value.wireType, Value.encode, takeBytes_append hv]

theorem Value.wireType_lt (v : Value) : v.wireType < 8 := by
  cases v <;> simp [Value.wireType]

theorem decodeField_encode {f : Field} (hf : f.Valid) (rest : Bytes) :
    decodeField (f.encode ++ rest) = some (f, rest) := by
  have hw := f.value.wireType_lt
  have hpos := hf.pos
  have hlt := hf.lt
  have hkey : f.number * 8 + f.value.wireType < 2 ^ 64 := by omega
  have hnumber : (f.number * 8 + f.value.wireType) / 8 = f.number := by omega
  have htype : (f.number * 8 + f.value.wireType) % 8 = f.value.wireType := by omega
  have hrange : ¬(f.number * 8 + f.value.wireType < 8 ∨ 2 ^ 32 ≤ f.number * 8 + f.value.wireType) := by omega
  simp only [decodeField, Field.encode, List.append_assoc, decodeVarint_encodeVarint hkey, Option.bind_eq_bind,
    Option.bind_some, if_neg hrange, htype, decodeValue_encode hf.value, hnumber]

theorem readFields_encodeFields {fields : List Field} (hf : ∀ f ∈ fields, f.Valid) {k : Nat}
    (hk : (encodeFields fields).length ≤ k) : readFields k (encodeFields fields) = some fields := by
  induction fields generalizing k with
  | nil => simp [encodeFields, readFields]
  | cons f fields ih =>
    have hlen : 1 ≤ f.encode.length := by
      have := one_le_length_encodeVarint (f.number * 8 + f.value.wireType)
      simp only [Field.encode, List.length_append]
      omega
    have hsplit : encodeFields (f :: fields) = f.encode ++ encodeFields fields := rfl
    rw [hsplit, List.length_append] at hk
    obtain ⟨k, rfl⟩ : ∃ j, k = j + 1 := ⟨k - 1, by omega⟩
    obtain ⟨b, tail, hb⟩ : ∃ b tail, f.encode ++ encodeFields fields = b :: tail := by
      cases he : f.encode with
      | nil => simp [he] at hlen
      | cons b tail => exact ⟨b, tail ++ encodeFields fields, rfl⟩
    have hfield := decodeField_encode (hf f List.mem_cons_self) (encodeFields fields)
    have hrest := ih (fun g hg => hf g (List.mem_cons_of_mem _ hg)) (k := k) (by omega)
    rw [hsplit, hb, readFields, ← hb, hfield]
    · simp [hrest]
    · simp

theorem decodeFields_encodeFields {fields : List Field} (hf : ∀ f ∈ fields, f.Valid) :
    decodeFields (encodeFields fields) = some fields :=
  readFields_encodeFields hf (Nat.le_refl _)

/-! ### Messages one after another -/

theorem readVarint_append {k : Nat} {bytes rest : Bytes} {n : Nat} (h : readVarint k bytes = some (n, rest))
    (more : Bytes) : readVarint k (bytes ++ more) = some (n, rest ++ more) := by
  induction k generalizing bytes rest n with
  | zero =>
    cases bytes with
    | nil => cases h
    | cons b bytes =>
      simp only [readVarint, Option.ite_none_right_eq_some, Option.some.injEq, Prod.mk.injEq] at h
      obtain ⟨hlt, rfl, rfl⟩ := h
      simp [readVarint, hlt]
  | succ k ih =>
    cases bytes with
    | nil => cases h
    | cons b bytes =>
      simp only [readVarint, List.cons_append] at h ⊢
      split at h
      · rename_i hlt
        cases h
        simp [hlt]
      · rename_i hge
        simp only [Option.map_eq_some_iff, Prod.mk.injEq, Prod.exists] at h
        obtain ⟨m, rest', hm, rfl, rfl⟩ := h
        simp [hge, ih hm]

theorem decodeVarint_append {bytes rest : Bytes} {n : Nat} (h : decodeVarint bytes = some (n, rest)) (more : Bytes) :
    decodeVarint (bytes ++ more) = some (n, rest ++ more) :=
  readVarint_append h more

theorem takeBytes_append_right {n : Nat} {bytes b rest : Bytes} (h : takeBytes n bytes = some (b, rest))
    (more : Bytes) : takeBytes n (bytes ++ more) = some (b, rest ++ more) := by
  simp only [takeBytes, Option.ite_none_right_eq_some, Option.some.injEq, Prod.mk.injEq] at h
  obtain ⟨hle, rfl, rfl⟩ := h
  have hle' : n ≤ (bytes ++ more).length := by
    rw [List.length_append]
    omega
  rw [takeBytes, if_pos hle', List.take_append_of_le_length hle, List.drop_append_of_le_length hle]

theorem decodeValue_append {wireType : Nat} {bytes rest : Bytes} {v : Value}
    (h : decodeValue wireType bytes = some (v, rest)) (more : Bytes) :
    decodeValue wireType (bytes ++ more) = some (v, rest ++ more) := by
  unfold decodeValue at h ⊢
  split at h
  · simp only [Option.map_eq_some_iff, Prod.exists, Prod.mk.injEq] at h
    obtain ⟨n, after, hn, rfl, rfl⟩ := h
    simp [decodeVarint_append hn]
  · simp only [Option.map_eq_some_iff, Prod.exists, Prod.mk.injEq] at h
    obtain ⟨b, after, hb, rfl, rfl⟩ := h
    simp [takeBytes_append_right hb]
  · simp only [Option.bind_eq_bind, Option.bind_eq_some_iff, Prod.exists, Option.some.injEq, Prod.mk.injEq] at h
    obtain ⟨length, after, hlength, b, last, hb, rfl, rfl⟩ := h
    simp [decodeVarint_append hlength, takeBytes_append_right hb]
  · simp only [Option.map_eq_some_iff, Prod.exists, Prod.mk.injEq] at h
    obtain ⟨b, after, hb, rfl, rfl⟩ := h
    simp [takeBytes_append_right hb]
  · cases h

theorem decodeField_append {bytes rest : Bytes} {f : Field} (h : decodeField bytes = some (f, rest)) (more : Bytes) :
    decodeField (bytes ++ more) = some (f, rest ++ more) := by
  simp only [decodeField, Option.bind_eq_bind, Option.bind_eq_some_iff, Prod.exists] at h
  obtain ⟨key, after, hkey, h⟩ := h
  split at h
  · cases h
  · rename_i hrange
    simp only [Option.bind_eq_some_iff, Prod.exists, Option.some.injEq, Prod.mk.injEq] at h
    obtain ⟨value, last, hvalue, rfl, rfl⟩ := h
    simp only [decodeField, decodeVarint_append hkey, Option.bind_eq_bind, Option.bind_some, if_neg hrange,
      decodeValue_append hvalue]

theorem readFields_mono {k j : Nat} (hkj : k ≤ j) {bytes : Bytes} {fields : List Field}
    (h : readFields k bytes = some fields) : readFields j bytes = some fields := by
  induction k generalizing j bytes fields with
  | zero =>
    cases bytes with
    | nil => simpa [readFields] using h
    | cons b bytes => cases h
  | succ k ih =>
    obtain ⟨j, rfl⟩ : ∃ i, j = i + 1 := ⟨j - 1, by omega⟩
    cases bytes with
    | nil => simpa [readFields] using h
    | cons b bytes =>
      simp only [readFields, Option.bind_eq_bind, Option.bind_eq_some_iff, Prod.exists, Option.some.injEq] at h ⊢
      obtain ⟨field, rest, hfield, fields, hfields, rfl⟩ := h
      exact ⟨field, rest, hfield, fields, ih (by omega) hfields, rfl⟩

/-- The fields of two messages one after the other. -/
theorem readFields_append {k : Nat} {bytes : Bytes} {fields : List Field} (h : readFields k bytes = some fields)
    {j : Nat} {more : Bytes} {others : List Field} (hmore : readFields j more = some others) :
    readFields (k + j) (bytes ++ more) = some (fields ++ others) := by
  induction k generalizing bytes fields with
  | zero =>
    cases bytes with
    | nil =>
      cases h
      simpa using hmore
    | cons b bytes => cases h
  | succ k ih =>
    cases bytes with
    | nil =>
      cases h
      exact readFields_mono (Nat.le_add_left j (k + 1)) hmore
    | cons b bytes =>
      simp only [readFields, Option.bind_eq_bind, Option.bind_eq_some_iff, Prod.exists, Option.some.injEq] at h
      obtain ⟨field, rest, hfield, fields, hfields, rfl⟩ := h
      have hfield := decodeField_append hfield more
      rw [List.cons_append] at hfield
      rw [Nat.add_right_comm, List.cons_append, readFields, hfield]
      · simp [ih hfields]
      · simp

theorem decodeFields_append {bytes more : Bytes} {fields others : List Field} (h : decodeFields bytes = some fields)
    (hmore : decodeFields more = some others) : decodeFields (bytes ++ more) = some (fields ++ others) := by
  unfold decodeFields
  rw [List.length_append]
  exact readFields_append h hmore

/-! ### What is read fits in 64 bits -/

theorem decodeField_varint_lt {bytes rest : Bytes} {f : Field} {n : Nat} (h : decodeField bytes = some (f, rest))
    (hn : f.value = .varint n) : n < 2 ^ 64 := by
  simp only [decodeField, Option.bind_eq_bind, Option.bind_eq_some_iff] at h
  obtain ⟨⟨key, afterKey⟩, -, h⟩ := h
  split at h
  · cases h
  · simp only [Option.bind_eq_some_iff] at h
    obtain ⟨⟨value, afterValue⟩, hvalue, h⟩ := h
    cases h
    subst hn
    unfold decodeValue at hvalue
    split at hvalue
    · simp only [Option.map_eq_some_iff, Prod.exists, Prod.mk.injEq, Value.varint.injEq] at hvalue
      obtain ⟨m, after, hm, rfl, -⟩ := hvalue
      exact decodeVarint_lt hm
    all_goals simp [Option.bind_eq_some_iff] at hvalue

theorem readFields_varint_lt {k : Nat} {bytes : Bytes} {fields : List Field} (h : readFields k bytes = some fields)
    {f : Field} (hf : f ∈ fields) {n : Nat} (hn : f.value = .varint n) : n < 2 ^ 64 := by
  induction k generalizing bytes fields with
  | zero =>
    cases bytes with
    | nil =>
      cases h
      cases hf
    | cons b bytes => cases h
  | succ k ih =>
    cases bytes with
    | nil =>
      cases h
      cases hf
    | cons b bytes =>
      simp only [readFields, Option.bind_eq_bind, Option.bind_eq_some_iff] at h
      obtain ⟨⟨first, rest⟩, hfirst, others, hothers, h⟩ := h
      cases h
      rcases List.mem_cons.mp hf with rfl | hf
      · exact decodeField_varint_lt hfirst hn
      · exact ih hothers hf

end Wire
