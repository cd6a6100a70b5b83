import Mathlib.Data.List.Basic
import Mathlib.Data.List.Induction
import Mathlib.Data.Nat.Bitwise

/-! Unsigned 64-bit arithmetic on natural numbers, and numbers as big-endian bytes. -/

namespace Machine

/-! ### Checked arithmetic -/

def u64Max : Nat := 2 ^ 64 - 1

theorem u64Max_lt : u64Max < 2 ^ 64 := by decide

/-- The sum, when it fits in 64 bits. -/
def checkedAdd (a b : Nat) : Option Nat := if a + b < 2 ^ 64 then some (a + b) else none

/-- The difference, when it is not negative. -/
def checkedSub (a b : Nat) : Option Nat := if b ≤ a then some (a - b) else none

def saturatingAdd (a b : Nat) : Nat := min (a + b) u64Max

theorem checkedAdd_eq_some {a b n : Nat} : checkedAdd a b = some n ↔ n = a + b ∧ a + b < 2 ^ 64 := by
  unfold checkedAdd
  split <;> simp_all [eq_comm]

theorem checkedAdd_eq_none {a b : Nat} : checkedAdd a b = none ↔ 2 ^ 64 ≤ a + b := by
  unfold checkedAdd
  split
  · simp only [reduceCtorEq, false_iff]
    omega
  · simp only [true_iff]
    omega

theorem checkedSub_eq_some {a b n : Nat} : checkedSub a b = some n ↔ n = a - b ∧ b ≤ a := by
  unfold checkedSub
  split <;> simp_all [eq_comm]

/-! ### Big-endian bytes -/

/-- The `k` bytes of `n`, highest first. -/
def toBigEndian : Nat → Nat → List UInt8
  | 0, _ => []
  | k + 1, n => toBigEndian k (n / 256) ++ [UInt8.ofNat (n % 256)]

def ofBigEndian (bytes : List UInt8) : Nat := bytes.foldl (fun n b => n * 256 + b.toNat) 0

@[simp] theorem length_toBigEndian (k n : Nat) : (toBigEndian k n).length = k := by
  induction k generalizing n with
  | zero => rfl
  | succ k ih => simp [toBigEndian, ih]

theorem ofBigEndian_toBigEndian {k n : Nat} (h : n < 256 ^ k) : ofBigEndian (toBigEndian k n) = n := by
  induction k generalizing n with
  | zero =>
    have : n = 0 := by simpa using h
    simp [this, toBigEndian, ofBigEndian]
  | succ k ih =>
    have hdiv : n / 256 < 256 ^ k := by
      rw [Nat.div_lt_iff_lt_mul (by decide), ← Nat.pow_succ]
      exact h
    have hlast : (UInt8.ofNat (n % 256)).toNat = n % 256 := by simp
    have hrest := ih hdiv
    unfold ofBigEndian at hrest
    rw [toBigEndian, ofBigEndian, List.foldl_append, hrest]
    simp only [List.foldl_cons, List.foldl_nil, hlast]
    omega

theorem ofBigEndian_append (bytes : List UInt8) (b : UInt8) :
    ofBigEndian (bytes ++ [b]) = ofBigEndian bytes * 256 + b.toNat := by
  simp [ofBigEndian, List.foldl_append]

theorem ofBigEndian_lt (bytes : List UInt8) : ofBigEndian bytes < 256 ^ bytes.length := by
  induction bytes using List.reverseRecOn with
  | nil => decide
  | append_singleton bytes b ih =>
    have hb : b.toNat < 256 := b.toNat_lt
    rw [ofBigEndian_append, List.length_append, List.length_singleton, Nat.pow_succ]
    omega

theorem toBigEndian_ofBigEndian {k : Nat} {bytes : List UInt8} (h : bytes.length = k) :
    toBigEndian k (ofBigEndian bytes) = bytes := by
  subst h
  induction bytes using List.reverseRecOn with
  | nil => rfl
  | append_singleton bytes b ih =>
    have hb : b.toNat < 256 := b.toNat_lt
    have hdiv : (ofBigEndian bytes * 256 + b.toNat) / 256 = ofBigEndian bytes := by omega
    have hmod : (ofBigEndian bytes * 256 + b.toNat) % 256 = b.toNat := by omega
    rw [List.length_append, List.length_singleton, toBigEndian, ofBigEndian_append, hdiv, hmod, ih, UInt8.ofNat_toNat]

/-- The number in `n` bytes from `i` on. -/
def readBigEndian (bytes : List UInt8) (i n : Nat) : Nat := ofBigEndian ((bytes.drop i).take n)

theorem length_take_drop {bytes : List UInt8} {i n : Nat} (h : i + n ≤ bytes.length) :
    ((bytes.drop i).take n).length = n := by
  rw [List.length_take, List.length_drop]
  omega

theorem readBigEndian_lt {bytes : List UInt8} {i n : Nat} (h : i + n ≤ bytes.length) :
    readBigEndian bytes i n < 256 ^ n := by
  have hlt := ofBigEndian_lt ((bytes.drop i).take n)
  rwa [length_take_drop h] at hlt

/-- A number is written back as the bytes that it was read from. -/
theorem toBigEndian_readBigEndian {bytes : List UInt8} {i n : Nat} (h : i + n ≤ bytes.length) :
    toBigEndian n (readBigEndian bytes i n) ++ bytes.drop (i + n) = bytes.drop i := by
  rw [readBigEndian, toBigEndian_ofBigEndian (length_take_drop h), ← List.drop_drop, List.take_append_drop]

/-! ### A flag above a number -/

/-- The number with the bit above it set or not. -/
def withFlag (k n : Nat) (flag : Bool) : Nat := n ||| if flag then 2 ^ k else 0

theorem withFlag_eq {k n : Nat} (hn : n < 2 ^ k) (flag : Bool) : withFlag k n flag = flag.toNat * 2 ^ k + n := by
  cases flag with
  | false => simp [withFlag]
  | true =>
    simp only [withFlag, if_true, Bool.toNat_true, Nat.one_mul]
    have hsum := Nat.two_pow_add_eq_or_of_lt hn 1
    rw [Nat.mul_one] at hsum
    rw [Nat.or_comm, ← hsum]

theorem withFlag_lt {k n : Nat} (hn : n < 2 ^ k) (flag : Bool) : withFlag k n flag < 2 ^ (k + 1) := by
  have hflag : flag.toNat * 2 ^ k ≤ 1 * 2 ^ k := Nat.mul_le_mul_right _ (Bool.toNat_le flag)
  rw [withFlag_eq hn, Nat.pow_succ]
  omega

theorem withFlag_and_number {k n : Nat} (hn : n < 2 ^ k) (flag : Bool) : withFlag k n flag &&& (2 ^ k - 1) = n := by
  rw [Nat.and_two_pow_sub_one_eq_mod, withFlag_eq hn, Nat.add_comm, Nat.add_mul_mod_self_right, Nat.mod_eq_of_lt hn]

theorem withFlag_and_flag {k n : Nat} (hn : n < 2 ^ k) (flag : Bool) :
    withFlag k n flag &&& 2 ^ k = if flag then 2 ^ k else 0 := by
  rw [Nat.and_two_pow, withFlag_eq hn]
  cases flag with
  | false => simp [Nat.testBit_lt_two_pow hn]
  | true => simp [Nat.testBit_two_pow_add_eq, Nat.testBit_lt_two_pow hn]

/-- A word of one bit more is its number and its flag. -/
theorem withFlag_of_lt {k word : Nat} (h : word < 2 ^ (k + 1)) :
    withFlag k (word &&& (2 ^ k - 1)) (word &&& 2 ^ k != 0) = word := by
  have hmod : word &&& (2 ^ k - 1) = word % 2 ^ k := Nat.and_two_pow_sub_one_eq_mod word k
  have hflag : word &&& 2 ^ k = (word / 2 ^ k % 2) * 2 ^ k := by
    rw [Nat.and_two_pow, Nat.testBit_eq_decide_div_mod_eq]
    obtain h | h := Nat.mod_two_eq_zero_or_one (word / 2 ^ k) <;> simp [h]
  have hdiv : word / 2 ^ k < 2 := by
    rw [Nat.div_lt_iff_lt_mul (Nat.two_pow_pos k), Nat.mul_comm, ← Nat.pow_succ]
    exact h
  rw [withFlag_eq (by rw [hmod]; exact Nat.mod_lt _ (Nat.two_pow_pos k)), hmod, hflag]
  have hsplit := Nat.div_add_mod' word (2 ^ k)
  generalize word / 2 ^ k = flag at hdiv hsplit
  obtain rfl | rfl : flag = 0 ∨ flag = 1 := by omega
  · simpa using hsplit
  · have hset : (2 ^ k != 0) = true := bne_iff_ne.mpr (Nat.two_pow_pos k).ne'
    simpa [hset] using hsplit

end Machine
