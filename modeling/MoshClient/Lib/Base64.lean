import Mathlib.Data.List.Basic

/-! Base64 in the standard alphabet, without padding. The decoder is canonical: the bits that the last byte leaves over
    must be zero. -/

namespace Base64

/-- The value of a byte of the alphabet. -/
def sextet (b : UInt8) : Option Nat :=
  if 65 ≤ b.toNat ∧ b.toNat ≤ 90 then some (b.toNat - 65)
  else if 97 ≤ b.toNat ∧ b.toNat ≤ 122 then some (b.toNat - 71)
  else if 48 ≤ b.toNat ∧ b.toNat ≤ 57 then some (b.toNat + 4)
  else if b.toNat = 43 then some 62
  else if b.toNat = 47 then some 63
  else none

def decode : List UInt8 → Option (List UInt8)
  | [] => some []
  | [_] => none
  | [a, b] => do
    let w ← sextet a
    let x ← sextet b
    if x % 16 = 0 then some [UInt8.ofNat (w * 4 + x / 16)] else none
  | [a, b, c] => do
    let w ← sextet a
    let x ← sextet b
    let y ← sextet c
    if y % 4 = 0 then some [UInt8.ofNat (w * 4 + x / 16), UInt8.ofNat (x % 16 * 16 + y / 4)] else none
  | a :: b :: c :: d :: rest => do
    let w ← sextet a
    let x ← sextet b
    let y ← sextet c
    let z ← sextet d
    let decoded ← decode rest
    some (UInt8.ofNat (w * 4 + x / 16) :: UInt8.ofNat (x % 16 * 16 + y / 4) :: UInt8.ofNat (y % 4 * 64 + z) :: decoded)

/-- Decodes into a slice of `capacity` bytes. -/
def decodeSlice (encoded : List UInt8) (capacity : Nat) : Option (List UInt8) :=
  (decode encoded).filter fun decoded => decide (decoded.length ≤ capacity)

/-- Only bytes of the alphabet are decoded. -/
theorem sextet_of_decode {encoded decoded : List UInt8} (h : decode encoded = some decoded) :
    ∀ b ∈ encoded, ∃ n, sextet b = some n := by
  fun_induction decode encoded generalizing decoded with
  | case1 => simp
  | case2 => cases h
  | case3 a b =>
    simp only [Option.bind_eq_bind, Option.bind_eq_some_iff] at h
    obtain ⟨w, hw, x, hx, -⟩ := h
    simp [hw, hx]
  | case4 a b c =>
    simp only [Option.bind_eq_bind, Option.bind_eq_some_iff] at h
    obtain ⟨w, hw, x, hx, y, hy, -⟩ := h
    simp [hw, hx, hy]
  | case5 a b c d rest ih =>
    simp only [Option.bind_eq_bind, Option.bind_eq_some_iff] at h
    obtain ⟨w, hw, x, hx, y, hy, z, hz, tail, htail, -⟩ := h
    simpa [hw, hx, hy, hz] using ih htail

end Base64
