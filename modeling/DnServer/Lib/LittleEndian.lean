import Mathlib

/-!
# Little-endian numbers

The bytes a little-endian machine has in memory for a number, and the number it
reads from them. An `int` stands in its four bytes as its residue.
-/

namespace DnServer.Lib

/-- The low `width` bytes of a number, the lowest first. -/
def littleEndian : ℕ → ℕ → List UInt8
  | 0, _ => []
  | width + 1, n => UInt8.ofNat n :: littleEndian width (n / 256)

/-- The number that stands in some bytes. -/
def ofLittleEndian : List UInt8 → ℕ
  | [] => 0
  | b :: bs => b.toNat + 256 * ofLittleEndian bs

@[simp] theorem littleEndian_length (width n : ℕ) : (littleEndian width n).length = width := by
  induction width generalizing n with
  | zero => rfl
  | succ width ih => simp [littleEndian, ih]

theorem ofLittleEndian_littleEndian (width n : ℕ) :
    ofLittleEndian (littleEndian width n) = n % 256 ^ width := by
  induction width generalizing n with
  | zero => simp [littleEndian, ofLittleEndian, Nat.mod_one]
  | succ width ih =>
    have hmod : n % 256 ^ (width + 1) = n % 256 + 256 * (n / 256 % 256 ^ width) := by
      rw [pow_succ', Nat.mod_mul]
    rw [littleEndian, ofLittleEndian, ih, hmod, UInt8.toNat_ofNat']

/-- A number that fits is read back. -/
theorem ofLittleEndian_of_lt {width n : ℕ} (h : n < 256 ^ width) :
    ofLittleEndian (littleEndian width n) = n := by
  rw [ofLittleEndian_littleEndian, Nat.mod_eq_of_lt h]

/-! ## `int` -/

/-- A 32-bit word read as an `int`. -/
def signed (n : ℕ) : ℤ := if n < 2147483648 then n else n - 4294967296

/-- The word that an `int` is in memory. -/
def word (v : ℤ) : ℕ := (v % 4294967296).toNat

theorem signed_word {v : ℤ} (h : -2147483648 ≤ v) (h' : v < 2147483648) : signed (word v) = v := by
  unfold signed word
  split <;> omega

end DnServer.Lib
