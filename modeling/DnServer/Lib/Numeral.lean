import Mathlib

/-!
# Byte strings and decimal numerals

A numeral written with the fewest digits, and the digits read back. Reading a
numeral gives the number, and every byte of it is a digit.
-/

namespace DnServer.Lib

abbrev Bytes := List UInt8

/-- The bytes of a text in ASCII. -/
def ascii (s : String) : Bytes := s.toList.map fun c => UInt8.ofNat c.toNat

/-- The decimal numeral of a number. -/
def decimal (n : ℕ) : Bytes :=
  if n = 0 then [48] else (Nat.digits 10 n).reverse.map fun d => UInt8.ofNat (48 + d)

/-- The decimal numeral of an integer. -/
def decimalInt (n : ℤ) : Bytes :=
  if n < 0 then 45 :: decimal n.natAbs else decimal n.natAbs

def digit (b : UInt8) : Option ℕ := if 48 ≤ b ∧ b ≤ 57 then some (b.toNat - 48) else none

def numeral : ℕ → Bytes → Option ℕ
  | acc, [] => some acc
  | acc, b :: l => (digit b).bind fun d => numeral (10 * acc + d) l

theorem digit_ofNat {d : ℕ} (h : d < 10) : digit (UInt8.ofNat (48 + d)) = some d := by
  interval_cases d <;> rfl

/-- Reading digits from the most significant one on. -/
theorem numeral_digits {l : List ℕ} (hl : ∀ d ∈ l, d < 10) (acc : ℕ) :
    numeral acc (l.reverse.map fun d => UInt8.ofNat (48 + d)) =
      some (10 ^ l.length * acc + Nat.ofDigits 10 l) := by
  induction l using List.reverseRecOn generalizing acc with
  | nil => simp [numeral, Nat.ofDigits]
  | append_singleton l d ih =>
    have hd : d < 10 := hl d (by simp)
    rw [List.reverse_append, List.reverse_singleton, List.singleton_append, List.map_cons, numeral,
      digit_ofNat hd, Option.bind_some, ih (fun x hx => hl x (by simp [hx])), Nat.ofDigits_append,
      Nat.ofDigits_singleton, List.length_append, List.length_singleton]
    congr 1
    ring

theorem numeral_decimal (n : ℕ) : numeral 0 (decimal n) = some n := by
  unfold decimal
  split
  · rename_i h
    rw [h]
    rfl
  · rw [numeral_digits fun d hd => Nat.digits_lt_base (by omega) hd, Nat.ofDigits_digits]
    simp

/-- Every byte of a numeral is a digit. -/
theorem mem_decimal {n : ℕ} {b : UInt8} (h : b ∈ decimal n) : 48 ≤ b ∧ b ≤ 57 := by
  unfold decimal at h
  split at h
  · obtain rfl := List.mem_singleton.mp h
    decide
  · obtain ⟨d, hd, rfl⟩ := List.mem_map.mp h
    have hlt : d < 10 := Nat.digits_lt_base (by omega) (List.mem_reverse.mp hd)
    interval_cases d <;> decide

theorem decimal_ne_nil (n : ℕ) : decimal n ≠ [] := by
  unfold decimal
  split
  · exact List.cons_ne_nil _ _
  · rename_i h
    simpa [Nat.digits_eq_nil_iff_eq_zero] using h

end DnServer.Lib
