import DnServer.Lib.Numeral

/-!
# Numbers packed two digits each

A list of numbers below a hundred, written one after another with two digits each, is read
back as one number. Dividing by a power of a hundred and taking the rest to a hundred
unpacks it.
-/

namespace DnServer.Lib

/-- A number with a zero in front when it has one digit only. -/
def padded (n : ℤ) : Bytes := if n < 10 then decimal 0 ++ decimalInt n else decimalInt n

/-- `a % b` of Lua. -/
def luaMod (a b : ℚ) : ℚ := a - ⌊a / b⌋ * b

/-! ## Writing -/

theorem numeral_append (l m : Bytes) : ∀ acc,
    numeral acc (l ++ m) = (numeral acc l).bind fun n => numeral n m := by
  induction l with
  | nil => exact fun _ => rfl
  | cons b l ih =>
    intro acc
    rw [List.cons_append, numeral, numeral]
    cases digit b with
    | none => rfl
    | some d => exact ih _

/-- A numeral read after other digits moves them by its length. -/
theorem numeral_decimal_acc {n : ℕ} (h : n ≠ 0) (acc : ℕ) :
    numeral acc (decimal n) = some (10 ^ (Nat.digits 10 n).length * acc + n) := by
  rw [decimal, if_neg h, numeral_digits fun d hd => Nat.digits_lt_base (by omega) hd,
    Nat.ofDigits_digits]

/-- Two digits move what was read before by two places. -/
theorem numeral_padded {n : ℕ} (h : n < 100) (acc : ℕ) :
    numeral acc (padded n) = some (100 * acc + n) := by
  have hint : decimalInt n = decimal n := by
    rw [decimalInt, if_neg (by omega), Int.natAbs_natCast]
  have hzero : ∀ acc, numeral acc (decimal 0) = some (10 * acc) := fun _ => rfl
  unfold padded
  rw [hint]
  by_cases hten : (n : ℤ) < 10
  · rw [if_pos hten, numeral_append, hzero, Option.bind_some]
    by_cases hn : n = 0
    · rw [hn, hzero]
      congr 1
      ring
    · rw [numeral_decimal_acc hn, Nat.digits_of_lt 10 n hn (by omega), List.length_singleton]
      congr 1
      ring
  · have hlen : (Nat.digits 10 n).length = 2 := by
      rw [Nat.digits_def' (by omega) (by omega), Nat.digits_of_lt 10 (n / 10) (by omega) (by omega)]
      rfl
    rw [if_neg hten, numeral_decimal_acc (by omega), hlen]
    norm_num

/-! ## Reading -/

/-- The whole part of a rest is the rest of the whole part. -/
theorem floor_luaMod (a : ℚ) (b : ℕ) : ⌊luaMod a b⌋ = ⌊a⌋ % b := by
  have hcast : a - ⌊a / b⌋ * b = a - ((⌊a / b⌋ * b : ℤ) : ℚ) := by push_cast; ring
  rw [luaMod, hcast, Int.floor_sub_intCast, Int.floor_div_natCast, Int.emod_def]
  ring

/-- Dividing by a power of ten cuts decimal places off. -/
theorem floor_div_pow (n : ℤ) (k : ℕ) : ⌊(n : ℚ) / 10 ^ k⌋ = n / 10 ^ k := by
  have h := Rat.floor_intCast_div_natCast n (10 ^ k)
  push_cast at h
  exact h

end DnServer.Lib
