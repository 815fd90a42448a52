import Mathlib

/-!
# Pro rata payment

A pool pays claims in full if it can, and otherwise each claim its share of the
pool, rounded down. What it pays together never exceeds it.
-/

namespace DnServer.Lib

namespace ProRata

/-- What a pool pays on the claim `x` when the claims add up to `total`. -/
def share (total : ℤ) (pool : ℚ) (x : ℤ) : ℤ :=
  if pool ≥ total then x else ⌊(x : ℚ) / total * pool⌋

variable {total : ℤ} {pool : ℚ}

/-- A pool that cannot pay in full pays on claims that are positive together. -/
private theorem total_pos (hpool : 0 ≤ pool) (hshort : ¬ pool ≥ total) : (0 : ℚ) < total := by
  have hlt : pool < total := lt_of_not_ge hshort
  exact lt_of_le_of_lt hpool hlt

/-- Nobody is paid more than its claim. -/
theorem share_le (hpool : 0 ≤ pool) {x : ℤ} (hx : 0 ≤ x) : share total pool x ≤ x := by
  unfold share
  by_cases hfull : pool ≥ total
  · rw [if_pos hfull]
  · rw [if_neg hfull]
    have hpos := total_pos hpool hfull
    have hratio : pool / total ≤ 1 := (div_le_one hpos).mpr (lt_of_not_ge hfull).le
    have hx' : (0 : ℚ) ≤ x := by exact_mod_cast hx
    have hle : (x : ℚ) / total * pool ≤ x := by
      calc (x : ℚ) / total * pool = x * (pool / total) := by ring
        _ ≤ x * 1 := mul_le_mul_of_nonneg_left hratio hx'
        _ = x := mul_one _
    exact_mod_cast (Int.floor_le _).trans hle

/-- The shares of a pool that is short are bounded by the exact ones. -/
private theorem sum_floor_le (l : List ℤ) :
    ((l.map fun x : ℤ => ⌊(x : ℚ) / total * pool⌋).sum : ℚ) ≤ (l.sum : ℚ) / total * pool := by
  induction l with
  | nil => simp
  | cons x rest ih =>
    rw [List.map_cons, List.sum_cons, List.sum_cons]
    rw [Int.cast_add, Int.cast_add]
    calc ((⌊(x : ℚ) / total * pool⌋ : ℚ) + ((rest.map fun x : ℤ =>
            ⌊(x : ℚ) / total * pool⌋).sum : ℤ))
        ≤ (x : ℚ) / total * pool + (rest.sum : ℚ) / total * pool :=
          add_le_add (Int.floor_le _) ih
      _ = ((x : ℚ) + rest.sum) / total * pool := by ring

/-- The pool is never overdrawn. -/
theorem sum_share_le (l : List ℤ) (htotal : l.sum = total) (hpool : 0 ≤ pool) :
    ((l.map (share total pool)).sum : ℚ) ≤ pool := by
  by_cases hfull : pool ≥ total
  · have hall : l.map (share total pool) = l :=
      (List.map_congr_left fun x _ => if_pos hfull).trans (List.map_id l)
    rw [hall, htotal]
    exact hfull
  · have hall : l.map (share total pool) = l.map fun x : ℤ => ⌊(x : ℚ) / total * pool⌋ :=
      List.map_congr_left fun x _ => if_neg hfull
    have hpos := total_pos hpool hfull
    rw [hall]
    refine (sum_floor_le l).trans ?_
    rw [htotal, div_self hpos.ne', one_mul]

end ProRata

end DnServer.Lib
