import Mathlib

/-!
# Binary search

The search of a sorted array by a comparison of its elements with what is looked
for. A comparison that reads outside the array is `none`.
-/

namespace DnServer.Lib

/-- Where the search ends: at the element, or at the place before which it would stand. -/
inductive Bisected
  | found (mid : ℕ)
  | absent (before : ℕ)
deriving DecidableEq

/-- `while (first <= last)`, both ends counted; `c i` compares element `i`. -/
def bisect (c : ℕ → Option ℤ) (first last : ℤ) : Option Bisected :=
  if first ≤ last then
    let mid := (first + last) / 2
    match c mid.toNat with
    | none => none
    | some v =>
      if v = 0 then some (.found mid.toNat)
      else if v < 0 then bisect c (mid + 1) last
      else bisect c first (mid - 1)
  else some (.absent first.toNat)
termination_by (last + 1 - first).toNat
decreasing_by all_goals omega

/-- The elements of an array of `n` come in order: `v i` is negative before what is looked
for and positive behind it. -/
structure Compares (c : ℕ → Option ℤ) (n : ℕ) (v : ℕ → ℤ) : Prop where
  read : ∀ i < n, c i = some (v i)
  mono : ∀ i j, i < j → j < n → v j ≤ 0 → v i < 0

/-- What the search says of the whole array. -/
def Bisected.Right (n : ℕ) (v : ℕ → ℤ) : Bisected → Prop
  | .found mid => mid < n ∧ v mid = 0
  | .absent before => before ≤ n ∧ (∀ i < before, v i < 0) ∧ ∀ i, before ≤ i → i < n → 0 < v i

variable {c : ℕ → Option ℤ} {n : ℕ} {v : ℕ → ℤ}

/-- The search of a window outside of which nothing fits. -/
theorem Compares.bisect_window (h : Compares c n v) {first last : ℤ} (h0 : 0 ≤ first)
    (hlast : last < n) (hle : first ≤ last + 1) (hbefore : ∀ i : ℕ, (i : ℤ) < first → v i < 0)
    (hbehind : ∀ i : ℕ, last < i → i < n → 0 < v i) :
    ∃ r, bisect c first last = some r ∧ r.Right n v := by
  fun_induction bisect c first last with
  | case1 first last hwin mid hread =>
    rw [h.read _ (by omega)] at hread
    cases hread
  | case2 first last hwin mid hread =>
    rw [h.read _ (by omega)] at hread
    exact ⟨_, rfl, by omega, Option.some.inj hread⟩
  | case3 first last hwin mid w hread hne hneg ih =>
    rw [h.read _ (by omega)] at hread
    obtain rfl := Option.some.inj hread
    refine ih (by omega) hlast (by omega) (fun i hi => ?_) hbehind
    rcases Nat.lt_or_ge i mid.toNat with hlt | hge
    · exact h.mono i _ hlt (by omega) hneg.le
    · obtain rfl : i = mid.toNat := by omega
      exact hneg
  | case4 first last hwin mid w hread hne hpos ih =>
    rw [h.read _ (by omega)] at hread
    obtain rfl := Option.some.inj hread
    refine ih h0 (by omega) (by omega) hbefore fun i hi hn => ?_
    rcases Nat.lt_or_ge mid.toNat i with hlt | hge
    · by_contra hnot
      exact hpos (h.mono _ i hlt hn (not_lt.mp hnot))
    · obtain rfl : i = mid.toNat := by omega
      omega
  | case5 first last hwin =>
    refine ⟨_, rfl, by omega, fun i hi => hbefore i (by omega), fun i hi hn => ?_⟩
    exact hbehind i (by omega) hn

/-- The search of the array. -/
theorem Compares.bisect_right (h : Compares c n v) :
    ∃ r, bisect c 0 ((n : ℤ) - 1) = some r ∧ r.Right n v :=
  h.bisect_window le_rfl (by omega) (by omega) (fun i hi => by omega) fun i hi hn => by omega

end DnServer.Lib
