import Mathlib

/-!
# Sorting by a comparison

`table.sort` takes a comparison `lt` and leaves equal elements in any order. What it promises,
for a comparison that is a strict weak order, is `CompareSort`; `CompareSort.insertion` is one
sort that keeps it.
-/

namespace DnServer.Lib

/-- `lt` ranks elements, with ties. -/
structure StrictWeak {α : Type*} (lt : α → α → Bool) : Prop where
  asymm : ∀ a b, lt a b = true → lt b a = false
  trans : ∀ a b c, lt b a = false → lt c b = false → lt c a = false

/-- A sort by a comparison. Ties may come out in any order. -/
structure CompareSort (α : Type*) where
  sort : (α → α → Bool) → List α → List α
  perm : ∀ lt l, StrictWeak lt → (sort lt l).Perm l
  sorted : ∀ lt l, StrictWeak lt → (sort lt l).Pairwise fun a b => lt b a = false

namespace StrictWeak

variable {α : Type*} {lt : α → α → Bool}

/-- Of two elements one is not before the other. -/
theorem total (h : StrictWeak lt) (a b : α) : lt b a = false ∨ lt a b = false := by
  cases hba : lt b a with
  | false => exact .inl rfl
  | true => exact .inr (h.asymm b a hba)

/-- By a number, the larger first. -/
theorem of_key {K : Type*} [LinearOrder K] (key : α → K) :
    StrictWeak fun a b => decide (key a > key b) where
  asymm a b h := decide_eq_false (not_lt.mpr (of_decide_eq_true h).le)
  trans a b c hba hcb := by
    have hab := not_lt.mp (of_decide_eq_false hba)
    have hbc := not_lt.mp (of_decide_eq_false hcb)
    exact decide_eq_false (not_lt.mpr (hbc.trans hab))

/-- By a number, the larger first, and among equals by another one, the smaller first. -/
theorem of_key_then {K L : Type*} [LinearOrder K] [LinearOrder L] (key : α → K) (tie : α → L) :
    StrictWeak fun a b =>
      if key a = key b then decide (tie a < tie b) else decide (key a > key b) where
  asymm a b h := by
    by_cases hkey : key a = key b
    · rw [if_pos hkey] at h
      rw [if_pos hkey.symm]
      exact decide_eq_false (not_lt.mpr (of_decide_eq_true h).le)
    · rw [if_neg hkey] at h
      rw [if_neg (Ne.symm hkey)]
      exact decide_eq_false (not_lt.mpr (of_decide_eq_true h).le)
  trans a b c hba hcb := by
    have hnot : ∀ x y, (if key y = key x then decide (tie y < tie x) else decide (key y > key x)) =
        false → key y < key x ∨ key y = key x ∧ tie x ≤ tie y := by
      intro x y h
      by_cases hkey : key y = key x
      · rw [if_pos hkey] at h
        exact .inr ⟨hkey, not_lt.mp (of_decide_eq_false h)⟩
      · rw [if_neg hkey] at h
        exact .inl (lt_of_le_of_ne (not_lt.mp (of_decide_eq_false h)) hkey)
    rcases hnot a b hba with hab | ⟨hab, htab⟩ <;> rcases hnot b c hcb with hbc | ⟨hbc, htbc⟩
    · rw [if_neg (hbc.trans hab).ne]
      exact decide_eq_false (not_lt.mpr (hbc.trans hab).le)
    · rw [if_neg (hbc ▸ hab.ne)]
      exact decide_eq_false (not_lt.mpr (hbc ▸ hab.le))
    · rw [if_neg (hab ▸ hbc.ne)]
      exact decide_eq_false (not_lt.mpr (hab ▸ hbc.le))
    · rw [if_pos (hbc.trans hab)]
      exact decide_eq_false (not_lt.mpr (htab.trans htbc))

end StrictWeak

namespace CompareSort

variable {α : Type*}

/-- Insertion sort. -/
def insertion : CompareSort α where
  sort lt l := l.insertionSort fun a b => lt b a = false
  perm lt l _ := List.perm_insertionSort _ l
  sorted lt l h := by
    have : Std.Total fun a b : α => lt b a = false := ⟨h.total⟩
    have : IsTrans α fun a b => lt b a = false := ⟨h.trans⟩
    exact List.pairwise_insertionSort _ l

instance : Inhabited (CompareSort α) := ⟨insertion⟩

end CompareSort

end DnServer.Lib
