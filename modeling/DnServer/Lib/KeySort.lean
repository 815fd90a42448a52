import Mathlib

/-!
# Sorting by a key with the larger key first

A library sort promises a sorted permutation and nothing about elements with
equal keys. `KeySort` is that promise; `KeySort.insertion` is one sort that
keeps it.
-/

namespace DnServer.Lib

/-- A sort that puts larger keys first. Ties may come out in any order. -/
structure KeySort (α : Type*) where
  sort : (α → ℤ) → List α → List α
  perm : ∀ key l, (sort key l).Perm l
  sorted : ∀ key l, (sort key l).Pairwise fun a b => key b ≤ key a

namespace KeySort

variable {α : Type*}

/-- Insertion sort. -/
def insertion : KeySort α where
  sort key l := l.insertionSort fun a b => key b ≤ key a
  perm key l := List.perm_insertionSort _ l
  sorted key l := by
    have : Std.Total fun a b : α => key b ≤ key a := ⟨fun a b => le_total (key b) (key a)⟩
    have : IsTrans α fun a b => key b ≤ key a := ⟨fun _ _ _ hab hbc => le_trans hbc hab⟩
    exact List.pairwise_insertionSort _ l

instance : Inhabited (KeySort α) := ⟨insertion⟩

@[simp] theorem length_sort (s : KeySort α) (key : α → ℤ) (l : List α) :
    (s.sort key l).length = l.length := (s.perm key l).length_eq

@[simp] theorem mem_sort (s : KeySort α) (key : α → ℤ) (l : List α) (a : α) :
    a ∈ s.sort key l ↔ a ∈ l := (s.perm key l).mem_iff

/-- What a sort puts first depends on the elements only, where no two have one key. -/
theorem sort_eq_of_perm (s : KeySort α) {key : α → ℤ} {l l' : List α} (h : l.Perm l')
    (hinj : ∀ a ∈ l, ∀ b ∈ l, key a = key b → a = b) : s.sort key l = s.sort key l' := by
  have hperm : (s.sort key l).Perm (s.sort key l') :=
    ((s.perm key l).trans h).trans (s.perm key l').symm
  refine hperm.eq_of_pairwise (fun a b ha hb hab hba => ?_) (s.sorted key l) (s.sorted key l')
  exact hinj a ((s.mem_sort key l a).mp ha) b (h.mem_iff.mpr ((s.mem_sort key l' b).mp hb))
    (le_antisymm hba hab)

/-- The keys come out in one order, whatever the sort does with ties. -/
theorem map_sort_of_perm (s s' : KeySort α) {key : α → ℤ} {l l' : List α} (h : l.Perm l') :
    (s.sort key l).map key = (s'.sort key l').map key := by
  have hperm : ((s.sort key l).map key).Perm ((s'.sort key l').map key) :=
    (((s.perm key l).trans h).trans (s'.perm key l').symm).map key
  refine List.Perm.eq_of_pairwise (fun (a b : ℤ) _ _ (hab : b ≤ a) hba => le_antisymm hba hab)
    ?_ ?_ hperm
  · exact List.pairwise_map.mpr (s.sorted key l)
  · exact List.pairwise_map.mpr (s'.sorted key l')

/-- A part of a list sorts to a sublist, where no two elements have one key. -/
theorem sort_sublist (s : KeySort α) {key : α → ℤ} {l l' : List α} (h : l.Subperm l')
    (hinj : ∀ a ∈ l, ∀ b ∈ l, key a = key b → a = b) : (s.sort key l).Sublist (s.sort key l') := by
  obtain ⟨m, hm, hsub⟩ := ((s.perm key l).subperm.trans h).trans (s.perm key l').symm.subperm
  have hsorted : m.Pairwise fun a b => key b ≤ key a := (s.sorted key l').sublist hsub
  have heq : m = s.sort key l := by
    refine hm.eq_of_pairwise (fun a b ha hb hab hba => ?_) hsorted (s.sorted key l)
    exact hinj a ((s.mem_sort key l a).mp (hm.mem_iff.mp ha)) b ((s.mem_sort key l b).mp hb)
      (le_antisymm hba hab)
  exact heq ▸ hsub

end KeySort

end DnServer.Lib
