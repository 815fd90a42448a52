import Mathlib

/-!
# The parts of a multiset by a key

A multiset falls into parts of one key each. The parts of different keys together are the
elements with these keys; and parts with two sizes only can be counted by the total.
-/

namespace DnServer.Lib

open Multiset

variable {α κ : Type*} [DecidableEq κ]

/-- The elements with key `k`. -/
def part (key : α → κ) (m : Multiset α) (k : κ) : Multiset α := m.filter fun a => key a = k

theorem mem_part {key : α → κ} {m : Multiset α} {k : κ} {a : α} :
    a ∈ part key m k ↔ a ∈ m ∧ key a = k := Multiset.mem_filter

theorem card_part (key : α → κ) (m : Multiset α) (k : κ) :
    card (part key m k) = m.countP fun a => key a = k := (Multiset.countP_eq_card_filter _ _).symm

/-- Parts of different keys. -/
theorem sum_part (key : α → κ) (m : Multiset α) {ks : List κ} (h : ks.Nodup) :
    (ks.map (part key m)).sum = m.filter fun a => key a ∈ ks := by
  induction ks with
  | nil => simp
  | cons k ks ih =>
    obtain ⟨hk, hks⟩ := List.nodup_cons.mp h
    have hsplit : m.filter (fun a => key a = k ∨ key a ∈ ks) =
        part key m k + m.filter fun a => key a ∈ ks := by
      rw [part, Multiset.filter_add_filter, left_eq_add]
      refine Multiset.filter_eq_nil.mpr ?_
      rintro a - ⟨rfl, hmem⟩
      exact hk hmem
    rw [List.map_cons, List.sum_cons, ih hks, ← hsplit]
    simp only [List.mem_cons]

theorem sum_part_le (key : α → κ) (m : Multiset α) {ks : List κ} (h : ks.Nodup) :
    (ks.map (part key m)).sum ≤ m := by
  rw [sum_part key m h]
  exact Multiset.filter_le _ m

theorem sum_part_eq {key : α → κ} {m : Multiset α} {ks : List κ} (h : ks.Nodup)
    (hall : ∀ a ∈ m, key a ∈ ks) : (ks.map (part key m)).sum = m := by
  rw [sum_part key m h]
  exact Multiset.filter_eq_self.mpr hall

/-- Groups of one size. -/
theorem card_sum_of_card {n : ℕ} {groups : Multiset (Multiset α)} :
    (∀ g ∈ groups, card g = n) → card groups.sum = card groups * n := by
  induction groups using Multiset.induction with
  | empty => simp
  | cons g groups ih =>
    intro h
    rw [Multiset.sum_cons, Multiset.card_add, Multiset.card_cons, h g (Multiset.mem_cons_self g _),
      ih fun g' hg' => h g' (Multiset.mem_cons_of_mem hg')]
    ring

theorem coe_flatMap {ι : Type*} (f : ι → List α) (ks : List ι) :
    (ks.flatMap f : Multiset α) = (ks.map fun k => (f k : Multiset α)).sum := by
  induction ks with
  | nil => rfl
  | cons k ks ih =>
    rw [List.flatMap_cons, ← Multiset.coe_add, ih, List.map_cons, List.sum_cons]

/-- Different elements, each as often as the list has it. -/
theorem coe_flatMap_replicate [DecidableEq α] (l : List α) {ι : Type*} {f : ι → α} {ks : List ι}
    (h : (ks.map f).Nodup) :
    (ks.flatMap fun k => List.replicate (l.count (f k)) (f k) : Multiset α) =
      (l : Multiset α).filter fun a => a ∈ ks.map f := by
  have hpart : ∀ k, part id (l : Multiset α) (f k) =
      ((List.replicate (l.count (f k)) (f k) : List α) : Multiset α) := fun k => by
    rw [← Multiset.coe_count]
    exact Multiset.filter_eq' _ _
  have hsum := sum_part id (l : Multiset α) h
  rw [List.map_map] at hsum
  rw [coe_flatMap]
  simp only [← hpart]
  exact hsum

end DnServer.Lib
