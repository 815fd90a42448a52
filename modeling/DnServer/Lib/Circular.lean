import Mathlib

/-!
# Circular buffers

A list laid out in `cap` slots from `head` on, going on at slot 0 behind the
last one. Elements are taken from the front and added at either end while there
is room, and the layout can be moved to twice as many slots.
-/

namespace DnServer.Lib

namespace Circular

variable {α : Type*} {cap head n i j : ℕ} {slot slot' : ℕ → Option α} {l : List α} {a : α}

/-- The slot `i` places behind `head`. -/
def place (cap head i : ℕ) : ℕ := if head + i < cap then head + i else head + i - cap

theorem place_lt (hh : head < cap) (hi : i ≤ cap) : place cap head i < cap := by
  unfold place
  split <;> omega

theorem place_eq_mod (hh : head < cap) (hi : i ≤ cap) : place cap head i = (head + i) % cap := by
  unfold place
  split
  · rename_i hlt
    exact (Nat.mod_eq_of_lt hlt).symm
  · rename_i hge
    rw [Nat.mod_eq_sub_mod (by omega), Nat.mod_eq_of_lt (by omega)]

theorem place_zero (hh : head < cap) : place cap head 0 = head := if_pos hh

/-- Different places are different slots. -/
theorem place_ne (hi : i < cap) (hj : j < cap) (hne : i ≠ j) :
    place cap head i ≠ place cap head j := by
  unfold place
  split <;> split <;> omega

/-- The elements of `l` are in the slots from `head` on. -/
structure Holds (cap head : ℕ) (slot : ℕ → Option α) (l : List α) : Prop where
  head_lt : head < cap
  length_le : l.length ≤ cap
  slots : ∀ (i : ℕ) (a : α), l[i]? = some a → slot (place cap head i) = some a

theorem Holds.nil (hh : head < cap) : Holds cap head slot [] := ⟨hh, Nat.zero_le _, by simp⟩

/-- The first element is in the slot `head`, and the others begin behind it. -/
theorem Holds.pop (h : Holds cap head slot (a :: l)) :
    slot head = some a ∧ Holds cap (place cap head 1) slot l := by
  have hh := h.head_lt
  have hlen := h.length_le
  rw [List.length_cons] at hlen
  have hfirst := h.slots 0 a rfl
  rw [place_zero hh] at hfirst
  refine ⟨hfirst, place_lt hh (by omega), by omega, fun i b hb => ?_⟩
  have hi : i < l.length := (List.getElem?_eq_some_iff.mp hb).1
  have hplace : place cap (place cap head 1) i = place cap head (i + 1) := by
    unfold place
    split <;> split <;> split <;> omega
  rw [hplace]
  exact h.slots (i + 1) b hb

/-- One more element behind the last. -/
theorem Holds.pushBack (h : Holds cap head slot l) (hroom : l.length < cap) :
    Holds cap head (Function.update slot (place cap head l.length) (some a)) (l ++ [a]) := by
  refine ⟨h.head_lt, by simpa using hroom, fun i b hb => ?_⟩
  by_cases hi : i = l.length
  · subst hi
    rw [List.getElem?_concat_length] at hb
    rw [Function.update_self, hb]
  · have hlt : i < l.length := by
      have := (List.getElem?_eq_some_iff.mp hb).1
      rw [List.length_append, List.length_singleton] at this
      omega
    rw [List.getElem?_append_left hlt] at hb
    rw [Function.update_of_ne (place_ne (by omega) hroom hi)]
    exact h.slots i b hb

/-- One more element before the first. -/
theorem Holds.pushFront (h : Holds cap head slot l) (hroom : l.length < cap) :
    Holds cap (place cap head (cap - 1))
      (Function.update slot (place cap head (cap - 1)) (some a)) (a :: l) := by
  have hh := h.head_lt
  refine ⟨place_lt hh (by omega), by simpa using hroom, fun i b hb => ?_⟩
  have hnew : place cap head (cap - 1) < cap := place_lt hh (by omega)
  cases i with
  | zero =>
    rw [place_zero hnew, Function.update_self]
    exact hb
  | succ i =>
    rw [List.getElem?_cons_succ] at hb
    have hlt : i < l.length := (List.getElem?_eq_some_iff.mp hb).1
    have hplace : place cap (place cap head (cap - 1)) (i + 1) = place cap head i := by
      unfold place
      split <;> split <;> split <;> omega
    rw [hplace, Function.update_of_ne (place_ne (by omega) (by omega) (by omega))]
    exact h.slots i b hb

/-- The elements move to the first of twice as many slots. -/
theorem Holds.grow (h : Holds cap head slot l)
    (hslot : ∀ i, i < l.length → slot' i = slot ((head + i) % cap)) :
    Holds (2 * cap) 0 slot' l := by
  have hh := h.head_lt
  have hlen := h.length_le
  refine ⟨by omega, by omega, fun i b hb => ?_⟩
  have hlt : i < l.length := (List.getElem?_eq_some_iff.mp hb).1
  rw [show place (2 * cap) 0 i = i by unfold place; split <;> omega, hslot i hlt,
    ← place_eq_mod hh (by omega)]
  exact h.slots i b hb

end Circular

end DnServer.Lib
