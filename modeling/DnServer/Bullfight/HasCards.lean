import DnServer.Bullfight.Poker

/-!
# The check of the cards a client sends

`HasCards` works on two tables of its caller, and Lua passes tables by reference.
Here it runs on a heap of card tables: it copies both into tables of its own,
sorts those, and looks for the cards of one in the other with a moving position.
-/

namespace DnServer.Bullfight

open DnServer.Lib

namespace Poker

/-- The tables of cards that exist. -/
structure Heap where
  tables : ℕ → List Card
  next : ℕ

namespace Heap

/-- A table that exists. -/
abbrev Ref (h : Heap) := Fin h.next

def set (h : Heap) (r : ℕ) (cards : List Card) : Heap :=
  { h with tables := Function.update h.tables r cards }

/-- `{}` -/
def new (h : Heap) : Heap := { h.set h.next [] with next := h.next + 1 }

/-- `table.remove(cards, 1)` -/
def removeFirst (h : Heap) (r : ℕ) : Heap := h.set r (h.tables r).tail

/-- `table.insert(cards, v)` -/
def insert (h : Heap) (r : ℕ) (v : Card) : Heap := h.set r (h.tables r ++ [v])

/-- `copy` is emptied card by card, then the cards are inserted one by one. -/
def copyCards (h : Heap) (cards copy : ℕ) : Heap :=
  let emptied := (fun h => removeFirst h copy)^[(h.tables copy).length] h
  (emptied.tables cards).foldl (fun h v => h.insert copy v) emptied

def sortCards (h : Heap) (s : KeySort Card) (cards : ℕ) : Heap :=
  h.set cards (Poker.sortCards s (h.tables cards))

/-- Does `cards1` contain `cards2`? -/
def hasCards (h : Heap) (s : KeySort Card) (cards1 cards2 : ℕ) : Bool × Heap :=
  if (h.tables cards1).length < (h.tables cards2).length then (false, h)
  else
    let c1 := h.next
    let c2 := h.new.next
    let copied := (h.new.new.copyCards cards1 c1).copyCards cards2 c2
    let sorted := (copied.sortCards s c1).sortCards s c2
    (hasSorted (sorted.tables c1) (sorted.tables c2), sorted)

/-! ## What the operations do to a table -/

@[simp] theorem set_same (h : Heap) (r : ℕ) (cards : List Card) : (h.set r cards).tables r = cards := by
  simp only [set, Function.update_self]

theorem set_other (h : Heap) {r r' : ℕ} (hr : r' ≠ r) (cards : List Card) :
    (h.set r cards).tables r' = h.tables r' := by
  simp only [set, Function.update_of_ne hr]

@[simp] theorem set_tables_self (h : Heap) (r : ℕ) : h.set r (h.tables r) = h := by
  cases h
  simp only [set, Function.update_eq_self]

@[simp] theorem set_set (h : Heap) (r : ℕ) (cards cards' : List Card) :
    (h.set r cards).set r cards' = h.set r cards' := by
  simp only [set, Function.update_idem]

@[simp] theorem new_next (h : Heap) : h.new.next = h.next + 1 := rfl

theorem new_other (h : Heap) {r : ℕ} (hr : r ≠ h.next) : h.new.tables r = h.tables r :=
  h.set_other hr []

theorem emptied_eq (copy : ℕ) : ∀ (n : ℕ) (h : Heap), (h.tables copy).length = n →
    (fun h => removeFirst h copy)^[n] h = h.set copy []
  | 0, h, hlen => by
    rw [Function.iterate_zero_apply, ← List.length_eq_zero_iff.mp hlen, set_tables_self]
  | n + 1, h, hlen => by
    have htail : ((h.removeFirst copy).tables copy).length = n := by
      rw [removeFirst, set_same, List.length_tail, hlen, Nat.add_sub_cancel]
    rw [Function.iterate_succ_apply, emptied_eq copy n _ htail, removeFirst, set_set]

theorem foldl_insert_eq (copy : ℕ) : ∀ (cards : List Card) (h : Heap),
    cards.foldl (fun h v => h.insert copy v) h = h.set copy (h.tables copy ++ cards)
  | [], h => by rw [List.foldl_nil, List.append_nil, set_tables_self]
  | v :: cards, h => by
    rw [List.foldl_cons, foldl_insert_eq copy cards, insert, set_same, set_set, List.append_assoc,
      List.singleton_append]

/-- A copy into another table is a copy of the cards, and no other table changes. -/
theorem copyCards_eq (h : Heap) {cards copy : ℕ} (hne : cards ≠ copy) :
    h.copyCards cards copy =
      h.set copy (Poker.copyCards (h.tables cards) (h.tables copy)) := by
  rw [copyCards, emptied_eq copy _ h rfl, foldl_insert_eq, set_other _ hne, set_same, set_set,
    List.nil_append, Poker.copyCards]

/-- `HasCards` answers by the cards of its arguments alone, and every table that existed
before is as it was. -/
theorem hasCards_spec (h : Heap) (s : KeySort Card) (cards1 cards2 : h.Ref) :
    (h.hasCards s cards1 cards2).1 = Poker.hasCards s (h.tables cards1) (h.tables cards2) ∧
      ∀ r : h.Ref, (h.hasCards s cards1 cards2).2.tables r = h.tables r := by
  have hnew : ∀ r : h.Ref, h.new.new.tables r = h.tables r := fun r => by
    rw [new_other _ (by rw [new_next]; omega), new_other _ (by omega)]
  unfold hasCards Poker.hasCards
  split
  · exact ⟨rfl, fun _ => rfl⟩
  · have hc1 : h.new.new.copyCards cards1 h.next = h.new.new.set h.next (h.tables cards1) := by
      rw [copyCards_eq _ (by omega), hnew, Poker.copyCards]
    have hc2 : (h.new.new.set h.next (h.tables cards1)).copyCards cards2 h.new.next =
        (h.new.new.set h.next (h.tables cards1)).set h.new.next (h.tables cards2) := by
      rw [copyCards_eq _ (by rw [new_next]; omega), set_other _ (by omega), hnew, Poker.copyCards]
    have hne : h.next ≠ h.new.next := by rw [new_next]; omega
    refine ⟨?_, fun r => ?_⟩
    · dsimp only
      rw [hc1, hc2]
      simp only [sortCards, set_same, set_other _ hne, set_other _ hne.symm, Poker.copyCards]
    · have hr1 : (r : ℕ) ≠ h.next := by omega
      have hr2 : (r : ℕ) ≠ h.new.next := by rw [new_next]; omega
      dsimp only
      rw [hc1, hc2]
      simp only [sortCards, set_other _ hr1, set_other _ hr2, hnew]

end Heap

/-! ## What the moving position finds -/

/-- The search stops at the first card that is equal, so a sublist that begins with it stays
one. -/
theorem seek_of_sublist {v : Card} {c2 : List Card} : ∀ {c1 : List Card}, (v :: c2).Sublist c1 →
    ∃ rest, seek v c1 = some rest ∧ c2.Sublist rest
  | [], h => absurd (List.sublist_nil.mp h) (List.cons_ne_nil v c2)
  | c :: c1, h => by
    unfold seek
    by_cases hc : v.point = c.point ∧ v.suit = c.suit
    · rw [if_pos hc]
      exact ⟨c1, rfl, h.of_cons_cons⟩
    · rw [if_neg hc]
      have hrest : (v :: c2).Sublist c1 := by
        cases h with
        | cons _ h => exact h
        | cons_cons _ h => exact absurd ⟨rfl, rfl⟩ hc
      have hne : c1 ≠ [] := by
        rintro rfl
        exact absurd (List.sublist_nil.mp hrest) (List.cons_ne_nil v c2)
      rw [if_neg hne]
      exact seek_of_sublist hrest

/-- A sublist is found, and neither early exit is taken. -/
theorem hasSorted_of_sublist : ∀ {c2 c1 : List Card}, c2.Sublist c1 → hasSorted c1 c2 = true
  | [], _, _ => by rw [hasSorted]
  | v :: c2, c1, h => by
    have hlen := h.length_le
    rw [List.length_cons] at hlen
    obtain ⟨rest, hrest, hsub⟩ := seek_of_sublist h
    rw [hasSorted, if_neg (by omega), hrest]
    exact hasSorted_of_sublist hsub

/-- With suits of one digit no two cards have one key. -/
theorem pointAndSuit_inj {c d : Card} (hc : 0 ≤ c.suit ∧ c.suit ≤ 9) (hd : 0 ≤ d.suit ∧ d.suit ≤ 9)
    (h : pointAndSuit c = pointAndSuit d) : c = d := by
  obtain ⟨p, u⟩ := c
  obtain ⟨q, w⟩ := d
  simp only [pointAndSuit, Card.mk.injEq] at *
  omega

/-- **The check of the cards a client sends.** It accepts only cards that are there, it accepts
them all when the suits have one digit, and it modifies no table of its caller. -/
theorem hasCards_decides (s : KeySort Card) (h : Heap) (cards1 cards2 : h.Ref) :
    ((h.hasCards s cards1 cards2).1 = true →
        (h.tables cards2 : Multiset Card) ≤ h.tables cards1) ∧
      ((∀ c ∈ h.tables cards1 ++ h.tables cards2, 0 ≤ c.suit ∧ c.suit ≤ 9) →
        (h.tables cards2 : Multiset Card) ≤ h.tables cards1 →
        (h.hasCards s cards1 cards2).1 = true) ∧
      ∀ r : h.Ref, (h.hasCards s cards1 cards2).2.tables r = h.tables r := by
  obtain ⟨hanswer, hframe⟩ := h.hasCards_spec s cards1 cards2
  rw [hanswer]
  refine ⟨hasCards_subperm, fun hsuits hle => ?_, hframe⟩
  have hsub := Multiset.coe_le.mp hle
  unfold hasCards
  rw [if_neg (not_lt.mpr hsub.length_le)]
  refine hasSorted_of_sublist (s.sort_sublist hsub fun a ha b hb => ?_)
  exact pointAndSuit_inj (hsuits a (List.mem_append_right _ ha)) (hsuits b (List.mem_append_right _ hb))

end Poker

end DnServer.Bullfight
