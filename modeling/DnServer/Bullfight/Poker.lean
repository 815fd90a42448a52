import DnServer.Lib.KeySort
import DnServer.Bullfight.Types

/-!
# Cards and hand types

From `poker.lua`, the part the bullfight table uses: copying and comparing
hands, the deck, and the type of a hand of five. A function that appends to a
list of its caller takes that list and returns it.
-/

namespace DnServer.Bullfight

open DnServer.Lib

structure Card where
  point : ℤ
  suit : ℤ
deriving DecidableEq, Repr, Inhabited

namespace Poker

/-! ## Copying and searching -/

/-- The key of `ComparePointAndSuit`. -/
def pointAndSuit (c : Card) : ℤ := c.point * 10 + c.suit

def sortCards (s : KeySort Card) (cards : List Card) : List Card := s.sort pointAndSuit cards

/-- `copy` is emptied, then filled with `cards`. -/
def copyCards (cards _copy : List Card) : List Card := cards

/-- The inner loop of `HasCards` over `c1[pos ..]`: what follows the first card
equal to `v`; `none` is the `return false` at the end of the list. -/
def seek (v : Card) : List Card → Option (List Card)
  | [] => some []
  | c :: rest =>
    if v.point = c.point ∧ v.suit = c.suit then some rest
    else if rest = [] then none
    else seek v rest

/-- The outer loop of `HasCards`; the first list is `c1[pos ..]`. -/
def hasSorted : List Card → List Card → Bool
  | _, [] => true
  | c1, v :: c2 =>
    if c2.length > (c1.length : ℤ) - 1 then false
    else match seek v c1 with
      | some rest => hasSorted rest c2
      | none => false

/-- Does `cards1` contain `cards2`? -/
def hasCards (s : KeySort Card) (cards1 cards2 : List Card) : Bool :=
  if cards1.length < cards2.length then false
  else hasSorted (sortCards s (copyCards cards1 [])) (sortCards s (copyCards cards2 []))

/-! ## The deck -/

def initPoker (poker : List Card) : List Card :=
  poker ++ (List.range' 1 4).flatMap (fun i => (List.range' 2 13).map fun j => ⟨j, i⟩)
    ++ [⟨15, 5⟩, ⟨16, 5⟩]

def disCard (poker : List Card) (card : Card) : List Card := poker.erase card

/-- The loop of `Shuffle`: `size` cards are left in `p`, and `rnd size` is the
draw made when that many are left. -/
def shuffleLoop (rnd : ℕ → ℕ) : ℕ → List Card → List Card
  | 0, _ => []
  | size + 1, p =>
    (p[rnd (size + 1) % (size + 1)]?).toList
      ++ shuffleLoop rnd size (p.eraseIdx (rnd (size + 1) % (size + 1)))

def shuffle (rnd : ℕ → ℕ) (poker : List Card) : List Card := shuffleLoop rnd poker.length poker

/-- `num` cards from position `pos` on (counted from 1), and the next position.
Past the end of the deck there is nothing to insert. -/
def popCards (poker : List Card) (num pos : ℕ) : List Card × ℕ :=
  ((poker.drop (pos - 1)).take num, pos + num)

/-! ## Hand types -/

/-- The key of `BFComparePointAndSuit`: an ace counts 0. -/
def bfPointAndSuit (c : Card) : ℤ := c.point % 14 * 10 + c.suit

def bfSortCards (s : KeySort Card) (cards : List Card) : List Card := s.sort bfPointAndSuit cards

/-- Ways to split a hand into three cards and two. -/
def bfoption : List (List ℕ) :=
  [[1, 2, 3, 4, 5], [1, 2, 4, 3, 5], [1, 2, 5, 3, 4],
   [1, 3, 4, 2, 5], [1, 3, 5, 2, 4], [1, 4, 5, 2, 3],
   [2, 3, 4, 1, 5], [2, 4, 5, 1, 3], [2, 3, 5, 1, 4],
   [3, 4, 5, 1, 2]]

/-- What a card adds to a bull: an ace 1, a court card 10. -/
def bullPoint (c : Card) : ℤ :=
  if c.point = 14 then 1 else if c.point > 10 then 10 else c.point

/-- What a card adds to `add`. -/
def smallPoint (c : Card) : ℤ := if c.point = 14 then 1 else c.point

/-- Is this a court card, for `goldnum`? -/
def isGold (c : Card) : Bool := c.point ≠ 14 ∧ c.point > 10

/-- Entry `j` of a list counted from 1. -/
def nth (points : List ℤ) (j : ℕ) : ℤ := points.getD (j - 1) 0

/-- Do the first three of split `v` make a multiple of ten? -/
def isBull (points : List ℤ) (v : List ℕ) : Bool :=
  (((v.take 3).map (nth points)).sum) % 10 = 0

/-- The bull the last two of split `v` make. -/
def bullOf (points : List ℤ) (v : List ℕ) : ℤ :=
  let bftype := (((v.drop 3).map (nth points)).sum) % 10
  if bftype = 0 then 10 else bftype

/-- Type of a hand of five and `retcards`, the hand arranged for display;
`none` is the failed assertion on the number of cards. -/
def getBFType (cards retcards : List Card) : Option (ℤ × List Card) :=
  if cards.length ≠ 5 then none
  else
    let points := cards.map bullPoint
    let goldnum := cards.countP isGold
    let silvenum := cards.countP fun c => c.point = 10
    if (cards.map smallPoint).sum < 10 then
      some (types.PT_ALL_SMALL_BULL, copyCards cards retcards)
    else if cards.any fun c => cards.countP (fun d => d.point = c.point) = 4 then
      some (types.PT_BOMB, copyCards cards retcards)
    else if goldnum = 5 then some (types.PT_GOLD_BULL, copyCards cards retcards)
    else if goldnum + silvenum = 5 then some (types.PT_SILVE_BULL, copyCards cards retcards)
    else match bfoption.find? (isBull points) with
      | some v => some (bullOf points v, retcards ++ v.filterMap fun j => cards[j - 1]?)
      | none => some (types.PT_NO_BULL, copyCards cards retcards)

/-- The place, from 0, of the card that decides between two hands of type `t`. -/
def deciding (t : ℤ) : ℕ := if t = 13 then 1 else 0

/-- The two hands as the comparison leaves them (it sorts both in place when the
types are equal) and whether the first one wins; `none` is the error where a hand
lacks the card that decides, which is `nil`. -/
def bfCompare (s : KeySort Card) (cards1 : List Card) (type1 : ℤ) (cards2 : List Card)
    (type2 : ℤ) : (List Card × List Card) × Option Bool :=
  if type1 > type2 then ((cards1, cards2), some true)
  else if type1 < type2 then ((cards1, cards2), some false)
  else
    let c1 := bfSortCards s cards1
    let c2 := bfSortCards s cards2
    let i := deciding type1
    ((c1, c2), do
      let card1 ← c1[i]?
      let card2 ← c2[i]?
      some (bfPointAndSuit card1 > bfPointAndSuit card2))

/-! ## What the sub-hand check promises -/

theorem seek_cons {v : Card} : ∀ {c1 rest : List Card}, c1 ≠ [] → seek v c1 = some rest →
    (v :: rest).Subperm c1
  | [], _, h, _ => absurd rfl h
  | c :: tail, rest, _, h => by
    unfold seek at h
    split_ifs at h with hc htail
    · obtain rfl : v = c := by
        cases v; cases c; simp_all
      obtain rfl := Option.some.inj h
      exact List.Subperm.refl _
    · exact (seek_cons htail h).trans (List.sublist_cons_self c tail).subperm

theorem hasSorted_subperm : ∀ {c2 c1 : List Card}, hasSorted c1 c2 = true → c2.Subperm c1
  | [], _, _ => List.nil_subperm
  | v :: c2, c1, h => by
    unfold hasSorted at h
    split_ifs at h with hlen
    have hne : c1 ≠ [] := by
      rintro rfl
      simp at hlen
      omega
    cases hs : seek v c1 with
    | none => simp [hs] at h
    | some rest =>
      rw [hs] at h
      have hsub : (v :: c2).Subperm (v :: rest) :=
        List.subperm_cons v |>.mpr (hasSorted_subperm h)
      exact hsub.trans (seek_cons hne hs)

/-- The check accepts only cards the hand has. -/
theorem hasCards_subperm {s : KeySort Card} {cards1 cards2 : List Card}
    (h : hasCards s cards1 cards2 = true) : cards2.Subperm cards1 := by
  unfold hasCards at h
  split_ifs at h with hlen
  have h1 := (s.perm pointAndSuit cards1)
  have h2 := (s.perm pointAndSuit cards2)
  exact (h2.symm.subperm.trans (hasSorted_subperm h)).trans h1.subperm

/-- As many cards as the hand has, all of them in it: the same hand. -/
theorem hasCards_perm {s : KeySort Card} {cards1 cards2 : List Card}
    (h : hasCards s cards1 cards2 = true) (hlen : cards2.length = cards1.length) :
    cards2.Perm cards1 :=
  (hasCards_subperm h).perm_of_length_le hlen.ge

/-! ## What the hand type promises -/

theorem bfoption_perm : ∀ v ∈ bfoption, v.Perm [1, 2, 3, 4, 5] := by decide

private theorem filterMap_range5 {cards : List Card} (h : cards.length = 5) :
    [1, 2, 3, 4, 5].filterMap (fun j => cards[j - 1]?) = cards := by
  match cards, h with
  | [_, _, _, _, _], _ => rfl

theorem bullOf_bounds (points : List ℤ) (v : List ℕ) :
    0 ≤ bullOf points v ∧ bullOf points v ≤ 10 := by
  unfold bullOf
  simp only
  split_ifs <;> omega

/-- A hand of five has a type, and the arranged hand is the same five cards. -/
theorem getBFType_ok {cards : List Card} (h : cards.length = 5) :
    ∃ t ret, getBFType cards [] = some (t, ret) ∧ 0 ≤ t ∧ t ≤ 14 ∧ ret.Perm cards := by
  unfold getBFType
  simp only [h, ne_eq, not_true_eq_false, if_false, copyCards]
  split_ifs
  · exact ⟨_, _, rfl, by norm_num, by norm_num, List.Perm.refl _⟩
  · exact ⟨_, _, rfl, by norm_num, by norm_num, List.Perm.refl _⟩
  · exact ⟨_, _, rfl, by norm_num, by norm_num, List.Perm.refl _⟩
  · exact ⟨_, _, rfl, by norm_num, by norm_num, List.Perm.refl _⟩
  · cases hf : bfoption.find? (isBull (cards.map bullPoint)) with
    | none => exact ⟨_, _, rfl, by norm_num, by norm_num, List.Perm.refl _⟩
    | some v =>
      have hb := bullOf_bounds (cards.map bullPoint) v
      have hp := (bfoption_perm v (List.mem_of_find?_eq_some hf)).filterMap
        fun j => cards[j - 1]?
      rw [filterMap_range5 h] at hp
      exact ⟨_, _, rfl, hb.1, by omega, hp⟩

/-- A comparison only reorders the two hands. -/
theorem bfCompare_perm (s : KeySort Card) (c1 c2 : List Card) (t1 t2 : ℤ) :
    (bfCompare s c1 t1 c2 t2).1.1.Perm c1 ∧ (bfCompare s c1 t1 c2 t2).1.2.Perm c2 := by
  unfold bfCompare
  by_cases hgt : t1 > t2
  · rw [if_pos hgt]
    exact ⟨List.Perm.refl _, List.Perm.refl _⟩
  · by_cases hlt : t1 < t2
    · rw [if_neg hgt, if_pos hlt]
      exact ⟨List.Perm.refl _, List.Perm.refl _⟩
    · rw [if_neg hgt, if_neg hlt]
      exact ⟨s.perm _ c1, s.perm _ c2⟩

/-! ## What dealing promises -/

theorem shuffleLoop_perm (rnd : ℕ → ℕ) : ∀ (size : ℕ) (p : List Card), p.length = size →
    (shuffleLoop rnd size p).Perm p
  | 0, p, hp => by
    rw [List.length_eq_zero_iff.mp hp]
    exact List.Perm.refl _
  | size + 1, p, hp => by
    have hlt : rnd (size + 1) % (size + 1) < p.length := by
      rw [hp]
      exact Nat.mod_lt _ (Nat.succ_pos size)
    have hrest : (p.eraseIdx (rnd (size + 1) % (size + 1))).length = size := by
      rw [List.length_eraseIdx_of_lt hlt, hp, Nat.add_sub_cancel]
    have hdrawn : (p[rnd (size + 1) % (size + 1)]?).toList = [p[rnd (size + 1) % (size + 1)]] := by
      rw [List.getElem?_eq_getElem hlt, Option.toList_some]
    rw [shuffleLoop, hdrawn]
    -- the card drawn goes first, and the rest is shuffled without it
    exact ((shuffleLoop_perm rnd size _ hrest).cons _).trans (List.getElem_cons_eraseIdx_perm hlt)

/-- Whatever is drawn, shuffling neither loses nor makes a card. -/
theorem shuffle_perm (rnd : ℕ → ℕ) (poker : List Card) : (shuffle rnd poker).Perm poker :=
  shuffleLoop_perm rnd _ poker rfl

/-- The cards of the `i`-th hand, dealt five by five from the front. -/
def hand (poker : List Card) (i : ℕ) : List Card := (poker.drop (5 * i)).take 5

theorem popCards_hand (poker : List Card) (i : ℕ) :
    popCards poker 5 (1 + 5 * i) = (hand poker i, 1 + 5 * (i + 1)) := by
  unfold popCards hand
  rw [Nat.add_sub_cancel_left, Nat.mul_add, Nat.add_assoc]

theorem hand_sublist (poker : List Card) (i : ℕ) : (hand poker i).Sublist poker :=
  (List.take_sublist _ _).trans (List.drop_sublist _ _)

theorem length_hand_lt {poker : List Card} {i : ℕ} (h : (hand poker i).length ≠ 5) :
    poker.length < 5 * (i + 1) := by
  unfold hand at h
  rw [List.length_take, List.length_drop] at h
  omega

/-- Two hands of a deck without doubles share no card. -/
theorem hand_disjoint {poker : List Card} (h : poker.Nodup) {i j : ℕ} (hij : i < j) :
    (hand poker i).Disjoint (hand poker j) := by
  have hfirst : (hand poker i).Sublist (poker.take (5 * (i + 1))) := by
    unfold hand
    rw [Nat.mul_add, List.take_drop]
    exact List.drop_sublist _ _
  have hlater : (hand poker j).Sublist (poker.drop (5 * j)) := List.take_sublist _ _
  have hapart := List.disjoint_take_drop h (show 5 * (i + 1) ≤ 5 * j by omega)
  exact fun c hc hc' => hapart (hfirst.subset hc) (hlater.subset hc')

end Poker

end DnServer.Bullfight
