import DnServer.Bullfight.HasCards

/-!
# Hands of three and of five cards

From `poker.lua`, the comparison of the hands of the thirteen-card game. A hand
gets a type, its cards are arranged so that those which decide come first, and
two hands of one type are compared card by card. Functions that sort or rearrange
their argument return it; a failed assertion or a missing card is `none`.
-/

namespace DnServer.Bullfight

open DnServer.Lib

namespace types

abbrev PT_SINGLE : ℤ := 1
abbrev PT_PAIR : ℤ := 2
abbrev PT_DOUBLE_PAIR : ℤ := 3
abbrev PT_THREE : ℤ := 4
abbrev PT_STRAIGHT : ℤ := 5
abbrev PT_FLUSH : ℤ := 6
abbrev PT_FULL_HOUSE : ℤ := 7
abbrev PT_FOUR : ℤ := 8
abbrev PT_STRAIGHT_FLUSH : ℤ := 9
abbrev PT_FIVE : ℤ := 10

end types

namespace Poker

open types

/-! ## The type of a hand -/

/-- `cards[pos]`, with positions counted from 1. -/
def cardAt (cards : List Card) : ℕ → Option Card
  | 0 => none
  | pos + 1 => cards[pos]?

/-- The loop of `GetDifferPointNum`. -/
def differLoop (num : ℕ) (point : ℤ) : List Card → ℕ
  | [] => num
  | v :: rest =>
    if point ≠ v.point then differLoop (num + 1) v.point rest else differLoop num point rest

/-- How often the point changes from one card to the next, and one. -/
def getDifferPointNum (cards : List Card) : Option ℕ := do
  let card ← cardAt cards 1
  return differLoop 1 card.point cards

/-- How many cards there are of the point with the most. -/
def getMostPointNum (cards : List Card) : ℕ :=
  (cards.map fun v => cards.countP fun j => v.point = j.point).foldl
    (fun num2 num1 => if num1 > num2 then num1 else num2) 0

/-- The second of the two definitions, which is the one in force. -/
def isPTFlush (cards : List Card) : Option Bool := do
  let card ← cardAt cards 1
  return cards.all fun v => card.suit = v.suit

def isPTStraight (s : KeySort Card) (cards : List Card) : Option (Bool × List Card) := do
  let cards := sortCards s cards
  let differnum ← getDifferPointNum cards
  if cards.length ≠ differnum then
    return (false, cards)
  let card1 ← cardAt cards 1
  let card2 ← cardAt cards cards.length
  if card1.point = 14 ∧ card2.point = 2 then
    let card1 ← cardAt cards 2
    return (card1.point - card2.point = (cards.length : ℤ) - 2, cards)
  return (card1.point - card2.point = (cards.length : ℤ) - 1, cards)

def getFiveCardsType (s : KeySort Card) (cards : List Card) : Option (ℤ × List Card) := do
  if cards.length ≠ 5 then
    none
  let cards := sortCards s cards
  let differnum ← getDifferPointNum cards
  let mostnum := getMostPointNum cards
  if differnum = 1 then
    return (PT_FIVE, cards)
  if differnum = 2 then
    return (if mostnum = 4 then PT_FOUR else PT_FULL_HOUSE, cards)
  if ← isPTFlush cards then
    let (straight, cards) ← isPTStraight s cards
    return (if straight then PT_STRAIGHT_FLUSH else PT_FLUSH, cards)
  let (straight, cards) ← isPTStraight s cards
  if straight then
    return (PT_STRAIGHT, cards)
  if differnum = 3 then
    return (if mostnum = 3 then PT_THREE else PT_DOUBLE_PAIR, cards)
  return (if differnum = 4 then PT_PAIR else PT_SINGLE, cards)

def getThreeCardsType (s : KeySort Card) (cards : List Card) : Option (ℤ × List Card) := do
  let cards := sortCards s cards
  let differnum ← getDifferPointNum cards
  return (if differnum = 1 then PT_THREE else if differnum = 2 then PT_PAIR else PT_SINGLE, cards)

/-! ## Arranging a hand -/

/-- Where the loop over a pair stops: the first position whose card has the point
of the card before it. -/
def pairAt (point : ℤ) (k : ℕ) : List Card → Option ℕ
  | [] => none
  | v :: rest => if v.point = point then some k else pairAt v.point (k + 1) rest

/-- Two insertions at the front and two removals bring the cards `k - 1` and `k` there. -/
def pairFirst (cards : List Card) (k : ℕ) : Option (List Card) := do
  let cards := (← cardAt cards (k - 1)) :: cards
  let cards := (← cardAt cards (k + 1)) :: cards
  return (cards.eraseIdx (k + 1)).eraseIdx k

/-- The sorted hand of five, with the cards that decide first. -/
def arrangeFive (cardstype : ℤ) : List Card → Option (List Card)
  | [c1, c2, c3, c4, c5] =>
    if cardstype = PT_PAIR then
      match pairAt 0 1 [c1, c2, c3, c4, c5] with
      | some k => pairFirst [c1, c2, c3, c4, c5] k
      | none => some [c1, c2, c3, c4, c5]
    else if cardstype = PT_DOUBLE_PAIR then
      if c1.point ≠ c2.point then some [c2, c3, c4, c5, c1]
      else if c4.point = c5.point then some [c1, c2, c4, c5, c3]
      else some [c1, c2, c3, c4, c5]
    else if cardstype = PT_THREE then
      if c2.point = c4.point then some [c2, c3, c4, c1, c5]
      else if c3.point = c5.point then some [c3, c4, c5, c1, c2]
      else some [c1, c2, c3, c4, c5]
    else if cardstype = PT_FULL_HOUSE then
      if c3.point = c4.point then some [c3, c4, c5, c1, c2] else some [c1, c2, c3, c4, c5]
    else if cardstype = PT_FOUR then
      if c1.point ≠ c2.point then some [c2, c3, c4, c5, c1] else some [c1, c2, c3, c4, c5]
    else some [c1, c2, c3, c4, c5]
  | _ => none

def sortForCompareFive (s : KeySort Card) (cards : List Card) (cardstype : ℤ) :
    Option (List Card) := do
  if cards.length ≠ 5 then
    none
  let (cardstype, cards) ←
    if cardstype < PT_SINGLE ∨ cardstype > PT_FIVE then getFiveCardsType s cards
    else some (cardstype, cards)
  if ¬ (cardstype ≥ PT_SINGLE ∧ cardstype ≤ PT_FIVE) then
    none
  arrangeFive cardstype (sortCards s cards)

/-- The sorted hand of three, with a pair first. -/
def arrangeThree (cardstype : ℤ) : List Card → Option (List Card)
  | [c1, c2, c3] =>
    if cardstype = PT_PAIR ∧ c2.point = c3.point then some [c2, c3, c1] else some [c1, c2, c3]
  | _ => none

def sortForCompareThree (s : KeySort Card) (cards : List Card) (cardstype : ℤ) :
    Option (List Card) := do
  if cards.length ≠ 3 then
    none
  let (cardstype, cards) ←
    if cardstype < PT_SINGLE ∨ cardstype > PT_THREE then getThreeCardsType s cards
    else some (cardstype, cards)
  if ¬ (cardstype ≥ PT_SINGLE ∧ cardstype ≤ PT_THREE) then
    none
  arrangeThree cardstype (sortCards s cards)

/-! ## The comparison -/

/-- The loop over the cards, for hands of one size and with `COMPARE_SUIT` off. -/
def compareLoop : List Card → List Card → ℤ
  | c1 :: cards1, c2 :: cards2 =>
    if c1.point > c2.point then 1
    else if c2.point > c1.point then -1
    else compareLoop cards1 cards2
  | _, _ => 0

/-- The result, 1 if the first hand wins and -1 if the second does, and the two hands as
the comparison leaves them. -/
def compareCards (s : KeySort Card) (cards1 : List Card) (type1 : ℤ) (cards2 : List Card)
    (type2 : ℤ) : Option (ℤ × List Card × List Card) := do
  if ¬ (cards1.length = cards2.length ∧ (cards1.length = 3 ∨ cards1.length = 5)) then
    none
  let sortForCompare := if cards1.length = 5 then sortForCompareFive s else sortForCompareThree s
  let cards1 ← sortForCompare cards1 type1
  let cards2 ← sortForCompare cards2 type2
  let result :=
    if type1 = type2 then compareLoop cards1 cards2 else if type1 > type2 then 1 else -1
  return (result, cards1, cards2)

/-! ## The rules -/

/-- How many points there are. -/
def distinct (hand : Multiset Card) : ℕ := (hand.map Card.point).toFinset.card

/-- How many cards there are of the point with the most. -/
def most (hand : Multiset Card) : ℕ :=
  (hand.map fun c => hand.countP fun d => c.point = d.point).sup

def Flush (hand : Multiset Card) : Prop := ∀ c ∈ hand, ∀ d ∈ hand, c.suit = d.suit

/-- The points are different and lie as close as they can. -/
def Straight (value : Card → ℤ) (hand : Multiset Card) : Prop :=
  distinct hand = Multiset.card hand ∧
    ∃ low, ∀ c ∈ hand, low ≤ value c ∧ value c < low + Multiset.card hand

/-- An ace below the two. -/
def aceLow (c : Card) : ℤ := if c.point = 14 then 1 else c.point

open Classical in
/-- The type of a hand of five by the rules, which know no order of the cards. -/
noncomputable def ruleFive (hand : Multiset Card) : ℤ :=
  if distinct hand = 1 then PT_FIVE
  else if Flush hand ∧ (Straight Card.point hand ∨ Straight aceLow hand) then PT_STRAIGHT_FLUSH
  else if most hand = 4 then PT_FOUR
  else if distinct hand = 2 then PT_FULL_HOUSE
  else if Flush hand then PT_FLUSH
  else if Straight Card.point hand ∨ Straight aceLow hand then PT_STRAIGHT
  else if most hand = 3 then PT_THREE
  else if distinct hand = 3 then PT_DOUBLE_PAIR
  else if distinct hand = 4 then PT_PAIR
  else PT_SINGLE

/-- The type of a hand of three by the rules. -/
def ruleThree (hand : Multiset Card) : ℤ :=
  if distinct hand = 1 then PT_THREE else if distinct hand = 2 then PT_PAIR else PT_SINGLE

/-! ## Each test of the code is a test of the rules -/

theorem mem_initPoker : ∀ c ∈ initPoker [], 2 ≤ c.point ∧ 0 ≤ c.suit ∧ c.suit ≤ 9 := by decide

/-- Three or five cards of one deck. -/
structure Hand (n : ℕ) where
  cards : List Card
  size : cards.length = n
  three_or_five : n = 3 ∨ n = 5
  deck : cards.Subperm (initPoker [])

/-- Cards of the deck with the larger first. -/
structure Arranged (cards : List Card) : Prop where
  deck : ∀ c ∈ cards, 2 ≤ c.point ∧ 0 ≤ c.suit ∧ c.suit ≤ 9
  sorted : cards.Pairwise fun a b => pointAndSuit b ≤ pointAndSuit a

theorem Arranged.points {cards : List Card} (h : Arranged cards) :
    cards.Pairwise fun a b => b.point ≤ a.point := by
  refine h.sorted.imp_of_mem fun {a b} ha hb hab => ?_
  have := h.deck a ha
  have := h.deck b hb
  unfold pointAndSuit at hab
  omega

theorem Arranged.tail {c : Card} {cards : List Card} (h : Arranged (c :: cards)) : Arranged cards :=
  ⟨fun d hd => h.deck d (List.mem_cons_of_mem c hd), (List.pairwise_cons.mp h.sorted).2⟩

/-- The loop counts the points that are not `point`. -/
theorem differLoop_eq : ∀ {cards : List Card} {point : ℤ} (num : ℕ),
    (∀ c ∈ cards, c.point ≤ point) → cards.Pairwise (fun a b => b.point ≤ a.point) →
    differLoop num point cards = num + ((cards.map Card.point).toFinset.erase point).card
  | [], _, _, _, _ => rfl
  | v :: cards, point, num, hle, hsorted => by
    obtain ⟨hv, hrest⟩ := List.pairwise_cons.mp hsorted
    rw [List.map_cons, List.toFinset_cons, differLoop]
    by_cases hp : point = v.point
    · rw [if_neg (not_not.mpr hp), hp, Finset.erase_insert_eq_erase, differLoop_eq num hv hrest]
    · have hlt : v.point < point := lt_of_le_of_ne (hle v List.mem_cons_self) (Ne.symm hp)
      have hnot : point ∉ insert v.point (cards.map Card.point).toFinset := by
        intro hmem
        rcases Finset.mem_insert.mp hmem with heq | hmem
        · exact hp heq
        · obtain ⟨c, hc, heq⟩ := List.mem_map.mp (List.mem_toFinset.mp hmem)
          have := hv c hc
          omega
      rw [if_pos hp, Finset.erase_eq_of_notMem hnot, differLoop_eq (num + 1) hv hrest,
        ← Finset.card_erase_add_one (Finset.mem_insert_self _ _), Finset.erase_insert_eq_erase]
      omega

theorem getDifferPointNum_eq {cards : List Card} (h : Arranged cards) (hne : cards ≠ []) :
    getDifferPointNum cards = some (distinct cards) := by
  obtain ⟨c, rest, rfl⟩ := List.exists_cons_of_ne_nil hne
  have hle : ∀ d ∈ c :: rest, d.point ≤ c.point := by
    intro d hd
    rcases List.mem_cons.mp hd with rfl | hd
    · exact le_rfl
    · exact (List.pairwise_cons.mp h.points).1 d hd
  have hmem : c.point ∈ ((c :: rest).map Card.point).toFinset :=
    List.mem_toFinset.mpr (List.mem_map_of_mem List.mem_cons_self)
  have hcount : differLoop 1 c.point (c :: rest) = ((c :: rest).map Card.point).toFinset.card := by
    rw [differLoop_eq 1 hle h.points, add_comm, Finset.card_erase_add_one hmem]
  exact congrArg some hcount

theorem getMostPointNum_eq (cards : List Card) : getMostPointNum cards = most cards := by
  have hmax : (fun num2 num1 : ℕ => if num1 > num2 then num1 else num2) = (· ⊔ ·) := by
    funext a b
    rcases le_total a b with hab | hab
    · rw [sup_eq_right.mpr hab]
      split_ifs <;> omega
    · rw [sup_eq_left.mpr hab, if_neg hab.not_gt]
  rw [getMostPointNum, hmax, most, Multiset.sup]
  exact (Multiset.coe_fold_l _ _ _).symm

theorem isPTFlush_eq {cards : List Card} (hne : cards ≠ []) :
    ∃ flush, isPTFlush cards = some flush ∧ (flush = true ↔ Flush cards) := by
  obtain ⟨c, rest, rfl⟩ := List.exists_cons_of_ne_nil hne
  refine ⟨_, rfl, ?_⟩
  rw [List.all_eq_true]
  simp only [decide_eq_true_eq]
  constructor
  · intro h a ha b hb
    rw [← h a ha, ← h b hb]
  · exact fun h v hv => h c List.mem_cons_self v hv

/-- A sort of a sorted hand of the deck changes nothing. -/
theorem Arranged.sortCards_eq {cards : List Card} (h : Arranged cards) (s : KeySort Card) :
    sortCards s cards = cards := by
  refine (s.perm pointAndSuit cards).eq_of_pairwise (fun a b ha hb hab hba => ?_)
    (s.sorted pointAndSuit cards) h.sorted
  have ha := h.deck a ((s.mem_sort _ _ _).mp ha)
  exact pointAndSuit_inj ha.2 (h.deck b hb).2 (le_antisymm hba hab)

/-- Different points are in strictly falling order. -/
theorem Arranged.falling {cards : List Card} (h : Arranged cards)
    (hall : cards.length = distinct cards) : cards.Pairwise fun a b => b.point < a.point := by
  have hcard : distinct cards = (cards.map Card.point).length := by
    rw [← hall, List.length_map]
  have hnodup : (cards.map Card.point).Nodup :=
    Multiset.coe_nodup.mp (Multiset.toFinset_card_eq_card_iff_nodup.mp hcard)
  refine (h.points.and (List.pairwise_map.mp hnodup)).imp fun hab => ?_
  exact lt_of_le_of_ne hab.1 (Ne.symm hab.2)

/-- The test of the ends of five cards in falling order finds the straights, the ace high or
below the two. -/
theorem straight_iff {c1 c2 c3 c4 c5 : Card} (h : Arranged [c1, c2, c3, c4, c5])
    (hall : 5 = distinct ([c1, c2, c3, c4, c5] : List Card)) :
    Straight Card.point ([c1, c2, c3, c4, c5] : List Card) ∨
        Straight aceLow ([c1, c2, c3, c4, c5] : List Card) ↔
      if c1.point = 14 ∧ c5.point = 2 then c2.point - c5.point = 3
      else c1.point - c5.point = 4 := by
  have hfall := h.falling hall
  have hdeck := h.deck c5 (by simp)
  simp only [List.pairwise_cons, List.mem_cons, List.not_mem_nil, or_false, forall_eq_or_imp,
    forall_eq, IsEmpty.forall_iff, implies_true, List.Pairwise.nil, and_true] at hfall
  simp only [Straight, ← hall, Multiset.coe_card, List.length_cons, List.length_nil,
    Multiset.mem_coe, List.mem_cons, List.not_mem_nil, or_false, forall_eq_or_imp, forall_eq]
  constructor
  · rintro (⟨-, low, hlow⟩ | ⟨-, low, hlow⟩)
    · split <;> omega
    · unfold aceLow at hlow
      split <;> split_ifs at hlow <;> omega
  · intro hends
    split at hends
    · have h3 : c3.point = 4 := by omega
      refine .inr ⟨trivial, 1, ?_⟩
      unfold aceLow
      split_ifs <;> omega
    · exact .inl ⟨trivial, c5.point, by omega⟩

theorem isPTStraight_eq {cards : List Card} (h : Arranged cards) (s : KeySort Card)
    (hsize : cards.length = 5) :
    ∃ straight, isPTStraight s cards = some (straight, cards) ∧
      (straight = true ↔ Straight Card.point cards ∨ Straight aceLow cards) := by
  have hne : cards ≠ [] := by
    rintro rfl
    exact absurd hsize (by decide)
  have hdistinct := getDifferPointNum_eq h hne
  unfold isPTStraight
  rw [h.sortCards_eq s]
  dsimp only
  rw [hdistinct]
  by_cases hall : cards.length = distinct cards
  · match cards, hsize with
    | [c1, c2, c3, c4, c5], _ =>
      have hiff := straight_iff h hall
      by_cases hace : c1.point = 14 ∧ c5.point = 2
      · rw [if_pos hace] at hiff
        exact ⟨decide (c2.point - c5.point = 3), by simp [← hall, cardAt, hace], by simp [hiff]⟩
      · rw [if_neg hace] at hiff
        exact ⟨decide (c1.point - c5.point = 4), by simp [← hall, cardAt, hace], by simp [hiff]⟩
  · refine ⟨false, by simp [hall], ?_⟩
    simp only [Straight, Multiset.coe_card, Bool.false_eq_true, false_iff]
    rintro (⟨heq, -⟩ | ⟨heq, -⟩) <;> exact hall heq.symm

/-! ## The type of a hand -/

/-- The points other than the one with the most cards are on the other cards. -/
theorem distinct_add_most_le {hand : Multiset Card} (hne : hand ≠ 0) :
    1 ≤ distinct hand ∧ distinct hand + most hand ≤ Multiset.card hand + 1 := by
  have hle : ∀ c ∈ hand, 1 ≤ distinct hand ∧
      (hand.countP fun d => c.point = d.point) + distinct hand ≤ Multiset.card hand + 1 := by
    intro c hc
    have hmem : c.point ∈ (hand.map Card.point).toFinset :=
      Multiset.mem_toFinset.mpr (Multiset.mem_map_of_mem _ hc)
    have hothers : (hand.map Card.point).toFinset.erase c.point ⊆
        ((hand.filter fun d => ¬ c.point = d.point).map Card.point).toFinset := by
      intro p hp
      obtain ⟨hpc, hp⟩ := Finset.mem_erase.mp hp
      obtain ⟨d, hd, rfl⟩ := Multiset.mem_map.mp (Multiset.mem_toFinset.mp hp)
      exact Multiset.mem_toFinset.mpr
        (Multiset.mem_map_of_mem _ (Multiset.mem_filter.mpr ⟨hd, Ne.symm hpc⟩))
    have hcard := (Finset.card_le_card hothers).trans (Multiset.toFinset_card_le _)
    have hsplit := hand.card_eq_countP_add_countP fun d => c.point = d.point
    have herase := Finset.card_erase_add_one hmem
    rw [Multiset.card_map, ← Multiset.countP_eq_card_filter] at hcard
    unfold distinct
    omega
  obtain ⟨c, hc⟩ := Multiset.exists_mem_of_ne_zero hne
  refine ⟨(hle c hc).1, ?_⟩
  have hmost : most hand ≤ Multiset.card hand + 1 - distinct hand := by
    refine Multiset.sup_le.mpr fun k hk => ?_
    obtain ⟨d, hd, rfl⟩ := Multiset.mem_map.mp hk
    have := hle d hd
    omega
  have := (hle c hc).2
  omega

/-- A hand of the deck in sorted order. -/
theorem Hand.arranged {n : ℕ} (h : Hand n) (s : KeySort Card) : Arranged (sortCards s h.cards) := by
  refine ⟨fun c hc => ?_, s.sorted pointAndSuit h.cards⟩
  exact mem_initPoker c (h.deck.subset ((s.mem_sort _ _ _).mp hc))

theorem Hand.length_sort {n : ℕ} (h : Hand n) (s : KeySort Card) :
    (sortCards s h.cards).length = n := (s.length_sort _ _).trans h.size

theorem coe_sortCards (s : KeySort Card) (cards : List Card) :
    (sortCards s cards : Multiset Card) = cards := Multiset.coe_eq_coe.mpr (s.perm _ _)

/-- `GetFiveCardsType` gives a hand the type of the rules. -/
theorem getFiveCardsType_eq (h : Hand 5) (s : KeySort Card) :
    getFiveCardsType s h.cards = some (ruleFive h.cards, sortCards s h.cards) := by
  have harr := h.arranged s
  have hlen := h.length_sort s
  have hne : sortCards s h.cards ≠ [] := by
    rw [← List.length_pos_iff, hlen]
    decide
  obtain ⟨flush, hflush, hflush'⟩ := isPTFlush_eq hne
  obtain ⟨straight, hstraight, hstraight'⟩ := isPTStraight_eq harr s hlen
  have hdistinct := getDifferPointNum_eq harr hne
  have hmost := getMostPointNum_eq (sortCards s h.cards)
  rw [← coe_sortCards s h.cards]
  have hzero : (sortCards s h.cards : Multiset Card) ≠ 0 := by simpa using hne
  obtain ⟨hpos, hle⟩ := distinct_add_most_le hzero
  have hall : straight = true → distinct (sortCards s h.cards) = 5 := fun hs => by
    rcases hstraight'.mp hs with hs | hs <;> rw [hs.1, Multiset.coe_card, hlen]
  rw [Multiset.coe_card, hlen] at hle
  unfold getFiveCardsType ruleFive
  dsimp only
  rw [if_neg (not_not.mpr h.size), hdistinct, hmost, hflush, hstraight]
  simp only [← hflush', ← hstraight']
  generalize sortCards s h.cards = cards at *
  by_cases h1 : distinct cards = 1
  · simp [h1]
  by_cases h2 : distinct cards = 2
  · have hs : straight = false := by
      rw [← Bool.not_eq_true]
      intro hs
      have := hall hs
      omega
    by_cases hm : most cards = 4 <;> simp [h2, hs, hm]
  have hm : most cards ≠ 4 := by omega
  cases flush with
  | true => cases straight <;> simp [h1, h2, hm]
  | false =>
    cases straight with
    | true => simp [h1, h2, hm]
    | false =>
      by_cases h3 : distinct cards = 3
      · by_cases hm3 : most cards = 3 <;> simp [h3, hm, hm3]
      · have hm3 : most cards ≠ 3 := by omega
        by_cases h4 : distinct cards = 4
        · simp [h4, hm, hm3]
        · simp [h1, h2, h3, h4, hm, hm3]

/-- `GetThreeCardsType` gives a hand the type of the rules. -/
theorem getThreeCardsType_eq (h : Hand 3) (s : KeySort Card) :
    getThreeCardsType s h.cards = some (ruleThree h.cards, sortCards s h.cards) := by
  have hne : sortCards s h.cards ≠ [] := by
    rw [← List.length_pos_iff, h.length_sort s]
    decide
  have hdistinct := getDifferPointNum_eq (h.arranged s) hne
  unfold getThreeCardsType ruleThree
  dsimp only
  rw [hdistinct, coe_sortCards]
  rfl

/-! ## Arranging a hand -/

/-- An arrangement has the cards of the hand. -/
theorem arrangeFive_perm {cards : List Card} (hsize : cards.length = 5)
    (hdeck : ∀ c ∈ cards, c.point ≠ 0) (t : ℤ) :
    ∃ arranged, arrangeFive t cards = some arranged ∧ arranged.Perm cards := by
  match cards, hsize with
  | [c1, c2, c3, c4, c5], _ =>
    have hc1 : c1.point ≠ 0 := hdeck c1 List.mem_cons_self
    simp only [arrangeFive]
    split_ifs
    · by_cases h2 : c2.point = c1.point
      · refine ⟨[c2, c1, c3, c4, c5], by simp [pairAt, pairFirst, cardAt, hc1, h2], ?_⟩
        grind
      by_cases h3 : c3.point = c2.point
      · refine ⟨[c3, c2, c1, c4, c5], by simp [pairAt, pairFirst, cardAt, hc1, h2, h3], ?_⟩
        grind
      by_cases h4 : c4.point = c3.point
      · refine ⟨[c4, c3, c1, c2, c5], by simp [pairAt, pairFirst, cardAt, hc1, h2, h3, h4], ?_⟩
        grind
      by_cases h5 : c5.point = c4.point
      · refine ⟨[c5, c4, c1, c2, c3], by simp [pairAt, pairFirst, cardAt, hc1, h2, h3, h4, h5], ?_⟩
        grind
      · exact ⟨[c1, c2, c3, c4, c5], by simp [pairAt, hc1, h2, h3, h4, h5], List.Perm.refl _⟩
    all_goals
      refine ⟨_, rfl, ?_⟩
      grind

theorem arrangeThree_perm {cards : List Card} (hsize : cards.length = 3) (t : ℤ) :
    ∃ arranged, arrangeThree t cards = some arranged ∧ arranged.Perm cards := by
  match cards, hsize with
  | [c1, c2, c3], _ =>
    simp only [arrangeThree]
    split_ifs
    all_goals
      refine ⟨_, rfl, ?_⟩
      grind

/-! ## The order of the hands -/

/-- The type of a hand of three or five by the rules. -/
noncomputable def handType {n : ℕ} (h : Hand n) : ℤ :=
  if n = 3 then ruleThree h.cards else ruleFive h.cards

theorem handType_three (h : Hand 3) : handType h = ruleThree h.cards := if_pos rfl

theorem handType_five (h : Hand 5) : handType h = ruleFive h.cards := if_neg (by decide)

/-- The cards of a hand as the comparison looks at them. -/
noncomputable def arranged {n : ℕ} (s : KeySort Card) (h : Hand n) : List Card :=
  ((if n = 3 then arrangeThree (handType h) (sortCards s h.cards)
    else arrangeFive (handType h) (sortCards s h.cards))).getD []

theorem ruleThree_bounds (hand : Multiset Card) : PT_SINGLE ≤ ruleThree hand ∧
    ruleThree hand ≤ PT_THREE := by
  unfold ruleThree
  split_ifs <;> decide

theorem ruleFive_bounds (hand : Multiset Card) : PT_SINGLE ≤ ruleFive hand ∧
    ruleFive hand ≤ PT_FIVE := by
  unfold ruleFive
  split_ifs <;> decide

/-- A hand with its type is arranged, and no assertion fails. -/
theorem sortForCompareThree_eq (h : Hand 3) (s : KeySort Card) :
    sortForCompareThree s h.cards (handType h) = some (arranged s h) ∧
      (arranged s h).Perm h.cards := by
  obtain ⟨hlow, hhigh⟩ := ruleThree_bounds h.cards
  obtain ⟨l, hl, hperm⟩ := arrangeThree_perm (h.length_sort s) (ruleThree h.cards)
  have harranged : arranged s h = l := by
    rw [arranged, handType_three, if_pos rfl, hl, Option.getD_some]
  refine ⟨?_, harranged ▸ hperm.trans (s.perm _ _)⟩
  unfold sortForCompareThree
  rw [handType_three, if_neg (not_not.mpr h.size), if_neg (by omega)]
  simp [hlow, hhigh, hl, harranged]

theorem sortForCompareFive_eq (h : Hand 5) (s : KeySort Card) :
    sortForCompareFive s h.cards (handType h) = some (arranged s h) ∧
      (arranged s h).Perm h.cards := by
  obtain ⟨hlow, hhigh⟩ := ruleFive_bounds h.cards
  have hpoints : ∀ c ∈ sortCards s h.cards, c.point ≠ 0 := fun c hc => by
    have := (h.arranged s).deck c hc
    omega
  obtain ⟨l, hl, hperm⟩ := arrangeFive_perm (h.length_sort s) hpoints (ruleFive h.cards)
  have harranged : arranged s h = l := by
    rw [arranged, handType_five, if_neg (by decide), hl, Option.getD_some]
  refine ⟨?_, harranged ▸ hperm.trans (s.perm _ _)⟩
  unfold sortForCompareFive
  rw [handType_five, if_neg (not_not.mpr h.size), if_neg (by omega)]
  simp [hlow, hhigh, hl, harranged]

/-- 1, 0 or -1 as the first is larger, equal or smaller. -/
def sideOf {α : Type*} [LinearOrder α] (a b : α) : ℤ := if b < a then 1 else if a < b then -1 else 0

theorem compareLoop_eq : ∀ {cards1 cards2 : List Card}, cards1.length = cards2.length →
    compareLoop cards1 cards2 = sideOf (cards1.map Card.point) (cards2.map Card.point)
  | [], [], _ => rfl
  | c1 :: cards1, c2 :: cards2, hlen => by
    have hrest := compareLoop_eq (Nat.succ.inj hlen)
    rw [compareLoop, hrest]
    unfold sideOf
    simp only [List.map_cons, List.cons_lt_cons_iff]
    rcases lt_trichotomy c1.point c2.point with hlt | heq | hgt
    · simp only [hlt, hlt.not_gt, hlt.ne', if_true, if_false, false_and, or_self, true_or]
    · simp only [heq, gt_iff_lt, lt_self_iff_false, if_false, true_and, false_or]
      congr
    · simp only [hgt, gt_iff_lt, if_true, true_or]

section Side

variable {α : Type*} [LinearOrder α] {a b c : α}

theorem sideOf_swap (a b : α) : sideOf b a = -sideOf a b := by
  unfold sideOf
  rcases lt_trichotomy a b with hlt | rfl | hgt
  · rw [if_pos hlt, if_neg hlt.not_gt, if_pos hlt]
    rfl
  · rw [if_neg (lt_irrefl a), if_neg (lt_irrefl a)]
    rfl
  · rw [if_neg hgt.not_gt, if_pos hgt, if_pos hgt]

theorem sideOf_eq_one : sideOf a b = 1 ↔ b < a := by
  unfold sideOf
  split_ifs <;> simp_all

theorem sideOf_nonneg : 0 ≤ sideOf a b ↔ b ≤ a := by
  unfold sideOf
  split_ifs with hba hab
  · exact ⟨fun _ => hba.le, fun _ => zero_le_one⟩
  · exact ⟨fun h => absurd h (by decide), fun h => absurd hab h.not_gt⟩
  · exact ⟨fun _ => not_lt.mp hab, fun _ => le_rfl⟩

end Side

/-- What a hand is worth: its type, and then the points of the arranged cards. -/
noncomputable def handWorth {n : ℕ} (s : KeySort Card) (h : Hand n) : ℤ ×ₗ List ℤ :=
  toLex (handType h, (arranged s h).map Card.point)

/-- The result for two hands with their types. -/
noncomputable def outcome {n : ℕ} (s : KeySort Card) (a b : Hand n) : Option ℤ :=
  (compareCards s a.cards (handType a) b.cards (handType b)).map Prod.fst

/-- `CompareCards` compares what the hands are worth. -/
theorem outcome_eq {n : ℕ} (s : KeySort Card) (a b : Hand n) :
    outcome s a b = some (sideOf (handWorth s a) (handWorth s b)) := by
  have hcompare : (arranged s a).length = (arranged s b).length →
      (if handType a = handType b then compareLoop (arranged s a) (arranged s b)
        else if handType a > handType b then 1 else -1) =
        sideOf (handWorth s a) (handWorth s b) := fun hlen => by
    rw [compareLoop_eq hlen]
    unfold sideOf handWorth
    simp only [Prod.Lex.toLex_lt_toLex]
    rcases lt_trichotomy (handType a) (handType b) with hlt | heq | hgt
    · simp only [hlt, hlt.not_gt, hlt.ne, hlt.ne', if_true, if_false, false_and, or_self,
        true_or]
    · simp only [heq, lt_self_iff_false, if_true, true_and, false_or]
      congr
    · simp only [hgt, hgt.ne', if_true, if_false, true_or]
  unfold outcome compareCards
  rw [if_neg (not_not.mpr ⟨a.size.trans b.size.symm, a.size.symm ▸ a.three_or_five⟩)]
  rcases a.three_or_five with rfl | rfl
  · obtain ⟨ha, hpa⟩ := sortForCompareThree_eq a s
    obtain ⟨hb, hpb⟩ := sortForCompareThree_eq b s
    have hlen : (arranged s a).length = (arranged s b).length := by
      rw [hpa.length_eq, hpb.length_eq, a.size, b.size]
    rw [← hcompare hlen]
    simp [a.size, ha, hb]
  · obtain ⟨ha, hpa⟩ := sortForCompareFive_eq a s
    obtain ⟨hb, hpb⟩ := sortForCompareFive_eq b s
    have hlen : (arranged s a).length = (arranged s b).length := by
      rw [hpa.length_eq, hpb.length_eq, a.size, b.size]
    rw [← hcompare hlen]
    simp [a.size, ha, hb]

/-- The order of the cards in a hand does not matter. -/
theorem handWorth_perm {n : ℕ} (s : KeySort Card) {a a' : Hand n} (h : a.cards.Perm a'.cards) :
    handWorth s a = handWorth s a' := by
  have hinj : ∀ c ∈ a.cards, ∀ d ∈ a.cards, pointAndSuit c = pointAndSuit d → c = d :=
    fun c hc d hd hkey => pointAndSuit_inj (mem_initPoker c (a.deck.subset hc)).2
      (mem_initPoker d (a.deck.subset hd)).2 hkey
  have hsort : sortCards s a.cards = sortCards s a'.cards := s.sort_eq_of_perm h hinj
  have htype : handType a = handType a' := by
    rw [handType, handType, Multiset.coe_eq_coe.mpr h]
  rw [handWorth, handWorth, arranged, arranged, htype, hsort]

/-- **The order of the hands.** `GetFiveCardsType` and `GetThreeCardsType` give a hand the type
of the rules. With these types the comparison is antisymmetric and transitive, a hand of higher
type wins, and the order of the cards does not matter. -/
theorem compareCards_order {n : ℕ} (s : KeySort Card) :
    (∀ a : Hand n, (if n = 3 then getThreeCardsType s a.cards else getFiveCardsType s a.cards).map
        Prod.fst = some (handType a)) ∧
      (∀ a b : Hand n, ∃ result, outcome s a b = some result ∧ outcome s b a = some (-result)) ∧
      (∀ a b c : Hand n, ∀ ab bc, outcome s a b = some ab → outcome s b c = some bc →
        0 ≤ ab → 0 ≤ bc →
          ∃ ac, outcome s a c = some ac ∧ 0 ≤ ac ∧ (ab = 1 ∨ bc = 1 → ac = 1)) ∧
      (∀ a b : Hand n, handType b < handType a → outcome s a b = some 1) ∧
      ∀ a a' b b' : Hand n, a.cards.Perm a'.cards → b.cards.Perm b'.cards →
        outcome s a b = outcome s a' b' := by
  simp only [outcome_eq]
  refine ⟨fun a => ?_, fun a b => ⟨_, rfl, by rw [sideOf_swap]⟩, fun a b c ab bc hab hbc h0 h0' => ?_,
    fun a b htype => ?_, fun a a' b b' ha hb => ?_⟩
  · rcases a.three_or_five with rfl | rfl
    · rw [if_pos rfl, getThreeCardsType_eq, handType_three]
      rfl
    · rw [if_neg (by decide), getFiveCardsType_eq, handType_five]
      rfl
  · obtain rfl := Option.some.inj hab
    obtain rfl := Option.some.inj hbc
    rw [sideOf_nonneg] at h0 h0'
    refine ⟨_, rfl, sideOf_nonneg.mpr (h0'.trans h0), ?_⟩
    simp only [sideOf_eq_one]
    rintro (hlt | hlt)
    · exact lt_of_le_of_lt h0' hlt
    · exact lt_of_lt_of_le hlt h0
  · have hlt : handWorth s b < handWorth s a := Prod.Lex.toLex_lt_toLex.mpr (.inl htype)
    rw [sideOf_eq_one.mpr hlt]
  · rw [handWorth_perm s ha, handWorth_perm s hb]

end Poker

end DnServer.Bullfight
