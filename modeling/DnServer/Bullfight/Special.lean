import DnServer.Bullfight.Counts

/-!
# Special hands of thirteen cards

`GetSPType` of `poker.lua` tries fourteen recognisers on a hand of thirteen cards. Each
builds the hand anew, from the counts or by taking straights out of a copy. Whatever is
found has the shape that its type announces, and is arranged without losing a card.
-/

namespace DnServer.Bullfight

open DnServer.Lib

namespace types

abbrev PT_SP_NUNE : ℤ := 0
abbrev PT_SP_THREE_FLUSH : ℤ := 1
abbrev PT_SP_THREE_STRAIGHT : ℤ := 2
abbrev PT_SP_SIX_PAIRS : ℤ := 3
abbrev PT_SP_FIVE_PAIR_AND_THREE : ℤ := 4
abbrev PT_SP_FOUR_THREE_OF_A_KIND : ℤ := 5
abbrev PT_SP_SAME_SUIT : ℤ := 6
abbrev PT_SP_ALL_SMALL : ℤ := 7
abbrev PT_SP_ALL_BIG : ℤ := 8
abbrev PT_SP_THREE_FOUR_OF_A_KIND : ℤ := 9
abbrev PT_SP_THREE_STRAIGHT_FLUSH : ℤ := 10
abbrev PT_SP_ALL_KING : ℤ := 11
abbrev PT_SP_TWO_FIVE_AND_THREE : ℤ := 12
abbrev PT_SP_STRAIGHT : ℤ := 13
abbrev PT_SP_STRAIGHT_FLUSH : ℤ := 14

end types

namespace Poker

open types

/-! ## The recognisers

A recogniser that returns `false` leaves `retcards` alone: `none`. Otherwise its value is what
it leaves in `retcards`. Where a card may be missing, the outer `none` is the error. -/

/-- The loop of `IsSPAllBig`, `IsSPAllSmall` and `IsSPAllKing`, which return at the first card
that is `out`. -/
def isSPAll (out : Card → Bool) (cards retcards : List Card) : Option (List Card) :=
  if cards.any out then none else some (copyCards cards retcards)

def isSPAllBig : List Card → List Card → Option (List Card) := isSPAll fun v => v.point < 8

def isSPAllSmall : List Card → List Card → Option (List Card) := isSPAll fun v => v.point > 8

def isSPAllKing : List Card → List Card → Option (List Card) := isSPAll fun v => v.point < 11

def isSPStraightFlush (arraycards : ArrayCards) (retcards : List Card) : Option (List Card) := do
  let i ← suits.find? fun i => arraycards i 1 ≥ 13
  if points.all fun j => arraycards i j ≠ 0 then
    some (copyCards (points.map fun j => ⟨j, i⟩) retcards)
  else none

/-- The loop of `IsSPStraight`, which keeps the first card of each point; `none` is its
`return false`. -/
def straightLoop (c1 : List Card) : List Card → Option (List Card)
  | [] => some c1
  | v :: rest =>
    let last := c1.getLastD default
    if v.point ≠ last.point then
      if v.point = last.point - 1 then straightLoop (c1 ++ [v]) rest else none
    else straightLoop c1 rest

def isSPStraight (cards retcards : List Card) : Option (List Card) := do
  let c1 ← straightLoop (cards.take 1) cards
  if c1.length = 13 then some (copyCards c1 retcards) else none

/-- The recogniser adds to `retcards`. -/
def isSPThreeFlush (arraycards : ArrayCards) (retcards : List Card) : Option (List Card) :=
  if suits.any fun i => arraycards i 1 ∉ [3, 5, 8, 10, 0] then none
  else some (retcards ++ suits.flatMap (suitCards arraycards))

/-- The first card of each point, for `GetStraightOfFive`. -/
def firstOfPoints (first : Card) (cards : List Card) : List Card :=
  cards.foldl (fun c1 v => if v.point ≠ (c1.getLastD default).point then c1 ++ [v] else c1) [first]

/-- The cards sorted, and `ret` with the straights of five among them, one card of each point. -/
def getStraightOfFive (s : KeySort Card) (cards : List Card) (ret : List (List Card)) :
    Option (List Card × List (List Card)) := do
  let cards := sortCards s cards
  let first ← cardAt cards 1
  let c1 := firstOfPoints first cards
  let c1 := if first.point = 14 ∧ (c1.getLastD default).point = 2 then c1 ++ [first] else c1
  let ret ← (List.range (c1.length - 4)).foldlM (fun ret i => do
    let (straight, c2) ← isPTStraight s ((c1.drop i).take 5)
    return if straight then ret ++ [c2] else ret) ret
  return (cards, ret)

/-- The search of `IsSPThreeStraightFlush` in eight or ten cards of one suit: the first
straight of five that leaves a straight, and what it leaves. -/
def twoStraights (s : KeySort Card) (c1 : List Card) : Option (Option (List Card × List Card)) := do
  let c2 := copyCards c1 []
  let first ← cardAt c2 1
  let last ← cardAt c2 c2.length
  let c2 := if first.point = 2 ∧ last.point = 14 then last :: c2 else c2
  (List.range (c2.length - 4)).findSomeM? fun i => do
    let (straight, c3) ← isPTStraight s ((c2.drop i).take 5)
    if straight then
      let (straight, c4) ← isPTStraight s (disCards (copyCards c1 []) c3)
      return if straight then some (c3, c4) else none
    else return none

/-- One round of `IsSPThreeStraightFlush`, on `cards` and `cardsforthree`; the inner `none` is
its `return false`. -/
def straightFlushRound (s : KeySort Card) (arraycards : ArrayCards)
    (found : List Card × List Card) (i : ℤ) : Option (Option (List Card × List Card)) := do
  let (cards, cardsforthree) := found
  let num := arraycards i 1
  if num = 3 ∨ num = 5 ∨ num = 8 ∨ num = 10 ∨ num = 0 then
    let c1 := suitCards arraycards i
    if num = 3 ∨ num = 5 then
      let (straight, c1) ← isPTStraight s c1
      if straight then
        if num = 5 then return some (addCards cards c1, cardsforthree)
        else return some (cards, addCards cardsforthree c1)
      else return none
    else if num = 8 ∨ num = 10 then
      match ← twoStraights s c1 with
      | some (c3, c4) => return some (addCards (addCards cards c3) c4, cardsforthree)
      | none => return none
    else return some (cards, cardsforthree)
  else return none

/-- The loop of `IsSPThreeStraightFlush` over the suits. -/
def straightFlushLoop (s : KeySort Card) (arraycards : ArrayCards) :
    List Card × List Card → List ℤ → Option (Option (List Card × List Card))
  | found, [] => some (some found)
  | found, i :: rest => do
    match ← straightFlushRound s arraycards found i with
    | some found => straightFlushLoop s arraycards found rest
    | none => return none

def isSPThreeStraightFlush (s : KeySort Card) (arraycards : ArrayCards) (retcards : List Card) :
    Option (Option (List Card)) := do
  match ← straightFlushLoop s arraycards ([], []) suits with
  | some (cards, cardsforthree) => return some (copyCards (addCards cards cardsforthree) retcards)
  | none => return none

def isSPThreeStaight (s : KeySort Card) (cards retcards : List Card) :
    Option (Option (List Card)) := do
  let c1 := copyCards cards []
  let (c1, ret1) ← getStraightOfFive s c1 []
  ret1.findSomeM? fun v => do
    let c2 := disCards (copyCards c1 []) v
    let (c2, ret2) ← getStraightOfFive s c2 []
    ret2.findSomeM? fun j => do
      let c3 := disCards (copyCards c2 []) j
      let (straight, c3) ← isPTStraight s c3
      return if straight then some (addCards (addCards (copyCards v retcards) j) c3) else none

/-- The special type of a hand and `retcards`. -/
def getSPType (s : KeySort Card) (cards retcards : List Card) : Option (ℤ × List Card) := do
  let cards := sortCards s cards
  let arraycards ← adjustCards cards
  let devidecards := devideCards arraycards
  let pairnum := (devidecards 2).length + (devidecards 3).length + (devidecards 4).length * 2
  let threenum := (devidecards 3).length
  if let some retcards := isSPStraightFlush arraycards retcards then
    return (PT_SP_STRAIGHT_FLUSH, retcards)
  if let some retcards := isSPStraight cards retcards then
    return (PT_SP_STRAIGHT, retcards)
  if (devidecards 5).length = 2 ∧ (devidecards 3).length = 1 then
    return (PT_SP_TWO_FIVE_AND_THREE, copyCards cards retcards)
  if let some retcards := isSPAllKing cards retcards then
    return (PT_SP_ALL_KING, retcards)
  if let some retcards ← isSPThreeStraightFlush s arraycards retcards then
    return (PT_SP_THREE_STRAIGHT_FLUSH, retcards)
  if (devidecards 4).length = 3 then
    return (PT_SP_THREE_FOUR_OF_A_KIND, copyCards cards retcards)
  if let some retcards := isSPAllBig cards retcards then
    return (PT_SP_ALL_BIG, retcards)
  if let some retcards := isSPAllSmall cards retcards then
    return (PT_SP_ALL_SMALL, retcards)
  if (arraycards 1 1 = 0 ∧ arraycards 3 1 = 0) ∨ (arraycards 2 1 = 0 ∧ arraycards 4 1 = 0) then
    return (PT_SP_SAME_SUIT, copyCards cards retcards)
  if (devidecards 3).length = 4 then
    return (PT_SP_FOUR_THREE_OF_A_KIND, copyCards cards retcards)
  if (pairnum : ℤ) - threenum = 5 ∧ threenum = 1 then
    return (PT_SP_FIVE_PAIR_AND_THREE, copyCards cards retcards)
  if pairnum = 6 then
    return (PT_SP_SIX_PAIRS, copyCards cards retcards)
  if let some retcards ← isSPThreeStaight s cards retcards then
    return (PT_SP_THREE_STRAIGHT, retcards)
  if let some retcards := isSPThreeFlush arraycards retcards then
    return (PT_SP_THREE_FLUSH, retcards)
  return (PT_SP_NUNE, retcards)

/-! ## What the types announce -/

/-- Five, five and three of the cards, each a group with the property. -/
def InThree (P : Multiset Card → Prop) (hand : Multiset Card) : Prop :=
  ∃ third second first, hand = third + second + first ∧
    (Multiset.card third = 5 ∧ P third) ∧ (Multiset.card second = 5 ∧ P second) ∧
      Multiset.card first = 3 ∧ P first

/-- `n` cards of one point. -/
def Kind (n : ℕ) (group : Multiset Card) : Prop :=
  Multiset.card group = n ∧ ∃ p, ∀ c ∈ group, c.point = p

/-- `k` groups of `n` cards of one point, no two of them with a card in common. -/
def HasKinds (k n : ℕ) (hand : Multiset Card) : Prop :=
  ∃ groups : Multiset (Multiset Card), Multiset.card groups = k ∧ (∀ g ∈ groups, Kind n g) ∧
    groups.sum ≤ hand

/-- What a special type says of the hand. -/
inductive Announced (hand : Multiset Card) : ℤ → Prop
  | straight_flush : Multiset.card hand = 13 → Straight Card.point hand → Flush hand →
      Announced hand PT_SP_STRAIGHT_FLUSH
  | straight : Multiset.card hand = 13 → Straight Card.point hand → Announced hand PT_SP_STRAIGHT
  | two_five_and_three (fives three : Multiset Card) : hand = fives + three → HasKinds 2 5 fives →
      Kind 3 three → Announced hand PT_SP_TWO_FIVE_AND_THREE
  | all_king : (∀ c ∈ hand, 11 ≤ c.point) → Announced hand PT_SP_ALL_KING
  | three_straight_flush : InThree (fun g => AnyStraight g ∧ Flush g) hand →
      Announced hand PT_SP_THREE_STRAIGHT_FLUSH
  | three_four_of_a_kind : HasKinds 3 4 hand → Announced hand PT_SP_THREE_FOUR_OF_A_KIND
  | all_big : (∀ c ∈ hand, 8 ≤ c.point) → Announced hand PT_SP_ALL_BIG
  | all_small : (∀ c ∈ hand, c.point ≤ 8) → Announced hand PT_SP_ALL_SMALL
  | same_suit : (∀ c ∈ hand, c.suit = 2 ∨ c.suit = 4) ∨ (∀ c ∈ hand, c.suit = 1 ∨ c.suit = 3) →
      Announced hand PT_SP_SAME_SUIT
  | four_three_of_a_kind : HasKinds 4 3 hand → Announced hand PT_SP_FOUR_THREE_OF_A_KIND
  | five_pair_and_three (pairs three : Multiset Card) : hand = pairs + three →
      HasKinds 5 2 pairs → Kind 3 three → Announced hand PT_SP_FIVE_PAIR_AND_THREE
  | six_pairs : HasKinds 6 2 hand → Announced hand PT_SP_SIX_PAIRS
  | three_straight : InThree AnyStraight hand → Announced hand PT_SP_THREE_STRAIGHT
  | three_flush : InThree Flush hand → Announced hand PT_SP_THREE_FLUSH

/-! ## Hands of one kind -/

/-- Thirteen different cards of the deck of 52 and their counts. -/
structure Dealt (cards : List Card) (a : ArrayCards) : Prop extends Counted cards a where
  size : cards.length = 13

section Recognised

variable {cards : List Card} {a : ArrayCards} {retcards ret : List Card}

theorem isSPAll_spec {out : Card → Bool} (h : isSPAll out cards retcards = some ret) :
    ret = cards ∧ ∀ c ∈ cards, out c = false := by
  unfold isSPAll at h
  split_ifs at h with hany
  obtain rfl := Option.some.inj h
  refine ⟨rfl, fun c hc => ?_⟩
  rw [← Bool.not_eq_true]
  exact fun hout => hany (List.any_eq_true.mpr ⟨c, hc, hout⟩)

theorem Dealt.straightFlush (h : Dealt cards a) (hret : isSPStraightFlush a retcards = some ret) :
    ret.Perm cards ∧ Announced cards PT_SP_STRAIGHT_FLUSH := by
  unfold isSPStraightFlush at hret
  obtain ⟨i, hfind, hret⟩ := Option.bind_eq_some_iff.mp hret
  have hi := List.mem_of_find?_eq_some hfind
  split_ifs at hret with hall
  obtain rfl := Option.some.inj hret
  rw [List.all_eq_true] at hall
  have hinj : (points.map fun j => (⟨j, i⟩ : Card)).Nodup :=
    points_nodup.map fun k k' hk => congrArg Card.point hk
  have hsub : points.map (fun j => (⟨j, i⟩ : Card)) ⊆ cards := by
    intro c hc
    obtain ⟨j, hj, rfl⟩ := List.mem_map.mp hc
    exact h.mem hi hj (of_decide_eq_true (hall j hj))
  have hperm : (points.map fun j => (⟨j, i⟩ : Card)).Perm cards :=
    (hinj.subperm hsub).perm_of_length_le (by rw [h.size]; rfl)
  refine ⟨hperm, ?_⟩
  rw [← Multiset.coe_eq_coe.mpr hperm]
  have hpoints : (points.map fun j => (⟨j, i⟩ : Card)).map Card.point = points := by
    rw [List.map_map]
    exact List.map_id _
  refine .straight_flush rfl ⟨distinct_eq_length (hpoints ▸ points_nodup), 2, fun c hc => ?_⟩
    fun c hc d hd => ?_
  · obtain ⟨j, hj, rfl⟩ := List.mem_map.mp hc
    have := mem_points.mp hj
    simp only [Multiset.coe_card, List.length_map]
    exact ⟨this.1, by have : points.length = 13 := rfl; omega⟩
  · obtain ⟨j, -, rfl⟩ := List.mem_map.mp hc
    obtain ⟨k, -, rfl⟩ := List.mem_map.mp hd
    rfl

/-- The points fall by one from card to card. -/
def FallsByOne (p : ℤ) (c1 : List Card) : Prop :=
  c1.map Card.point = (List.range c1.length).map fun i : ℕ => p - i

theorem straightLoop_spec {p : ℤ} : ∀ {rest c1 : List Card}, c1 ≠ [] → FallsByOne p c1 →
    straightLoop c1 rest = some ret →
    FallsByOne p ret ∧ ∃ t, ret = c1 ++ t ∧ t.Sublist rest
  | [], c1, _, hfalls, h => by
    obtain rfl := Option.some.inj h
    exact ⟨hfalls, [], (List.append_nil c1).symm, List.Sublist.refl _⟩
  | v :: rest, c1, hne, hfalls, h => by
    unfold straightLoop at h
    simp only at h
    split_ifs at h with hpoint hnext
    · have hlast : (c1.getLastD default).point = p - (c1.length - 1 : ℤ) := by
        obtain ⟨c1, last, rfl⟩ := List.eq_nil_or_concat c1 |>.resolve_left hne
        have hmap := congrArg List.getLast? hfalls
        simp [List.range_succ] at hmap
        simp [hmap]
      have hfalls' : FallsByOne p (c1 ++ [v]) := by
        unfold FallsByOne at hfalls ⊢
        rw [List.map_append, hfalls, List.length_append, List.length_singleton, List.range_succ,
          List.map_append, List.map_singleton, List.map_singleton, hnext, hlast]
        congr 2
        ring
      obtain ⟨hret, t, rfl, ht⟩ := straightLoop_spec (by simp) hfalls' h
      exact ⟨hret, v :: t, by simp, ht.cons_cons v⟩
    · obtain ⟨hret, t, rfl, ht⟩ := straightLoop_spec hne hfalls h
      exact ⟨hret, t, rfl, ht.cons v⟩

/-- Cards that fall by one are a straight. -/
theorem FallsByOne.straight {p : ℤ} (h : FallsByOne p cards) : Straight Card.point cards := by
  have hnodup : (cards.map Card.point).Nodup := by
    rw [h]
    refine List.nodup_range.map fun i j hij => ?_
    omega
  refine ⟨?_, p - cards.length + 1, fun c hc => ?_⟩
  · exact distinct_eq_length hnodup
  · have hmem : c.point ∈ cards.map Card.point := List.mem_map_of_mem hc
    rw [h] at hmem
    obtain ⟨i, hi, hp⟩ := List.mem_map.mp hmem
    have := List.mem_range.mp hi
    rw [Multiset.coe_card]
    omega

theorem Dealt.straight (h : Dealt cards a) (hret : isSPStraight cards retcards = some ret) :
    ret.Perm cards ∧ Announced cards PT_SP_STRAIGHT := by
  unfold isSPStraight at hret
  obtain ⟨c1, hloop, hret⟩ := Option.bind_eq_some_iff.mp hret
  split_ifs at hret with hlen
  obtain rfl := Option.some.inj hret
  obtain ⟨first, rest, rfl⟩ : ∃ first rest, cards = first :: rest := by
    cases cards with
    | nil => exact absurd h.size (by decide)
    | cons first rest => exact ⟨first, rest, rfl⟩
  -- the first card is skipped, as it is there already
  have hskip : straightLoop [first] rest = some c1 := by
    rw [← hloop, List.take_one, List.head?_cons, Option.toList_some, straightLoop]
    simp
  obtain ⟨hfalls, t, rfl, ht⟩ := straightLoop_spec (p := first.point) (by simp)
    (by simp [FallsByOne]) hskip
  have heq : [first] ++ t = first :: rest :=
    (ht.cons_cons first).eq_of_length (by rw [h.size]; exact hlen)
  rw [← heq]
  exact ⟨List.Perm.refl _, .straight hlen hfalls.straight⟩

end Recognised

/-! ## Hands of groups of one point -/

theorem HasKinds.zero (n : ℕ) (hand : Multiset Card) : HasKinds 0 n hand :=
  ⟨0, rfl, fun g hg => absurd hg (Multiset.notMem_zero g), by simp⟩

theorem HasKinds.add {j k n : ℕ} {hand hand' : Multiset Card} (h : HasKinds j n hand)
    (h' : HasKinds k n hand') : HasKinds (j + k) n (hand + hand') := by
  obtain ⟨groups, hcard, hkind, hle⟩ := h
  obtain ⟨groups', hcard', hkind', hle'⟩ := h'
  refine ⟨groups + groups', by rw [Multiset.card_add, hcard, hcard'], fun g hg => ?_, ?_⟩
  · exact (Multiset.mem_add.mp hg).elim (hkind g) (hkind' g)
  · rw [Multiset.sum_add]
    exact add_le_add hle hle'

/-- Half the cards of one point are pairs. -/
theorem hasKinds_pairs {p : ℤ} : ∀ {l : List Card}, (∀ c ∈ l, c.point = p) →
    HasKinds (l.length / 2) 2 l
  | [], _ => HasKinds.zero 2 _
  | [c], _ => by
    have hhalf : [c].length / 2 = 0 := by simp
    rw [hhalf]
    exact HasKinds.zero 2 _
  | c :: d :: l, h => by
    have hpair : HasKinds 1 2 ({c, d} : Multiset Card) := by
      refine ⟨{{c, d}}, rfl, fun g hg => ?_, by rw [Multiset.sum_singleton]⟩
      rw [Multiset.mem_singleton.mp hg]
      exact ⟨rfl, p, fun e he => h e (by simp at he ⊢; tauto)⟩
    have htail : ∀ e ∈ l, e.point = p := fun e he =>
      h e (List.mem_cons_of_mem _ (List.mem_cons_of_mem _ he))
    have hrest := (hasKinds_pairs htail).add hpair
    have hcards : ((c :: d :: l : List Card) : Multiset Card) = l + {c, d} := by
      rw [add_comm]
      rfl
    rw [hcards, List.length_cons, List.length_cons, Nat.add_assoc, Nat.add_div_right _ (by decide)]
    exact hrest

section Groups

variable {cards : List Card} {a : ArrayCards}

/-- As many groups as there are points with `v` cards. -/
theorem Dealt.hasKinds (h : Dealt cards a) {v : ℕ} (hv : 1 ≤ v) :
    HasKinds (devideCards a v).length v cards := by
  rw [devideCards_eq a hv, List.length_map]
  refine ⟨((points.filter fun k => a 5 k = v).map (part Card.point cards) : List (Multiset Card)),
    by rw [Multiset.coe_card, List.length_map], fun g hg => ?_, ?_⟩
  · obtain ⟨k, hk, rfl⟩ := List.mem_map.mp hg
    obtain ⟨hk, hcount⟩ := List.mem_filter.mp hk
    exact ⟨(h.counts.card_point hk).trans (of_decide_eq_true hcount), k,
      fun c hc => (mem_part.mp hc).2⟩
  · rw [Multiset.sum_coe]
    exact sum_part_le Card.point cards (points_nodup.filter _)

/-- The pairs among the cards of some points. -/
theorem Dealt.hasPairs (h : Dealt cards a) : ∀ {ks : List ℤ}, (∀ k ∈ ks, k ∈ points) →
    HasKinds (ks.map fun k => a 5 k / 2).sum 2 (ks.map (part Card.point cards)).sum
  | [], _ => HasKinds.zero 2 _
  | k :: ks, hks => by
    rw [List.map_cons, List.map_cons, List.sum_cons, List.sum_cons]
    refine HasKinds.add ?_ (h.hasPairs fun k hk => hks k (List.mem_cons_of_mem _ hk))
    obtain ⟨l, hl⟩ := Quot.exists_rep (part Card.point (cards : Multiset Card) k)
    have hpoint : ∀ c ∈ l, c.point = k := fun c hc =>
      (mem_part.mp (show c ∈ part Card.point (cards : Multiset Card) k by rw [← hl]; exact hc)).2
    have hlen : l.length = a 5 k := by
      rw [← h.counts.card_point (hks k List.mem_cons_self), ← hl]
      rfl
    rw [← hlen, ← hl]
    exact hasKinds_pairs hpoint

/-- `pairnum` counts the pairs, two for four cards of a point. -/
theorem Dealt.pairnum_eq (h : Dealt cards a) :
    (devideCards a 2).length + (devideCards a 3).length + (devideCards a 4).length * 2 =
      (points.map fun k => a 5 k / 2).sum := by
  have hcount : ∀ {ks : List ℤ}, (∀ k ∈ ks, k ∈ points) →
      ks.countP (fun k => a 5 k = 2) + ks.countP (fun k => a 5 k = 3) +
        ks.countP (fun k => a 5 k = 4) * 2 = (ks.map fun k => a 5 k / 2).sum := by
    intro ks
    induction ks with
    | nil => exact fun _ => rfl
    | cons k ks ih =>
      intro hks
      have hle := h.le_four (hks k List.mem_cons_self)
      have hrest := ih fun k hk => hks k (List.mem_cons_of_mem _ hk)
      simp only [List.map_cons, List.sum_cons, List.countP_cons, decide_eq_true_eq]
      split_ifs <;> omega
  rw [devideCards_eq a (by decide), devideCards_eq a (by decide), devideCards_eq a (by decide),
    List.length_map, List.length_map, List.length_map, ← List.countP_eq_length_filter,
    ← List.countP_eq_length_filter, ← List.countP_eq_length_filter]
  exact hcount fun _ hk => hk

theorem Dealt.sum_points (h : Dealt cards a) :
    (points.map (part Card.point (cards : Multiset Card))).sum = cards :=
  sum_part_eq points_nodup fun c hc => mem_points.mpr (h.deck c hc).point

/-- There are not five cards of a point. -/
theorem Dealt.no_five (h : Dealt cards a) : (devideCards a 5).length ≠ 2 := by
  rw [devideCards_eq a (by decide), List.length_map]
  intro htwo
  obtain ⟨k, hk⟩ := List.exists_mem_of_length_pos (by rw [htwo]; decide :
    0 < (points.filter fun k => a 5 k = 5).length)
  obtain ⟨hk, hfive⟩ := List.mem_filter.mp hk
  have hfive : a 5 k = 5 := of_decide_eq_true hfive
  have := h.le_four hk
  omega

/-- No card of two of the suits, so all cards of the other two. -/
theorem Dealt.same_suit (h : Dealt cards a)
    (hnum : a 1 1 = 0 ∧ a 3 1 = 0 ∨ a 2 1 = 0 ∧ a 4 1 = 0) : Announced cards PT_SP_SAME_SUIT := by
  have hnone : ∀ {i : ℤ}, i ∈ suits → a i 1 = 0 → ∀ c ∈ (cards : Multiset Card), c.suit ≠ i := by
    intro i hi hzero c hc
    rw [h.counts.suit i hi, List.countP_eq_zero] at hzero
    simpa using hzero c hc
  have hsuits : ∀ c ∈ (cards : Multiset Card), 1 ≤ c.suit ∧ c.suit ≤ 4 := fun c hc =>
    (h.deck c hc).suit
  refine .same_suit (hnum.imp (fun hzero c hc => ?_) fun hzero c hc => ?_)
  · have := hnone (by decide) hzero.1 c hc
    have := hnone (by decide) hzero.2 c hc
    have := hsuits c hc
    omega
  · have := hnone (by decide) hzero.1 c hc
    have := hnone (by decide) hzero.2 c hc
    have := hsuits c hc
    omega

theorem Dealt.six_pairs (h : Dealt cards a)
    (hnum : (devideCards a 2).length + (devideCards a 3).length +
      (devideCards a 4).length * 2 = 6) :
    Announced cards PT_SP_SIX_PAIRS := by
  have hpairs := h.hasPairs fun _ hk => hk
  rw [← h.pairnum_eq, hnum, h.sum_points] at hpairs
  exact .six_pairs hpairs

/-- The only point with three cards is the triple, and the others make the pairs. -/
theorem Dealt.five_pair_and_three (h : Dealt cards a) (hthree : (devideCards a 3).length = 1)
    (hnum : (devideCards a 2).length + (devideCards a 3).length +
      (devideCards a 4).length * 2 = 6) :
    Announced cards PT_SP_FIVE_PAIR_AND_THREE := by
  rw [devideCards_eq a (by decide), List.length_map] at hthree
  obtain ⟨t, ht⟩ := List.length_eq_one_iff.mp hthree
  have hmem : t ∈ points.filter fun k => a 5 k = 3 := by
    rw [ht]
    exact List.mem_singleton_self t
  obtain ⟨htpoints, htcount⟩ := List.mem_filter.mp hmem
  have htcount : a 5 t = 3 := of_decide_eq_true htcount
  have hperm := List.filter_append_perm (fun k => decide (a 5 k = 3)) points
  rw [ht] at hperm
  set others := points.filter fun k => !decide (a 5 k = 3)
  have hpairs : HasKinds (others.map fun k => a 5 k / 2).sum 2
      (others.map (part Card.point cards)).sum := h.hasPairs fun k hk => (List.mem_filter.mp hk).1
  have hfive : (others.map fun k => a 5 k / 2).sum = 5 := by
    have hsum := (hperm.map fun k => a 5 k / 2).sum_eq
    rw [← h.pairnum_eq, hnum, List.map_append, List.sum_append, List.map_singleton,
      List.sum_singleton, htcount] at hsum
    omega
  have hhand : (cards : Multiset Card) = (others.map (part Card.point cards)).sum +
      part Card.point cards t := by
    have hsum := (hperm.map (part Card.point (cards : Multiset Card))).sum_eq
    rw [h.sum_points, List.map_append, List.sum_append, List.map_singleton,
      List.sum_singleton] at hsum
    rw [add_comm]
    exact hsum.symm
  rw [hfive] at hpairs
  refine .five_pair_and_three _ _ hhand hpairs
    ⟨(h.counts.card_point htpoints).trans htcount, t, fun c hc => (mem_part.mp hc).2⟩

end Groups

/-! ## Hands in three -/

/-- The cards fall into groups of five and of three, each with the property. -/
def InGroups (P : Multiset Card → Prop) (hand : Multiset Card) : Prop :=
  ∃ groups : Multiset (Multiset Card),
    (∀ g ∈ groups, (Multiset.card g = 5 ∨ Multiset.card g = 3) ∧ P g) ∧ groups.sum = hand

section InGroups

variable {P : Multiset Card → Prop} {hand hand' : Multiset Card}

theorem InGroups.zero (P : Multiset Card → Prop) : InGroups P 0 :=
  ⟨0, fun g hg => absurd hg (Multiset.notMem_zero g), rfl⟩

theorem InGroups.single (h : Multiset.card hand = 5 ∨ Multiset.card hand = 3) (hP : P hand) :
    InGroups P hand := by
  refine ⟨{hand}, fun g hg => ?_, Multiset.sum_singleton hand⟩
  rw [Multiset.mem_singleton.mp hg]
  exact ⟨h, hP⟩

theorem InGroups.add (h : InGroups P hand) (h' : InGroups P hand') : InGroups P (hand + hand') := by
  obtain ⟨groups, hgroups, rfl⟩ := h
  obtain ⟨groups', hgroups', rfl⟩ := h'
  refine ⟨groups + groups', fun g hg => ?_, Multiset.sum_add groups groups'⟩
  exact (Multiset.mem_add.mp hg).elim (hgroups g) (hgroups' g)

theorem InGroups.sum {ι : Type} {f : ι → Multiset Card} {ks : List ι}
    (h : ∀ k ∈ ks, InGroups P (f k)) : InGroups P (ks.map f).sum := by
  induction ks with
  | nil => exact InGroups.zero P
  | cons k ks ih =>
    rw [List.map_cons, List.sum_cons]
    exact (h k List.mem_cons_self).add (ih fun k hk => h k (List.mem_cons_of_mem _ hk))

/-- Thirteen cards in fives and threes are two fives and a three. -/
theorem InGroups.inThree (h : InGroups P hand) (hcard : Multiset.card hand = 13) :
    InThree P hand := by
  obtain ⟨groups, hgroups, rfl⟩ := h
  have hsplit := Multiset.filter_add_not (fun g : Multiset Card => Multiset.card g = 5) groups
  set fives := groups.filter fun g : Multiset Card => Multiset.card g = 5
  set threes := groups.filter fun g : Multiset Card => ¬ Multiset.card g = 5
  have hfives : ∀ g ∈ fives, Multiset.card g = 5 ∧ P g := fun g hg => by
    obtain ⟨hg, hsize⟩ := Multiset.mem_filter.mp hg
    exact ⟨hsize, (hgroups g hg).2⟩
  have hthrees : ∀ g ∈ threes, Multiset.card g = 3 ∧ P g := fun g hg => by
    obtain ⟨hg, hsize⟩ := Multiset.mem_filter.mp hg
    exact ⟨(hgroups g hg).1.resolve_left hsize, (hgroups g hg).2⟩
  have htotal : Multiset.card fives * 5 + Multiset.card threes * 3 = 13 := by
    rw [← card_sum_of_card fun g hg => (hfives g hg).1,
      ← card_sum_of_card fun g hg => (hthrees g hg).1, ← Multiset.card_add, ← Multiset.sum_add,
      hsplit, hcard]
  obtain ⟨third, second, htwo⟩ := Multiset.card_eq_two.mp (show Multiset.card fives = 2 by omega)
  obtain ⟨first, hone⟩ := Multiset.card_eq_one.mp (show Multiset.card threes = 1 by omega)
  have hthird := hfives third (by rw [htwo]; simp)
  have hsecond := hfives second (by rw [htwo]; simp)
  have hfirst := hthrees first (by rw [hone]; simp)
  refine ⟨third, second, first, ?_, hthird, hsecond, hfirst⟩
  rw [← hsplit, htwo, hone, Multiset.sum_add, Multiset.sum_pair, Multiset.sum_singleton]

end InGroups

section ThreeFlush

variable {cards : List Card} {a : ArrayCards} {retcards ret : List Card}

/-- The cards of the suits, one suit after the other. -/
theorem Dealt.coe_suitCards (h : Dealt cards a) :
    (suits.flatMap (suitCards a) : Multiset Card) = cards := by
  rw [coe_flatMap, ← sum_suits h.deck]
  exact congrArg List.sum (List.map_congr_left fun i hi => h.counts.suitCards_eq h.deck hi)

theorem flush_part (m : Multiset Card) (i : ℤ) : Flush (part Card.suit m i) :=
  fun _ hc _ hd => (mem_part.mp hc).2.trans (mem_part.mp hd).2.symm

/-- Eight or ten cards of a suit are split after the fifth. -/
theorem inGroups_flush {m : Multiset Card} (hflush : Flush m)
    (hcard : Multiset.card m ∈ [3, 5, 8, 10, 0]) : InGroups Flush m := by
  obtain ⟨l, rfl⟩ := Quot.exists_rep m
  have hlen : l.length ∈ [3, 5, 8, 10, 0] := hcard
  simp only [List.mem_cons, List.not_mem_nil, or_false] at hlen
  by_cases hsmall : l.length ≤ 5
  · by_cases hnil : l.length = 0
    · rw [List.length_eq_zero_iff.mp hnil]
      exact InGroups.zero Flush
    · exact InGroups.single (by have : l.length = 5 ∨ l.length = 3 := by omega
                                exact this) hflush
  · have hsplit : (Quot.mk _ l : Multiset Card) =
        ((l.take 5 : List Card) : Multiset Card) + ((l.drop 5 : List Card) : Multiset Card) := by
      rw [Multiset.coe_add, List.take_append_drop]
      rfl
    rw [hsplit]
    refine InGroups.add (InGroups.single (.inl ?_) ?_) (InGroups.single ?_ ?_)
    · rw [Multiset.coe_card, List.length_take]
      omega
    · exact fun c hc d hd => hflush c (List.mem_of_mem_take hc) d (List.mem_of_mem_take hd)
    · rw [Multiset.coe_card, List.length_drop]
      omega
    · exact fun c hc d hd => hflush c (List.mem_of_mem_drop hc) d (List.mem_of_mem_drop hd)

theorem Dealt.threeFlush (h : Dealt cards a) (hret : isSPThreeFlush a [] = some ret) :
    ret.Perm cards ∧ Announced cards PT_SP_THREE_FLUSH := by
  unfold isSPThreeFlush at hret
  split_ifs at hret with hany
  obtain rfl := Option.some.inj hret
  have hnum : ∀ i ∈ suits, a i 1 ∈ [3, 5, 8, 10, 0] := by
    intro i hi
    by_contra hnot
    exact hany (List.any_eq_true.mpr ⟨i, hi, decide_eq_true hnot⟩)
  have hgroups : InGroups Flush cards := by
    rw [← sum_suits h.deck]
    refine InGroups.sum fun i hi => inGroups_flush (flush_part _ i) ?_
    rw [h.counts.card_suit hi]
    exact hnum i hi
  exact ⟨Multiset.coe_eq_coe.mp h.coe_suitCards, .three_flush (hgroups.inThree h.size)⟩

end ThreeFlush

/-! ## Taking straights out -/

section Straights

variable {cards : List Card} (s : KeySort Card)

/-- Five cards in a row of a list. -/
theorem window_spec {l : List Card} {i : ℕ} (hi : i ∈ List.range (l.length - 4)) :
    ((l.drop i).take 5).length = 5 ∧ (l.drop i).take 5 ⊆ l := by
  have hlt := List.mem_range.mp hi
  refine ⟨?_, fun c hc => List.mem_of_mem_drop (List.mem_of_mem_take hc)⟩
  rw [List.length_take, List.length_drop]
  omega

/-- A straight among cards of the hand is taken out of it. -/
theorem straight_taken {l : List Card} (hsub : l ⊆ cards) (h : AnyStraight l) :
    AnyStraight (sortCards s l : List Card) ∧
      ((sortCards s l : List Card) : Multiset Card) + (disCards cards (sortCards s l) : List Card) =
        cards := by
  rw [coe_sortCards]
  refine ⟨h, ?_⟩
  rw [← coe_sortCards s l]
  exact disCards_add ((s.perm _ l).subperm.trans (h.nodup.subperm hsub))

/-- What is left of a hand. -/
theorem disCards_rest {poker l : List Card}
    (h : (l : Multiset Card) + (disCards poker l : List Card) = cards) :
    l.length + (disCards poker l).length = cards.length ∧ disCards poker l ⊆ cards := by
  refine ⟨?_, fun c hc => ?_⟩
  · have hcard := congrArg Multiset.card h
    rwa [Multiset.card_add, Multiset.coe_card, Multiset.coe_card, Multiset.coe_card] at hcard
  · have hmem : c ∈ (l : Multiset Card) + (disCards poker l : List Card) :=
      Multiset.mem_add.mpr (.inr hc)
    rwa [h] at hmem

/-- Two straights that make up the cards. -/
structure TwoStraights (cards third second : List Card) : Prop where
  size : third.length = 5
  all : (third : Multiset Card) + second = cards
  third : AnyStraight third
  second : AnyStraight second

theorem twoStraights_spec (hsize : 6 ≤ cards.length) (hd : ∀ c ∈ cards, c.InDeck) :
    Returns (twoStraights s cards) fun r => ∀ p ∈ r, TwoStraights cards p.1 p.2 := by
  obtain ⟨first, hfirst⟩ : ∃ first, cardAt cards 1 = some first :=
    ⟨_, List.getElem?_eq_getElem (show 0 < cards.length by omega)⟩
  obtain ⟨last, hlast⟩ : ∃ last, cardAt cards cards.length = some last := by
    obtain ⟨n, hn⟩ : ∃ n, cards.length = n + 1 := ⟨cards.length - 1, by omega⟩
    rw [hn]
    exact ⟨_, List.getElem?_eq_getElem (show n < cards.length by omega)⟩
  have hlastmem : last ∈ cards := by
    obtain ⟨n, hn⟩ : ∃ n, cards.length = n + 1 := ⟨cards.length - 1, by omega⟩
    rw [hn] at hlast
    exact List.mem_of_getElem? hlast
  unfold twoStraights
  simp only [copyCards, hfirst, hlast, Option.bind_eq_bind, Option.bind_some]
  generalize hc2 : (if first.point = 2 ∧ last.point = 14 then last :: cards else cards) = c2
  have hsub : c2 ⊆ cards := by
    rw [← hc2]
    split
    · exact List.cons_subset.mpr ⟨hlastmem, List.Subset.refl _⟩
    · exact List.Subset.refl _
  refine Returns.findSomeM? fun i hi => ?_
  obtain ⟨hfive, hwindow⟩ := window_spec hi
  have hwindow : (c2.drop i).take 5 ⊆ cards := fun c hc => hsub (hwindow hc)
  have hne : (c2.drop i).take 5 ≠ [] := by
    rw [← List.length_pos_iff, hfive]
    decide
  refine (isPTStraight_spec s hne fun c hc => hd c (hwindow hc)).bind ?_
  rintro ⟨straight, c3⟩ ⟨rfl, hstraight⟩
  cases straight with
  | false => exact Returns.none
  | true =>
    obtain ⟨hthird, hall⟩ := straight_taken s hwindow (hstraight rfl)
    obtain ⟨hlen, hrest⟩ := disCards_rest hall
    have hthree : (sortCards s ((c2.drop i).take 5)).length = 5 := (s.length_sort _ _).trans hfive
    have hleft : disCards cards (sortCards s ((c2.drop i).take 5)) ≠ [] := by
      rw [← List.length_pos_iff]
      omega
    refine (isPTStraight_spec s hleft fun c hc => hd c (hrest hc)).bind ?_
    rintro ⟨straight', c4⟩ ⟨rfl, hstraight'⟩
    cases straight' with
    | false => exact Returns.none
    | true =>
      refine Returns.found ⟨hthree, ?_, hthird, ?_⟩
      · rw [coe_sortCards s (disCards _ _)]
        exact hall
      · rw [coe_sortCards]
        exact hstraight' rfl

/-- A straight of one suit. -/
def StraightFlush (group : Multiset Card) : Prop := AnyStraight group ∧ Flush group

theorem Flush.mono {m m' : Multiset Card} (h : Flush m') (hle : m ≤ m') : Flush m :=
  fun c hc d hd => h c (Multiset.mem_of_le hle hc) d (Multiset.mem_of_le hle hd)

variable {a : ArrayCards}

/-- A round adds the cards of its suit, in groups that are straights. -/
theorem Dealt.straightFlushRound (h : Dealt cards a) {i : ℤ} (hi : i ∈ suits)
    (found : List Card × List Card) :
    Returns (Poker.straightFlushRound s a found i) fun r => ∀ found' ∈ r,
      InGroups StraightFlush (part Card.suit cards i) ∧
        (found'.1 : Multiset Card) + found'.2 = found.1 + found.2 + part Card.suit cards i := by
  obtain ⟨cards', cardsforthree⟩ := found
  have hsuit := h.counts.suitCards_eq h.deck hi
  have hlen := h.length_suitCards hi
  have hdeck : ∀ c ∈ suitCards a i, c.InDeck := fun c hc =>
    h.deck c ((h.suitCards_subperm hi).subset hc)
  have hflush : Flush (suitCards a i : Multiset Card) := hsuit ▸ flush_part cards i
  rw [← hsuit]
  unfold Poker.straightFlushRound
  simp only
  by_cases hnum : a i 1 = 3 ∨ a i 1 = 5 ∨ a i 1 = 8 ∨ a i 1 = 10 ∨ a i 1 = 0
  · rw [if_pos hnum]
    by_cases hone : a i 1 = 3 ∨ a i 1 = 5
    · -- the suit is one straight
      rw [if_pos hone]
      have hne : suitCards a i ≠ [] := by
        rw [← List.length_pos_iff]
        omega
      refine (isPTStraight_spec s hne hdeck).bind ?_
      rintro ⟨straight, c1⟩ ⟨rfl, hstraight⟩
      cases straight with
      | false => exact Returns.none
      | true =>
        have hgroup : InGroups StraightFlush (suitCards a i : Multiset Card) :=
          InGroups.single (by rw [Multiset.coe_card]; omega) ⟨hstraight rfl, hflush⟩
        have hsort := coe_sortCards s (suitCards a i)
        rw [if_pos rfl]
        split
        · refine Returns.found ⟨hgroup, ?_⟩
          rw [addCards, ← Multiset.coe_add, hsort]
          exact add_right_comm _ _ _
        · refine Returns.found ⟨hgroup, ?_⟩
          rw [addCards, ← Multiset.coe_add, hsort]
          exact (add_assoc _ _ _).symm
    · rw [if_neg hone]
      by_cases htwo : a i 1 = 8 ∨ a i 1 = 10
      · -- the suit is two straights
        rw [if_pos htwo]
        refine (twoStraights_spec s (by omega) hdeck).bind fun r hr => ?_
        cases r with
        | none => exact Returns.none
        | some p =>
          obtain ⟨c3, c4⟩ := p
          have hp := hr (c3, c4) rfl
          have hall : (c3 : Multiset Card) + c4 = suitCards a i := hp.all
          have hthird : c3.length = 5 := hp.size
          have hcard := congrArg Multiset.card hall
          rw [Multiset.card_add, Multiset.coe_card, Multiset.coe_card, Multiset.coe_card] at hcard
          have hc3 : InGroups StraightFlush (c3 : Multiset Card) :=
            InGroups.single (.inl hthird) ⟨hp.third, hflush.mono (hall ▸ Multiset.le_add_right _ _)⟩
          have hc4 : InGroups StraightFlush (c4 : Multiset Card) :=
            InGroups.single (by rw [Multiset.coe_card]; omega)
              ⟨hp.second, hflush.mono (hall ▸ Multiset.le_add_left _ _)⟩
          have hgroup : InGroups StraightFlush (suitCards a i : Multiset Card) := hall ▸ hc3.add hc4
          refine Returns.found ⟨hgroup, ?_⟩
          rw [addCards, addCards, ← Multiset.coe_add, ← Multiset.coe_add, ← hall]
          simp only
          abel
      · -- there is no card of the suit
        rw [if_neg htwo]
        have hnil : suitCards a i = [] := List.length_eq_zero_iff.mp (by omega)
        rw [hnil]
        exact Returns.found ⟨InGroups.zero _, (add_zero _).symm⟩
  · rw [if_neg hnum]
    exact Returns.none

/-- The rounds add the cards of the suits. -/
theorem Dealt.straightFlushLoop (h : Dealt cards a) : ∀ {is : List ℤ}, (∀ i ∈ is, i ∈ suits) →
    ∀ found : List Card × List Card,
    Returns (Poker.straightFlushLoop s a found is) fun r => ∀ found' ∈ r,
      (∀ i ∈ is, InGroups StraightFlush (part Card.suit cards i)) ∧
        (found'.1 : Multiset Card) + found'.2 =
          found.1 + found.2 + (is.map (part Card.suit (cards : Multiset Card))).sum
  | [], _, found => Returns.found ⟨fun i hi => absurd hi List.not_mem_nil, (add_zero _).symm⟩
  | i :: is, his, found => by
    rw [Poker.straightFlushLoop]
    refine (h.straightFlushRound s (his i List.mem_cons_self) found).bind fun r hr => ?_
    cases r with
    | none => exact Returns.none
    | some found₁ =>
      obtain ⟨hgroup, hsum⟩ := hr found₁ rfl
      refine (h.straightFlushLoop (fun j hj => his j (List.mem_cons_of_mem _ hj)) found₁).mono ?_
      intro r' hr' found' hfound'
      obtain ⟨hgroups, hsum'⟩ := hr' found' hfound'
      refine ⟨fun j hj => ?_, ?_⟩
      · rcases List.mem_cons.mp hj with rfl | hj
        · exact hgroup
        · exact hgroups j hj
      · rw [hsum', hsum, List.map_cons, List.sum_cons, add_assoc]

theorem Dealt.threeStraightFlush (h : Dealt cards a) (retcards : List Card) :
    Returns (isSPThreeStraightFlush s a retcards) fun r => ∀ ret ∈ r,
      ret.Perm cards ∧ Announced cards PT_SP_THREE_STRAIGHT_FLUSH := by
  unfold isSPThreeStraightFlush
  refine (h.straightFlushLoop s (fun _ hi => hi) ([], [])).bind fun r hr => ?_
  cases r with
  | none => exact Returns.none
  | some found =>
    obtain ⟨hgroups, hsum⟩ := hr found rfl
    rw [sum_suits h.deck] at hsum
    have hall : (found.1 : Multiset Card) + found.2 = cards := hsum.trans (zero_add _)
    have hhand : InGroups StraightFlush cards := by
      rw [← sum_suits h.deck]
      exact InGroups.sum hgroups
    exact Returns.found ⟨Multiset.coe_eq_coe.mp hall, .three_straight_flush (hhand.inThree h.size)⟩

/-- A straight of five cards of the hand. -/
structure FiveOf (cards v : List Card) : Prop where
  size : v.length = 5
  sub : v ⊆ cards
  straight : AnyStraight v

theorem firstOfPoints_subset (first : Card) (cards : List Card) :
    firstOfPoints first cards ⊆ first :: cards ∧ firstOfPoints first cards ≠ [] := by
  have hloop : ∀ (rest c1 : List Card), c1 ⊆ first :: cards → c1 ≠ [] → rest ⊆ cards →
      rest.foldl (fun c1 v => if v.point ≠ (c1.getLastD default).point then c1 ++ [v] else c1) c1 ⊆
          first :: cards ∧
        rest.foldl (fun c1 v => if v.point ≠ (c1.getLastD default).point then c1 ++ [v] else c1)
          c1 ≠ [] := by
    intro rest
    induction rest with
    | nil => exact fun c1 hsub hne _ => ⟨hsub, hne⟩
    | cons v rest ih =>
      intro c1 hsub hne hrest
      obtain ⟨hv, hrest⟩ := List.cons_subset.mp hrest
      rw [List.foldl_cons]
      refine ih _ ?_ ?_ hrest
      · split
        · refine List.append_subset.mpr ⟨hsub, fun c hc => ?_⟩
          rw [List.mem_singleton.mp hc]
          exact List.mem_cons_of_mem _ hv
        · exact hsub
      · split
        · simp
        · exact hne
  exact hloop cards [first] (List.cons_subset.mpr ⟨List.mem_cons_self, List.nil_subset _⟩) (by simp)
    (List.Subset.refl _)

theorem getStraightOfFive_spec (hne : cards ≠ []) (hd : ∀ c ∈ cards, c.InDeck) :
    Returns (getStraightOfFive s cards []) fun r =>
      r.1 = sortCards s cards ∧ ∀ v ∈ r.2, FiveOf cards v := by
  have hsorted : sortCards s cards ≠ [] := by
    rw [← List.length_pos_iff, sortCards, s.length_sort]
    exact List.length_pos_iff.mpr hne
  obtain ⟨first, rest, hcons⟩ := List.exists_cons_of_ne_nil hsorted
  have hfirst : cardAt (sortCards s cards) 1 = some first := by
    rw [hcons]
    rfl
  have hmem : first ∈ sortCards s cards := hcons ▸ List.mem_cons_self
  have hsub : firstOfPoints first (sortCards s cards) ⊆ cards := fun c hc => by
    rcases List.mem_cons.mp ((firstOfPoints_subset first _).1 hc) with rfl | hc
    · exact (s.mem_sort _ _ _).mp hmem
    · exact (s.mem_sort _ _ _).mp hc
  unfold getStraightOfFive
  simp only [hfirst, Option.bind_eq_bind, Option.bind_some]
  generalize hc1 : (if first.point = 14 ∧ ((firstOfPoints first (sortCards s cards)).getLastD
    default).point = 2 then firstOfPoints first (sortCards s cards) ++ [first]
    else firstOfPoints first (sortCards s cards)) = c1
  have hsub : c1 ⊆ cards := by
    rw [← hc1]
    split
    · refine List.append_subset.mpr ⟨hsub, List.cons_subset.mpr ⟨?_, List.nil_subset _⟩⟩
      exact (s.mem_sort _ _ _).mp hmem
    · exact hsub
  have hloop : Returns ((List.range (c1.length - 4)).foldlM (fun ret i => do
      let (straight, c2) ← isPTStraight s ((c1.drop i).take 5)
      return if straight then ret ++ [c2] else ret) []) fun ret => ∀ v ∈ ret, FiveOf cards v := by
    refine Returns.foldlM (I := fun ret => ∀ v ∈ ret, FiveOf cards v) (fun i hi ret hret => ?_)
      fun v hv => absurd hv List.not_mem_nil
    obtain ⟨hfive, hwindow⟩ := window_spec hi
    have hwindow : (c1.drop i).take 5 ⊆ cards := fun c hc => hsub (hwindow hc)
    have hne : (c1.drop i).take 5 ≠ [] := by
      rw [← List.length_pos_iff, hfive]
      decide
    refine (isPTStraight_spec s hne fun c hc => hd c (hwindow hc)).bind ?_
    rintro ⟨straight, c2⟩ ⟨rfl, hstraight⟩
    refine Returns.pure ?_
    cases straight with
    | false => exact hret
    | true =>
      intro v hv
      rcases List.mem_append.mp hv with hv | hv
      · exact hret v hv
      · obtain rfl := List.mem_singleton.mp hv
        refine ⟨(s.length_sort _ _).trans hfive, fun c hc => ?_, (straight_taken s hwindow
          (hstraight rfl)).1⟩
        exact hwindow ((s.mem_sort _ _ _).mp hc)
  exact hloop.bind fun ret hret => Returns.pure ⟨rfl, hret⟩

/-- A straight taken out of the sorted hand. -/
theorem FiveOf.taken {v : List Card} (h : FiveOf cards v) :
    (v : Multiset Card) + (disCards (sortCards s cards) v : List Card) = cards := by
  rw [← coe_sortCards s cards]
  refine disCards_add (h.straight.nodup.subperm fun c hc => ?_)
  exact (s.mem_sort _ _ _).mpr (h.sub hc)

theorem isSPThreeStaight_spec (hsize : cards.length = 13) (hd : ∀ c ∈ cards, c.InDeck)
    (retcards : List Card) :
    Returns (isSPThreeStaight s cards retcards) fun r => ∀ ret ∈ r,
      ret.Perm cards ∧ Announced cards PT_SP_THREE_STRAIGHT := by
  have hne : cards ≠ [] := by
    rw [← List.length_pos_iff]
    omega
  unfold isSPThreeStaight
  simp only [copyCards]
  refine (getStraightOfFive_spec s hne hd).bind ?_
  rintro ⟨c1, ret1⟩ ⟨rfl, hret1⟩
  refine Returns.findSomeM? fun v hv => ?_
  have hthird := hret1 v hv
  have hall := hthird.taken s
  obtain ⟨hlen, hrest⟩ := disCards_rest hall
  rw [hthird.size] at hlen
  generalize disCards (sortCards s cards) v = c2 at *
  have hne2 : c2 ≠ [] := by
    rw [← List.length_pos_iff]
    omega
  refine (getStraightOfFive_spec s hne2 fun c hc => hd c (hrest hc)).bind ?_
  rintro ⟨c2', ret2⟩ ⟨rfl, hret2⟩
  refine Returns.findSomeM? fun j hj => ?_
  have hsecond := hret2 j hj
  have hall2 := hsecond.taken s
  obtain ⟨hlen2, hrest2⟩ := disCards_rest hall2
  rw [hsecond.size] at hlen2
  generalize disCards (sortCards s c2) j = c3 at *
  have hne3 : c3 ≠ [] := by
    rw [← List.length_pos_iff]
    omega
  refine (isPTStraight_spec s hne3 fun c hc => hd c (hrest (hrest2 hc))).bind ?_
  rintro ⟨straight, c3'⟩ ⟨rfl, hstraight⟩
  cases straight with
  | false => exact Returns.none
  | true =>
    have hparts : (cards : Multiset Card) = v + j + c3 := by rw [← hall, ← hall2, add_assoc]
    refine Returns.found ⟨?_, ?_⟩
    · refine Multiset.coe_eq_coe.mp ?_
      rw [addCards, addCards, ← Multiset.coe_add, ← Multiset.coe_add, coe_sortCards, ← hparts]
    · rw [hparts]
      refine .three_straight ⟨v, j, c3, rfl, ⟨hthird.size, hthird.straight⟩,
        ⟨hsecond.size, hsecond.straight⟩, ?_, hstraight rfl⟩
      rw [Multiset.coe_card]
      omega

end Straights

/-! ## The special type -/

/-- What the search promises of the type found and the cards arranged. -/
def Right (hand : List Card) (r : ℤ × List Card) : Prop :=
  r.1 ≠ PT_SP_NUNE → r.2.Perm hand ∧ Announced hand r.1

/-- On cards of the deck of 52 the search does not fail, and what it finds is right. -/
theorem getSPType_spec (s : KeySort Card) {hand : List Card} (hsize : hand.length = 13)
    (hnodup : hand.Nodup) (hd : ∀ c ∈ hand, c.InDeck) :
    Returns (getSPType s hand []) (Right hand) := by
  have hperm : (sortCards s hand).Perm hand := s.perm _ hand
  have hcoe := coe_sortCards s hand
  have hd' : ∀ c ∈ sortCards s hand, c.InDeck := fun c hc => hd c (hperm.mem_iff.mp hc)
  obtain ⟨a, ha, hcounts⟩ := adjustCards_counts hd'
  have h : Dealt (sortCards s hand) a :=
    ⟨⟨hperm.nodup_iff.mpr hnodup, hd', hcounts⟩, hperm.length_eq.trans hsize⟩
  have hright : ∀ {r : ℤ × List Card}, r.2.Perm (sortCards s hand) ∧
      Announced (sortCards s hand) r.1 → Returns (some r) (Right hand) := fun hr => by
    rw [hcoe] at hr
    exact Returns.some fun _ => ⟨hr.1.trans hperm, hr.2⟩
  unfold getSPType
  simp only [ha, Option.bind_eq_bind, Option.bind_some, Option.pure_def, copyCards]
  generalize sortCards s hand = cards at *
  split
  · exact hright (h.straightFlush ‹_›)
  split
  · exact hright (h.straight ‹_›)
  split
  · exact absurd ‹_ ∧ _›.1 h.no_five
  split
  · obtain ⟨hret, hall⟩ := isSPAll_spec ‹_›
    exact hright ⟨hret ▸ List.Perm.refl _, .all_king fun c hc => by simpa using hall c hc⟩
  refine (h.threeStraightFlush s []).bind fun r hr => ?_
  split
  · exact hright (hr _ rfl)
  split
  · have hkinds := h.hasKinds (v := 4) (by decide)
    rw [‹(devideCards a 4).length = 3›] at hkinds
    exact hright ⟨List.Perm.refl _, .three_four_of_a_kind hkinds⟩
  split
  · obtain ⟨hret, hall⟩ := isSPAll_spec ‹_›
    exact hright ⟨hret ▸ List.Perm.refl _, .all_big fun c hc => by simpa using hall c hc⟩
  split
  · obtain ⟨hret, hall⟩ := isSPAll_spec ‹_›
    exact hright ⟨hret ▸ List.Perm.refl _, .all_small fun c hc => by simpa using hall c hc⟩
  split
  · exact hright ⟨List.Perm.refl _, h.same_suit ‹_›⟩
  split
  · have hkinds := h.hasKinds (v := 3) (by decide)
    rw [‹(devideCards a 3).length = 4›] at hkinds
    exact hright ⟨List.Perm.refl _, .four_three_of_a_kind hkinds⟩
  split
  · obtain ⟨-, hthree⟩ := ‹_ ∧ _›
    exact hright ⟨List.Perm.refl _, h.five_pair_and_three hthree (by omega)⟩
  split
  · exact hright ⟨List.Perm.refl _, h.six_pairs ‹_›⟩
  refine (isSPThreeStaight_spec s h.size h.deck []).bind fun r hr => ?_
  split
  · exact hright (hr _ rfl)
  split
  · exact hright (h.threeFlush ‹_›)
  · exact Returns.some fun hne => absurd rfl hne

/-- **The special hands.** Whatever type is found for thirteen different cards, they have the
shape it announces, and `retcards` is left with the same cards. With no joker among them the
search does not fail. -/
theorem specialType_announced (s : KeySort Card) (hand : ThirteenCards) :
    (∀ t ret, getSPType s hand.cards [] = some (t, ret) → t ≠ PT_SP_NUNE →
      ret.Perm hand.cards ∧ Announced hand.cards t) ∧
    ((∀ c ∈ hand.cards, c.point ≤ 14) → (getSPType s hand.cards []).isSome) := by
  have hspec := fun hpoint => getSPType_spec s hand.size hand.nodup (hand.inDeck hpoint)
  constructor
  · intro t ret hret
    -- a hand with a joker is not even counted
    obtain ⟨a, ha, -⟩ := Option.bind_eq_some_iff.mp hret
    refine (hspec fun c hc => ?_).of_eq_some hret
    exact adjustCards_some ha c ((s.perm _ _).mem_iff.mpr hc)
  · intro hpoint
    obtain ⟨r, hr, -⟩ := hspec hpoint
    rw [hr]
    rfl

end Poker

end DnServer.Bullfight
