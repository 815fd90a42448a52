import DnServer.Lib.Keyed
import DnServer.Lib.Returns
import DnServer.Bullfight.Bull
import DnServer.Bullfight.Thirteen

/-!
# The counts of a hand

From `poker.lua`: `AdjustCards` counts a hand by suit and point, and `DevideCards` sorts its
points by how many cards they have. What is built from the counts is built from cards of the
hand. Also the straights among any number of cards.
-/

namespace DnServer.Bullfight

open DnServer.Lib

namespace Poker

/-! ## Counting -/

/-- `arraycards`: how many cards there are of suit `i` and point `j`, of suit `i` in column 1
and of point `j` in row 5. -/
abbrev ArrayCards := ℤ → ℤ → ℕ

def ArrayCards.inc (a : ArrayCards) (i j : ℤ) : ArrayCards :=
  fun i' j' => if i' = i ∧ j' = j then a i' j' + 1 else a i' j'

/-- One round of `AdjustCards`; `none` is the arithmetic on a number that is not there. -/
def adjustCard (a : ArrayCards) (v : Card) : Option ArrayCards :=
  if 1 ≤ v.suit ∧ v.suit ≤ 5 ∧ 1 ≤ v.point ∧ v.point ≤ 14 then
    some (((a.inc v.suit v.point).inc v.suit 1).inc 5 v.point)
  else none

def adjustCards (cards : List Card) : Option ArrayCards := cards.foldlM adjustCard fun _ _ => 0

/-- `for k = 2, 14`. -/
def points : List ℤ := [2, 3, 4, 5, 6, 7, 8, 9, 10, 11, 12, 13, 14]

/-- `for i = 1, 4`. -/
def suits : List ℤ := [1, 2, 3, 4]

/-- The cards of point `k`, suit by suit. -/
def pointCards (a : ArrayCards) (k : ℤ) : List Card :=
  suits.flatMap fun i => List.replicate (a i k) ⟨k, i⟩

/-- The cards of suit `i`, point by point. -/
def suitCards (a : ArrayCards) (i : ℤ) : List Card :=
  points.flatMap fun k => List.replicate (a i k) ⟨k, i⟩

/-- Entry `v` has the cards of each point of which there are `v`; an empty entry is `nil`. -/
abbrev Devided := ℕ → List (List Card)

def devideCards (a : ArrayCards) : Devided :=
  points.foldl (fun retcards k =>
    if a 5 k ≥ 1 then Function.update retcards (a 5 k) (retcards (a 5 k) ++ [pointCards a k])
    else retcards) fun _ => []

def disCards (poker cards : List Card) : List Card := cards.foldl disCard poker

def addCards (poker cards : List Card) : List Card := poker ++ cards

/-! ## What is counted -/

theorem mem_points {k : ℤ} : k ∈ points ↔ 2 ≤ k ∧ k ≤ 14 := by
  unfold points
  simp only [List.mem_cons, List.not_mem_nil, or_false]
  omega

theorem mem_suits {i : ℤ} : i ∈ suits ↔ 1 ≤ i ∧ i ≤ 4 := by
  unfold suits
  simp only [List.mem_cons, List.not_mem_nil, or_false]
  omega

theorem points_nodup : points.Nodup := by decide

theorem suits_nodup : suits.Nodup := by decide

/-- The numbers are those of the hand. -/
structure Counts (cards : List Card) (a : ArrayCards) : Prop where
  cell : ∀ i ∈ suits, ∀ k ∈ points, a i k = cards.count ⟨k, i⟩
  suit : ∀ i ∈ suits, a i 1 = cards.countP fun c => c.suit = i
  point : ∀ k ∈ points, a 5 k = cards.countP fun c => c.point = k

theorem inc_apply (a : ArrayCards) (i j i' j' : ℤ) :
    a.inc i j i' j' = a i' j' + if i' = i ∧ j' = j then 1 else 0 := by
  unfold ArrayCards.inc
  split <;> rfl

/-- A card adds one to three numbers. -/
theorem Counts.concat {cards : List Card} {a : ArrayCards} (h : Counts cards a) {v : Card}
    (hv : v.InDeck) : ∃ a', adjustCard a v = some a' ∧ Counts (cards ++ [v]) a' := by
  have hp := hv.point
  have hs := hv.suit
  refine ⟨_, if_pos ⟨by omega, by omega, by omega, by omega⟩, ?_, ?_, ?_⟩
  · intro i hi k hk
    have hi' := mem_suits.mp hi
    have hk' := mem_points.mp hk
    have hcard : (v = ⟨k, i⟩) ↔ i = v.suit ∧ k = v.point := by
      obtain ⟨p, u⟩ := v
      simp only [Card.mk.injEq]
      exact ⟨fun h => ⟨h.2.symm, h.1.symm⟩, fun h => ⟨h.2.symm, h.1.symm⟩⟩
    rw [inc_apply, inc_apply, inc_apply, h.cell i hi k hk, List.count_append, List.count_singleton,
      if_neg (show ¬ (i = v.suit ∧ k = 1) by omega), if_neg (show ¬ (i = 5 ∧ k = v.point) by omega)]
    simp only [beq_iff_eq, hcard, add_zero]
  · intro i hi
    have hi' := mem_suits.mp hi
    rw [inc_apply, inc_apply, inc_apply, h.suit i hi, List.countP_append, List.countP_singleton,
      if_neg (show ¬ (i = v.suit ∧ (1 : ℤ) = v.point) by omega),
      if_neg (show ¬ (i = 5 ∧ (1 : ℤ) = v.point) by omega)]
    simp only [decide_eq_true_eq, and_true, add_zero, eq_comm (a := v.suit)]
  · intro k hk
    rw [inc_apply, inc_apply, inc_apply, h.point k hk, List.countP_append, List.countP_singleton,
      if_neg (show ¬ ((5 : ℤ) = v.suit ∧ k = v.point) by omega),
      if_neg (show ¬ ((5 : ℤ) = v.suit ∧ k = 1) by omega)]
    simp only [decide_eq_true_eq, true_and, add_zero, eq_comm (a := v.point)]

/-- A hand of the deck is counted. -/
theorem adjustCards_counts {cards : List Card} (h : ∀ c ∈ cards, c.InDeck) :
    ∃ a, adjustCards cards = some a ∧ Counts cards a := by
  induction cards using List.reverseRecOn with
  | nil => exact ⟨_, rfl, fun _ _ _ _ => rfl, fun _ _ => rfl, fun _ _ => rfl⟩
  | append_singleton cards v ih =>
    obtain ⟨a, ha, hcounts⟩ := ih fun c hc => h c (List.mem_append_left _ hc)
    obtain ⟨a', ha', hcounts'⟩ := hcounts.concat (h v (by simp))
    refine ⟨a', ?_, hcounts'⟩
    rw [adjustCards, List.foldlM_append, ← adjustCards, ha]
    simp [ha']

/-- What is counted has a suit and a point in the table. -/
theorem adjustCards_some {cards : List Card} : ∀ {a : ArrayCards}, adjustCards cards = some a →
    ∀ c ∈ cards, c.point ≤ 14 := by
  induction cards using List.reverseRecOn with
  | nil => exact fun _ c hc => absurd hc List.not_mem_nil
  | append_singleton cards v ih =>
    intro a ha c hc
    rw [adjustCards, List.foldlM_append, ← adjustCards] at ha
    obtain ⟨b, hb, hv⟩ := Option.bind_eq_some_iff.mp ha
    rcases List.mem_append.mp hc with hc | hc
    · exact ih hb c hc
    · obtain rfl := List.mem_singleton.mp hc
      by_contra hlt
      have hnone : adjustCard b c = none := if_neg fun h => hlt h.2.2.2
      rw [List.foldlM_cons, hnone] at hv
      cases hv

/-- Thirteen different cards, the jokers among them or not. -/
structure ThirteenCards where
  cards : List Card
  size : cards.length = 13
  deck : cards.Subperm (initPoker [])

namespace ThirteenCards

theorem nodup (h : ThirteenCards) : h.cards.Nodup := by
  obtain ⟨l, hl, hsub⟩ := h.deck
  exact hl.nodup_iff.mp ((by decide : (initPoker []).Nodup).sublist hsub)

theorem inDeck (h : ThirteenCards) (hpoint : ∀ c ∈ h.cards, c.point ≤ 14) :
    ∀ c ∈ h.cards, c.InDeck := by
  have hall : ∀ c ∈ initPoker [], c.point ≤ 14 →
      (2 ≤ c.point ∧ c.point ≤ 14) ∧ 1 ≤ c.suit ∧ c.suit ≤ 4 := by decide
  intro c hc
  obtain ⟨hp, hs⟩ := hall c (h.deck.subset hc) (hpoint c hc)
  exact ⟨hp, hs⟩

end ThirteenCards

section Taken

variable {cards : List Card} {a : ArrayCards}

/-- The cards taken of one suit are those of the hand. -/
theorem Counts.suitCards_eq (h : Counts cards a) (hd : ∀ c ∈ cards, c.InDeck) {i : ℤ}
    (hi : i ∈ suits) : (suitCards a i : Multiset Card) = part Card.suit cards i := by
  have hinj : (points.map fun k => (⟨k, i⟩ : Card)).Nodup :=
    points_nodup.map fun k k' hk => congrArg Card.point hk
  have htaken : suitCards a i =
      points.flatMap fun k => List.replicate (cards.count ⟨k, i⟩) (⟨k, i⟩ : Card) :=
    List.flatMap_congr fun k hk => by rw [h.cell i hi k hk]
  rw [htaken, coe_flatMap_replicate cards hinj, part]
  refine Multiset.filter_congr fun c hc => ?_
  have hp := (hd c hc).point
  rw [List.mem_map]
  constructor
  · rintro ⟨k, -, rfl⟩
    rfl
  · rintro rfl
    exact ⟨c.point, mem_points.mpr hp, rfl⟩

/-- The cards taken of one point are those of the hand. -/
theorem Counts.pointCards_eq (h : Counts cards a) (hd : ∀ c ∈ cards, c.InDeck) {k : ℤ}
    (hk : k ∈ points) : (pointCards a k : Multiset Card) = part Card.point cards k := by
  have hinj : (suits.map fun i => (⟨k, i⟩ : Card)).Nodup :=
    suits_nodup.map fun i i' hi => congrArg Card.suit hi
  have htaken : pointCards a k =
      suits.flatMap fun i => List.replicate (cards.count ⟨k, i⟩) (⟨k, i⟩ : Card) :=
    List.flatMap_congr fun i hi => by rw [h.cell i hi k hk]
  rw [htaken, coe_flatMap_replicate cards hinj, part]
  refine Multiset.filter_congr fun c hc => ?_
  have hs := (hd c hc).suit
  rw [List.mem_map]
  constructor
  · rintro ⟨i, -, rfl⟩
    rfl
  · rintro rfl
    exact ⟨c.suit, mem_suits.mpr hs, rfl⟩

/-- The number of cards of a point. -/
theorem Counts.card_point (h : Counts cards a) {k : ℤ} (hk : k ∈ points) :
    Multiset.card (part Card.point cards k) = a 5 k := by
  rw [card_part, h.point k hk, Multiset.coe_countP]

theorem Counts.card_suit (h : Counts cards a) {i : ℤ} (hi : i ∈ suits) :
    Multiset.card (part Card.suit cards i) = a i 1 := by
  rw [card_part, h.suit i hi, Multiset.coe_countP]

/-- The suits make up the hand, and so do the points. -/
theorem sum_suits (hd : ∀ c ∈ cards, c.InDeck) :
    (suits.map (part Card.suit (cards : Multiset Card))).sum = cards :=
  sum_part_eq suits_nodup fun c hc => mem_suits.mpr (hd c hc).suit

end Taken

/-- Different cards of the deck of 52 and their counts. -/
structure Counted (cards : List Card) (a : ArrayCards) : Prop where
  nodup : cards.Nodup
  deck : ∀ c ∈ cards, c.InDeck
  counts : Counts cards a

section Counted

variable {cards : List Card} {a : ArrayCards}

/-- A card that is counted is in the hand. -/
theorem Counted.mem (h : Counted cards a) {c : Card} (hs : c.suit ∈ suits) (hp : c.point ∈ points)
    (hcell : a c.suit c.point ≠ 0) : c ∈ cards := by
  rw [h.counts.cell _ hs _ hp] at hcell
  exact List.count_pos_iff.mp (Nat.pos_of_ne_zero hcell)

theorem Counted.le_four (h : Counted cards a) {k : ℤ} (hk : k ∈ points) : a 5 k ≤ 4 := by
  rw [h.counts.point k hk]
  exact countP_point_le h.deck h.nodup k

theorem Counted.length_pointCards (h : Counted cards a) {k : ℤ} (hk : k ∈ points) :
    (pointCards a k).length = a 5 k := by
  rw [← h.counts.card_point hk, ← h.counts.pointCards_eq h.deck hk, Multiset.coe_card]

theorem Counted.length_suitCards (h : Counted cards a) {i : ℤ} (hi : i ∈ suits) :
    (suitCards a i).length = a i 1 := by
  rw [← h.counts.card_suit hi, ← h.counts.suitCards_eq h.deck hi, Multiset.coe_card]

/-- The cards of a suit are cards of the hand. -/
theorem Counted.suitCards_subperm (h : Counted cards a) {i : ℤ} (hi : i ∈ suits) :
    (suitCards a i).Subperm cards := by
  refine Multiset.coe_le.mp ?_
  rw [h.counts.suitCards_eq h.deck hi]
  exact Multiset.filter_le _ _

end Counted

/-- The points with `v` cards, in order. -/
theorem devideCards_eq (a : ArrayCards) {v : ℕ} (hv : 1 ≤ v) :
    devideCards a v = (points.filter fun k => a 5 k = v).map (pointCards a) := by
  have hloop : ∀ (ks : List ℤ) (retcards : Devided), ks.foldl (fun retcards k =>
      if a 5 k ≥ 1 then Function.update retcards (a 5 k) (retcards (a 5 k) ++ [pointCards a k])
      else retcards) retcards v =
        retcards v ++ (ks.filter fun k => a 5 k = v).map (pointCards a) := by
    intro ks
    induction ks with
    | nil => simp
    | cons k ks ih =>
      intro retcards
      rw [List.foldl_cons, ih, List.filter_cons]
      by_cases hk : a 5 k = v
      · rw [if_pos (by omega), hk, Function.update_self, if_pos (by simp), List.map_cons,
          List.append_assoc, List.singleton_append]
      · rw [if_neg (show ¬ decide (a 5 k = v) = true by simpa using hk)]
        split
        · rw [Function.update_of_ne (Ne.symm hk)]
        · rfl
  exact hloop points fun _ => []

theorem disCards_eq (poker cards : List Card) : disCards poker cards = poker.diff cards := by
  induction cards generalizing poker with
  | nil => rfl
  | cons c cards ih =>
    rw [List.diff_cons, ← ih]
    rfl

/-- Discarding cards of the hand leaves the others. -/
theorem disCards_add {poker cards : List Card} (h : cards.Subperm poker) :
    (cards : Multiset Card) + (disCards poker cards : List Card) = poker := by
  rw [disCards_eq, ← Multiset.coe_sub]
  exact add_tsub_cancel_of_le (Multiset.coe_le.mpr h)

/-! ## Straights -/

/-- A straight with the ace high or below the two. -/
def AnyStraight (hand : Multiset Card) : Prop := Straight Card.point hand ∨ Straight aceLow hand

theorem distinct_eq_length {cards : List Card} (h : (cards.map Card.point).Nodup) :
    distinct cards = Multiset.card (cards : Multiset Card) := by
  rw [distinct, Multiset.map_coe, Multiset.toFinset_card_of_nodup (Multiset.coe_nodup.mpr h),
    Multiset.coe_card, Multiset.coe_card, List.length_map]

theorem AnyStraight.nodup {cards : List Card} (h : AnyStraight cards) : cards.Nodup := by
  have hall : distinct cards = Multiset.card (cards : Multiset Card) := h.elim And.left And.left
  have hcard : distinct cards = (cards.map Card.point).length := by
    rw [hall, Multiset.coe_card, List.length_map]
  have hpoints : (cards.map Card.point).Nodup :=
    Multiset.coe_nodup.mp (Multiset.toFinset_card_eq_card_iff_nodup.mp hcard)
  exact hpoints.of_map _

/-- Cards of the deck in sorted order. -/
theorem arranged_sort (s : KeySort Card) {cards : List Card} (hd : ∀ c ∈ cards, c.InDeck) :
    Arranged (sortCards s cards) := by
  refine ⟨fun c hc => ?_, s.sorted pointAndSuit cards⟩
  have hc := hd c ((s.mem_sort _ _ _).mp hc)
  have := hc.point
  have := hc.suit
  omega

/-- The ends of a sorted hand bound its points. -/
theorem Arranged.ends {first last : Card} {cards : List Card} (h : Arranged cards)
    (hfirst : cardAt cards 1 = some first) (hlast : cardAt cards cards.length = some last) :
    ∀ c ∈ cards, last.point ≤ c.point ∧ c.point ≤ first.point := by
  intro c hc
  obtain ⟨i, hi, rfl⟩ := List.getElem_of_mem hc
  obtain ⟨n, hn⟩ : ∃ n, cards.length = n + 1 := ⟨cards.length - 1, by omega⟩
  rw [hn] at hlast
  obtain ⟨h0, hfirst⟩ := List.getElem?_eq_some_iff.mp hfirst
  obtain ⟨hn', hlast⟩ := List.getElem?_eq_some_iff.mp hlast
  have hmono : ∀ {j k : ℕ} (hj : j < cards.length) (hk : k < cards.length), j ≤ k →
      cards[k].point ≤ cards[j].point := by
    intro j k hj hk hjk
    rcases Nat.lt_or_eq_of_le hjk with hlt | rfl
    · exact List.pairwise_iff_getElem.mp h.points j k hj hk hlt
    · exact le_rfl
  rw [← hfirst, ← hlast]
  exact ⟨hmono hi hn' (by omega), hmono h0 hi (Nat.zero_le i)⟩

/-- What `IsPTStraight` accepts is a straight; on cards of the deck it does not fail. -/
theorem isPTStraight_spec (s : KeySort Card) {cards : List Card} (hne : cards ≠ [])
    (hd : ∀ c ∈ cards, c.InDeck) : Returns (isPTStraight s cards) fun r =>
      r.2 = sortCards s cards ∧ (r.1 = true → AnyStraight cards) := by
  have harr := arranged_sort s hd
  rw [← coe_sortCards s cards]
  have hne' : sortCards s cards ≠ [] := by
    rw [← List.length_pos_iff, sortCards, s.length_sort]
    exact List.length_pos_iff.mpr hne
  unfold isPTStraight
  generalize sortCards s cards = sorted at *
  dsimp only
  rw [getDifferPointNum_eq harr hne']
  by_cases hall : sorted.length = distinct sorted
  · obtain ⟨first, rest, rfl⟩ := List.exists_cons_of_ne_nil hne'
    have hfirst : cardAt (first :: rest) 1 = some first := rfl
    obtain ⟨last, hlast⟩ : ∃ last, cardAt (first :: rest) (first :: rest).length = some last :=
      ⟨(first :: rest)[rest.length], List.getElem?_eq_getElem _⟩
    have hends := harr.ends hfirst hlast
    have hcard : Multiset.card ((first :: rest : List Card) : Multiset Card) =
      rest.length + 1 := rfl
    by_cases hace : first.point = 14 ∧ last.point = 2
    · -- the ace is below the two, and the second card is the largest of the others
      obtain ⟨second, rest', rfl⟩ : ∃ second rest', rest = second :: rest' := by
        cases rest with
        | nil =>
          obtain rfl : first = last := Option.some.inj hlast
          omega
        | cons second rest' => exact ⟨second, rest', rfl⟩
      refine ⟨(decide (second.point - last.point = ((first :: second :: rest').length : ℤ) - 2), _),
        ?_, rfl, ?_⟩
      · have hsecond : cardAt (first :: second :: rest') 2 = some second := rfl
        simp only [Option.pure_def, Option.bind_eq_bind, Option.bind_some, ← hall, ne_eq,
          not_true_eq_false, if_false, hfirst, hlast, if_pos hace, hsecond]
      · intro hstraight
        have hlow := of_decide_eq_true hstraight
        refine .inr ⟨hall.symm, 1, fun c hc => ?_⟩
        have hc' := hends c hc
        have hsecond : c ≠ first → c.point ≤ second.point := fun hne => by
          rcases List.mem_cons.mp hc with rfl | hc
          · exact absurd rfl hne
          rcases List.mem_cons.mp hc with rfl | hc
          · exact le_rfl
          · exact (List.pairwise_cons.mp harr.tail.points).1 c hc
        rw [hcard]
        simp only [List.length_cons] at hlow ⊢
        unfold aceLow
        by_cases hcf : c = first
        · rw [hcf, if_pos hace.1]
          omega
        · have := hsecond hcf
          split <;> omega
    · refine ⟨(decide (first.point - last.point = ((first :: rest).length : ℤ) - 1), _),
        ?_, rfl, ?_⟩
      · simp only [Option.pure_def, Option.bind_eq_bind, Option.bind_some, ← hall, ne_eq,
          not_true_eq_false, if_false, hfirst, hlast, if_neg hace]
      · intro hstraight
        have hlow := of_decide_eq_true hstraight
        refine .inl ⟨hall.symm, last.point, fun c hc => ?_⟩
        have hc' := hends c hc
        rw [hcard]
        simp only [List.length_cons] at hlow
        omega
  · exact ⟨(false, _), by simp [hall], rfl, fun h => absurd h Bool.false_ne_true⟩

end Poker

end DnServer.Bullfight
