import DnServer.Bullfight.Poker

/-!
# The types and the order of the bullfight hands

`GetBFType` tries ten ways to split a hand and stops at the first that makes a
bull; the rules name the type of a hand without an order of its cards. They agree
on every hand of the deck. `BFCompare` then ranks a hand by its type and by one
card of it, and no two disjoint hands have one rank.
-/

namespace DnServer.Bullfight

open DnServer.Lib

/-- A card of the deck of 52. -/
structure Card.InDeck (c : Card) : Prop where
  point : 2 ≤ c.point ∧ c.point ≤ 14
  suit : 1 ≤ c.suit ∧ c.suit ≤ 4

namespace Poker

/-- Five different cards of the deck, in some order. -/
structure DeckHand where
  cards : List Card
  size : cards.length = 5
  nodup : cards.Nodup
  deck : ∀ c ∈ cards, c.InDeck

/-! ## The rules -/

/-- Three of the cards make a multiple of ten. -/
def HasBull (hand : Multiset Card) : Prop :=
  ∃ three ≤ hand, Multiset.card three = 3 ∧ (three.map bullPoint).sum % 10 = 0

open Classical in
/-- The type of a hand by the rules, which know no order of the cards. -/
noncomputable def ruleType (hand : Multiset Card) : ℤ :=
  if (hand.map bullPoint).sum < 10 then types.PT_ALL_SMALL_BULL
  else if ∃ p, 4 ≤ hand.countP fun c => c.point = p then types.PT_BOMB
  else if ∀ c ∈ hand, 11 ≤ c.point ∧ c.point ≤ 13 then types.PT_GOLD_BULL
  else if ∀ c ∈ hand, 10 ≤ c.point ∧ c.point ≤ 13 then types.PT_SILVE_BULL
  else if HasBull hand then
    if (hand.map bullPoint).sum % 10 = 0 then types.PT_BULL_BULL else (hand.map bullPoint).sum % 10
  else types.PT_NO_BULL

/-! ## Each test of the code is a test of the rules -/

theorem bullPoint_pos {c : Card} (hc : c.InDeck) : 1 ≤ bullPoint c := by
  have := hc.point
  unfold bullPoint
  split_ifs <;> omega

/-- A card counts differently for `add` only if it alone makes more than ten. -/
theorem smallPoint_cases {c : Card} (hc : c.InDeck) :
    smallPoint c = bullPoint c ∨ 10 ≤ smallPoint c ∧ 10 ≤ bullPoint c := by
  have := hc.point
  unfold smallPoint bullPoint
  split_ifs <;> omega

/-- `add` and the total of the points are equal, or both are too large for a small hand. -/
theorem small_sum : ∀ {cards : List Card}, (∀ c ∈ cards, c.InDeck) →
    0 ≤ (cards.map smallPoint).sum ∧ 0 ≤ (cards.map bullPoint).sum ∧
      ((cards.map smallPoint).sum = (cards.map bullPoint).sum ∨
        10 ≤ (cards.map smallPoint).sum ∧ 10 ≤ (cards.map bullPoint).sum)
  | [], _ => ⟨le_rfl, le_rfl, .inl rfl⟩
  | c :: cards, hd => by
    have hc := hd c List.mem_cons_self
    have hpos := bullPoint_pos hc
    have hcases := smallPoint_cases hc
    obtain ⟨-, hb, hrest⟩ := small_sum fun c hc => hd c (List.mem_cons_of_mem _ hc)
    simp only [List.map_cons, List.sum_cons]
    omega

/-- `add < 10` tests the total of the points. -/
theorem small_iff {cards : List Card} (hd : ∀ c ∈ cards, c.InDeck) :
    (cards.map smallPoint).sum < 10 ↔ ((cards : Multiset Card).map bullPoint).sum < 10 := by
  obtain ⟨-, -, hsum⟩ := small_sum hd
  rw [Multiset.map_coe, Multiset.sum_coe]
  omega

/-- The suits of the cards of one point are different. -/
theorem countP_point_le {cards : List Card} (hd : ∀ c ∈ cards, c.InDeck) (hn : cards.Nodup)
    (p : ℤ) : cards.countP (fun c => c.point = p) ≤ 4 := by
  rw [List.countP_eq_length_filter]
  have hsuits : ((cards.filter fun c => c.point = p).map Card.suit).Nodup := by
    refine (List.nodup_map_iff_inj_on (hn.filter _)).mpr fun c hc d hd' hcd => ?_
    have hc := (List.mem_filter.mp hc).2
    have hd' := (List.mem_filter.mp hd').2
    simp only [decide_eq_true_eq] at hc hd'
    cases c
    cases d
    simp_all
  have hsub : (cards.filter fun c => c.point = p).map Card.suit ⊆ [1, 2, 3, 4] := by
    intro x hx
    obtain ⟨c, hc, rfl⟩ := List.mem_map.mp hx
    have := (hd c (List.mem_filter.mp hc).1).suit
    simp only [List.mem_cons, List.not_mem_nil, or_false]
    omega
  have hlen := (hsuits.subperm hsub).length_le
  rwa [List.length_map] at hlen

/-- Four entries of `bomboption` are four cards of one point. -/
theorem bomb_iff {cards : List Card} (hd : ∀ c ∈ cards, c.InDeck) (hn : cards.Nodup) :
    (cards.any fun c => cards.countP (fun d => d.point = c.point) = 4) = true ↔
      ∃ p, 4 ≤ (cards : Multiset Card).countP fun c => c.point = p := by
  simp only [List.any_eq_true, decide_eq_true_eq, Multiset.coe_countP]
  constructor
  · rintro ⟨c, -, hc⟩
    exact ⟨c.point, hc.ge⟩
  · rintro ⟨p, hp⟩
    have hle := countP_point_le hd hn p
    have hpos : 0 < cards.countP fun c => decide (c.point = p) := by omega
    obtain ⟨c, hc, hcp⟩ := List.countP_pos_iff.mp hpos
    rw [decide_eq_true_eq] at hcp
    subst hcp
    exact ⟨c, hc, by omega⟩

/-- `goldnum == 5`. -/
theorem gold_iff {cards : List Card} (hsize : cards.length = 5) (hd : ∀ c ∈ cards, c.InDeck) :
    cards.countP isGold = 5 ↔ ∀ c ∈ (cards : Multiset Card), 11 ≤ c.point ∧ c.point ≤ 13 := by
  rw [← hsize, List.countP_eq_length]
  simp only [Multiset.mem_coe, isGold, decide_eq_true_eq]
  refine forall₂_congr fun c hc => ?_
  have := (hd c hc).point
  omega

/-- `goldnum + silvenum == 5`. -/
theorem silver_iff {cards : List Card} (hsize : cards.length = 5) (hd : ∀ c ∈ cards, c.InDeck) :
    cards.countP isGold + cards.countP (fun c => c.point = 10) = 5 ↔
      ∀ c ∈ (cards : Multiset Card), 10 ≤ c.point ∧ c.point ≤ 13 := by
  have hsplit : ∀ {cards : List Card}, cards.countP isGold + cards.countP (fun c => c.point = 10) =
      cards.countP fun c => isGold c ∨ c.point = 10 := by
    intro cards
    induction cards with
    | nil => rfl
    | cons c cards ih =>
      have hgold : isGold c = true → c.point ≠ 10 := by
        simp only [isGold, decide_eq_true_eq]
        omega
      rw [List.countP_cons, List.countP_cons, List.countP_cons, ← ih]
      by_cases h1 : isGold c = true
      · have h2 := hgold h1
        simp only [h1, h2, decide_true, decide_false, true_or, if_true, Bool.false_eq_true, if_false]
        omega
      · by_cases h2 : c.point = 10
        · simp only [h1, h2, decide_true, Bool.false_eq_true, if_true, if_false, or_true]
          omega
        · simp only [h1, h2, decide_false, Bool.false_eq_true, if_false, or_self]
          omega
  rw [hsplit, ← hsize, List.countP_eq_length]
  simp only [Multiset.mem_coe, isGold, decide_eq_true_eq]
  refine forall₂_congr fun c hc => ?_
  have := (hd c hc).point
  omega

/-! ## The ten splits -/

theorem hasBull_iff {cards : List Card} :
    HasBull cards ↔ ∃ l ∈ cards.sublistsLen 3, (l.map bullPoint).sum % 10 = 0 := by
  constructor
  · rintro ⟨three, hle, hcard, hsum⟩
    obtain ⟨l, rfl⟩ := Quot.exists_rep three
    obtain ⟨m, hm, hsub⟩ := Multiset.coe_le.mp hle
    refine ⟨m, List.mem_sublistsLen.mpr ⟨hsub, hm.length_eq.trans hcard⟩, ?_⟩
    rw [(hm.map bullPoint).sum_eq]
    exact hsum
  · rintro ⟨l, hl, hsum⟩
    obtain ⟨hsub, hlen⟩ := List.mem_sublistsLen.mp hl
    exact ⟨l, Multiset.coe_le.mpr hsub.subperm, hlen, hsum⟩

/-- Some split makes a bull just when the rules find one. -/
theorem find_isSome_iff {cards : List Card} (hsize : cards.length = 5) :
    (bfoption.find? (isBull (cards.map bullPoint))).isSome ↔ HasBull cards := by
  match cards, hsize with
  | [a, b, c, d, e], _ =>
    rw [hasBull_iff, List.find?_isSome]
    simp [bfoption, isBull, nth, List.sublistsLen_succ_cons]
    grind

/-- A split deals the hand out: its first three cards, and the other two. -/
theorem split_sum {cards : List Card} (hsize : cards.length = 5) {v : List ℕ} (hv : v ∈ bfoption) :
    (((v.filterMap fun j => cards[j - 1]?).take 3).map bullPoint).sum =
        ((v.take 3).map (nth (cards.map bullPoint))).sum ∧
      (cards.map bullPoint).sum = ((v.take 3).map (nth (cards.map bullPoint))).sum +
        ((v.drop 3).map (nth (cards.map bullPoint))).sum := by
  match cards, hsize with
  | [a, b, c, d, e], _ =>
    simp only [bfoption, List.mem_cons, List.not_mem_nil, or_false] at hv
    rcases hv with rfl | rfl | rfl | rfl | rfl | rfl | rfl | rfl | rfl | rfl
    all_goals
      refine ⟨rfl, ?_⟩
      simp [nth]
      ring

/-- With a multiple of ten in the first three cards the other two make the total. -/
theorem bullOf_eq {cards : List Card} (hsize : cards.length = 5) {v : List ℕ} (hv : v ∈ bfoption)
    (hbull : isBull (cards.map bullPoint) v = true) :
    bullOf (cards.map bullPoint) v =
      if ((cards : Multiset Card).map bullPoint).sum % 10 = 0 then types.PT_BULL_BULL
      else ((cards : Multiset Card).map bullPoint).sum % 10 := by
  have hthree : ((v.take 3).map (nth (cards.map bullPoint))).sum % 10 = 0 := of_decide_eq_true hbull
  have hmod : (cards.map bullPoint).sum % 10 =
      ((v.drop 3).map (nth (cards.map bullPoint))).sum % 10 := by
    rw [(split_sum hsize hv).2]
    omega
  rw [Multiset.map_coe, Multiset.sum_coe, bullOf, hmod]

/-! ## The type of a hand -/

/-- The type that `GetBFType` gives. -/
def bfType (cards : List Card) : ℤ := ((getBFType cards []).map Prod.fst).getD 0

/-- On every hand of the deck `GetBFType` gives the type of the rules. -/
theorem getBFType_spec (h : DeckHand) : ∃ ret,
    getBFType h.cards [] = some (ruleType h.cards, ret) ∧
      (1 ≤ ruleType h.cards → ruleType h.cards ≤ 10 →
        ((ret.take 3).map bullPoint).sum % 10 = 0) := by
  have hsmall := small_iff h.deck
  have hbomb := bomb_iff h.deck h.nodup
  have hgold := gold_iff h.size h.deck
  have hsilver := silver_iff h.size h.deck
  unfold getBFType ruleType
  rw [if_neg (not_not.mpr h.size)]
  by_cases h1 : ((h.cards : Multiset Card).map bullPoint).sum < 10
  · rw [if_pos h1, if_pos (hsmall.mpr h1)]
    exact ⟨_, rfl, fun _ hle => absurd hle (by decide)⟩
  rw [if_neg h1, if_neg (h1 ∘ hsmall.mp)]
  by_cases h2 : ∃ p, 4 ≤ (h.cards : Multiset Card).countP fun c => c.point = p
  · rw [if_pos h2, if_pos (hbomb.mpr h2)]
    exact ⟨_, rfl, fun _ hle => absurd hle (by decide)⟩
  rw [if_neg h2, if_neg (h2 ∘ hbomb.mp)]
  by_cases h3 : ∀ c ∈ (h.cards : Multiset Card), 11 ≤ c.point ∧ c.point ≤ 13
  · rw [if_pos h3, if_pos (hgold.mpr h3)]
    exact ⟨_, rfl, fun _ hle => absurd hle (by decide)⟩
  rw [if_neg h3, if_neg (h3 ∘ hgold.mp)]
  by_cases h4 : ∀ c ∈ (h.cards : Multiset Card), 10 ≤ c.point ∧ c.point ≤ 13
  · rw [if_pos h4, if_pos (hsilver.mpr h4)]
    exact ⟨_, rfl, fun _ hle => absurd hle (by decide)⟩
  rw [if_neg h4, if_neg (h4 ∘ hsilver.mp)]
  have hfind := find_isSome_iff h.size
  cases hv : bfoption.find? (isBull (h.cards.map bullPoint)) with
  | none =>
    have hno : ¬ HasBull h.cards := fun hb => by simp [hv] at hfind; exact hfind hb
    rw [if_neg hno]
    exact ⟨_, rfl, fun hge => absurd hge (by decide)⟩
  | some v =>
    have hyes : HasBull h.cards := hfind.mp (by rw [hv]; rfl)
    have hmem := List.mem_of_find?_eq_some hv
    have hbull := List.find?_some hv
    rw [if_pos hyes, ← bullOf_eq h.size hmem hbull]
    refine ⟨_, rfl, fun _ _ => ?_⟩
    rw [List.nil_append, (split_sum h.size hmem).1]
    exact of_decide_eq_true hbull

theorem bfType_eq (h : DeckHand) : bfType h.cards = ruleType h.cards := by
  obtain ⟨ret, hret, -⟩ := getBFType_spec h
  rw [bfType, hret]
  rfl

/-- **The type of a hand.** `GetBFType` gives every hand of the deck the type of the rules, so
one type for every order of its cards, and arranges the cards of a bull with a multiple of
ten first. -/
theorem getBFType_rules (h : DeckHand) :
    (∃ ret, getBFType h.cards [] = some (ruleType h.cards, ret) ∧ ret.Perm h.cards ∧
      (1 ≤ ruleType h.cards ∧ ruleType h.cards ≤ 10 →
        ((ret.take 3).map bullPoint).sum % 10 = 0)) ∧
    ∀ cards, cards.Perm h.cards →
      (getBFType cards []).map Prod.fst = (getBFType h.cards []).map Prod.fst := by
  obtain ⟨ret, hret, hbull⟩ := getBFType_spec h
  obtain ⟨t, ret', hret', -, -, hperm⟩ := getBFType_ok h.size
  rw [hret] at hret'
  cases hret'
  refine ⟨⟨ret, hret, hperm, fun hb => hbull hb.1 hb.2⟩, fun cards hcards => ?_⟩
  obtain ⟨ret₂, hret₂, -⟩ := getBFType_spec ⟨cards, hcards.length_eq.trans h.size,
    hcards.nodup_iff.mpr h.nodup, fun c hc => h.deck c (hcards.mem_iff.mp hc)⟩
  rw [hret, hret₂]
  simp only [Option.map_some, Multiset.coe_eq_coe.mpr hcards]

/-! ## The order of the hands -/

/-- The keys of the cards, the largest first. -/
def keysOf (s : KeySort Card) (cards : List Card) : List ℤ :=
  (bfSortCards s cards).map bfPointAndSuit

/-- The key of the card that decides between two hands of type `t`. -/
def decider (s : KeySort Card) (t : ℤ) (cards : List Card) : ℤ :=
  (keysOf s cards).getD (deciding t) 0

/-- A hand with enough cards has the card that decides. -/
theorem exists_deciding (s : KeySort Card) {t : ℤ} {cards : List Card}
    (h : deciding t < cards.length) : ∃ c ∈ cards, (bfSortCards s cards)[deciding t]? = some c ∧
      bfPointAndSuit c = decider s t cards := by
  have hlt : deciding t < (bfSortCards s cards).length := by
    rwa [bfSortCards, s.length_sort]
  refine ⟨(bfSortCards s cards)[deciding t], ?_, List.getElem?_eq_getElem hlt, ?_⟩
  · exact (s.mem_sort _ _ _).mp (List.getElem_mem hlt)
  · unfold decider keysOf
    rw [List.getD_eq_getElem _ _ (by rwa [List.length_map]), List.getElem_map]

theorem decider_perm (s : KeySort Card) (t : ℤ) {cards cards' : List Card}
    (h : cards.Perm cards') : decider s t cards = decider s t cards' := by
  unfold decider keysOf bfSortCards
  rw [s.map_sort_of_perm s h]

/-- Both hands have the card that decides between them, if a card does. -/
def Decided (c1 : List Card) (t1 : ℤ) (c2 : List Card) (t2 : ℤ) : Prop :=
  t1 = t2 → deciding t1 < c1.length ∧ deciding t1 < c2.length

theorem decided_of_length {c1 c2 : List Card} (t1 t2 : ℤ) (h1 : 2 ≤ c1.length)
    (h2 : 2 ≤ c2.length) : Decided c1 t1 c2 t2 := by
  intro _
  unfold deciding
  split <;> omega

/-- `BFCompare` goes by the types, then by one card. -/
theorem bfCompare_eq (s : KeySort Card) {c1 c2 : List Card} {t1 t2 : ℤ}
    (h : Decided c1 t1 c2 t2) : (bfCompare s c1 t1 c2 t2).2 =
      some (decide (t2 < t1 ∨ t1 = t2 ∧ decider s t1 c2 < decider s t1 c1)) := by
  unfold bfCompare
  rcases lt_trichotomy t1 t2 with hlt | rfl | hgt
  · rw [if_neg hlt.asymm, if_pos hlt]
    simp [hlt.asymm, hlt.ne]
  · obtain ⟨d1, -, hget1, hkey1⟩ := exists_deciding s (h rfl).1
    obtain ⟨d2, -, hget2, hkey2⟩ := exists_deciding s (h rfl).2
    rw [if_neg (lt_irrefl t1), if_neg (lt_irrefl t1)]
    simp [hget1, hget2, hkey1, hkey2]
  · rw [if_pos hgt]
    simp [hgt]

/-- No two cards of the deck have one key. -/
theorem bfPointAndSuit_inj {c d : Card} (hc : c.InDeck) (hd : d.InDeck)
    (h : bfPointAndSuit c = bfPointAndSuit d) : c = d := by
  obtain ⟨p, u⟩ := c
  obtain ⟨q, w⟩ := d
  have := hc.point
  have := hc.suit
  have := hd.point
  have := hd.suit
  simp only [bfPointAndSuit, Card.mk.injEq] at *
  omega

/-- The card that decides is a card of the hand. -/
theorem decider_mem (s : KeySort Card) (t : ℤ) (h : DeckHand) :
    ∃ c ∈ h.cards, decider s t h.cards = bfPointAndSuit c := by
  have hlt : deciding t < h.cards.length := by
    rw [h.size, deciding]
    split <;> decide
  obtain ⟨c, hc, -, hkey⟩ := exists_deciding s hlt
  exact ⟨c, hc, hkey.symm⟩

/-- The first hand wins, both with the type that `GetBFType` gives. -/
def Beats (s : KeySort Card) (hand1 hand2 : List Card) : Prop :=
  (bfCompare s hand1 (bfType hand1) hand2 (bfType hand2)).2 = some true

/-- What a hand is worth: its type, and then the card that decides. -/
def worth (s : KeySort Card) (hand : List Card) : ℤ ×ₗ ℤ :=
  toLex (bfType hand, decider s (bfType hand) hand)

/-- Hands of five always have the card that decides. -/
theorem decided_hands (a b : DeckHand) (t1 t2 : ℤ) : Decided a.cards t1 b.cards t2 :=
  decided_of_length t1 t2 (by rw [a.size]; decide) (by rw [b.size]; decide)

/-- Between hands of five `BFCompare` goes by what they are worth. -/
theorem bfCompare_hands (s : KeySort Card) (a b : DeckHand) :
    (bfCompare s a.cards (bfType a.cards) b.cards (bfType b.cards)).2 =
      some (decide (worth s b.cards < worth s a.cards)) := by
  rw [bfCompare_eq s (decided_hands a b _ _), worth, worth, Option.some.injEq]
  refine decide_eq_decide.mpr ?_
  rw [Prod.Lex.toLex_lt_toLex]
  constructor
  · rintro (hlt | ⟨heq, hlt⟩)
    · exact .inl hlt
    · exact .inr ⟨heq.symm, by rwa [← heq]⟩
  · rintro (hlt | ⟨heq, hlt⟩)
    · exact .inl hlt
    · have heq : bfType b.cards = bfType a.cards := heq
      have hlt : decider s (bfType b.cards) b.cards < decider s (bfType a.cards) a.cards := hlt
      exact .inr ⟨heq.symm, by rwa [heq] at hlt⟩

theorem beats_iff (s : KeySort Card) (a b : DeckHand) :
    Beats s a.cards b.cards ↔ worth s b.cards < worth s a.cards := by
  rw [Beats, bfCompare_hands, Option.some.injEq, decide_eq_true_eq]

theorem worth_perm (s : KeySort Card) {a b : DeckHand} (h : a.cards.Perm b.cards) :
    worth s a.cards = worth s b.cards := by
  have htype : bfType a.cards = bfType b.cards := by
    rw [bfType_eq, bfType_eq, Multiset.coe_eq_coe.mpr h]
  rw [worth, worth, htype, decider_perm s _ h]

theorem worth_ne (s : KeySort Card) {a b : DeckHand} (h : a.cards.Disjoint b.cards) :
    worth s a.cards ≠ worth s b.cards := by
  intro heq
  have hpair := toLex.injective heq
  obtain ⟨-, hkey⟩ := Prod.mk.inj hpair
  obtain ⟨c, hc, hcard⟩ := decider_mem s (bfType a.cards) a
  obtain ⟨d, hd, hcard'⟩ := decider_mem s (bfType b.cards) b
  rw [hcard, hcard'] at hkey
  have hcd := bfPointAndSuit_inj (a.deck c hc) (b.deck d hd) hkey
  exact h hc (hcd ▸ hd)

/-- **The order of the hands.** With the types of `GetBFType` the comparison never fails, is
irreflexive, asymmetric and transitive, one of two disjoint hands wins, and the order of the
cards does not matter. -/
theorem beats_strictOrder (s : KeySort Card) :
    (∀ a b : DeckHand,
      (bfCompare s a.cards (bfType a.cards) b.cards (bfType b.cards)).2.isSome = true) ∧
      (∀ a : DeckHand, ¬ Beats s a.cards a.cards) ∧
      (∀ a b : DeckHand, Beats s a.cards b.cards → ¬ Beats s b.cards a.cards) ∧
      (∀ a b c : DeckHand, Beats s a.cards b.cards → Beats s b.cards c.cards →
        Beats s a.cards c.cards) ∧
      (∀ a b : DeckHand, a.cards.Disjoint b.cards →
        Beats s a.cards b.cards ∨ Beats s b.cards a.cards) ∧
      ∀ a a' b b' : DeckHand, a.cards.Perm a'.cards → b.cards.Perm b'.cards →
        (Beats s a.cards b.cards ↔ Beats s a'.cards b'.cards) := by
  simp only [beats_iff]
  refine ⟨fun a b => by rw [bfCompare_hands]; rfl, fun a => lt_irrefl _, fun a b hab => hab.asymm, fun a b c hab hbc => hbc.trans hab,
    fun a b hab => (lt_or_gt_of_ne (worth_ne s hab)).symm, fun a a' b b' ha hb => ?_⟩
  rw [worth_perm s ha, worth_perm s hb]

end Poker

end DnServer.Bullfight
