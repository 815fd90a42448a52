import DnServer.Lib.Packed
import DnServer.Bullfight.Bull

/-!
# The best hand of a player

The agent keeps the best hand that its player ever had as one number, `besttype`: two digits
for each card and two for the type. `EVENT_PLAY_ONE_MATCH` unpacks it, compares it with the
hand just played and packs the better one again.

Lua divides doubles and rounds the quotient, the model divides rational numbers. The digits
are the same: a double holds the twelve digits of `besttype` exactly, a quotient by `k` that
is not whole lies at least `1 / k` below the next whole number, and rounding moves it by less.

* `tocards_tonum`: a hand is unpacked from its number with its cards and type, digit by
  digit (`Numeral`).
* `bestHand_kept`: by induction over the matches the number stands for one of the hands
  played and none is above it (`IsBest`); the first hand is kept whatever it is.
-/

namespace DnServer.Bullfight

open DnServer.Lib

namespace Agent

open Poker

/-! ## Packing and unpacking -/

/-- The number of a card, from 1 to 52 in the deck. -/
def cardNum (v : Card) : ℤ := (v.point - 2) * 4 + v.suit

/-- `tonumber` of a text without a sign in front. -/
def tonumber (num : Bytes) : Option ℚ := (numeral 0 num).map fun n : ℕ => (n : ℚ)

def tonum (cards : List Card) (ptype : ℤ) : Option ℚ :=
  tonumber ((cards.flatMap fun v => padded (cardNum v)) ++ padded ptype)

/-- The card that the two digits from `value` on stand for. -/
def cardAt (besttype value : ℚ) : Card :=
  let suit := ⌊besttype / value⌋ % 4
  let suit := if suit = 0 then 4 else suit
  ⟨⌊((⌊luaMod (besttype / value) 100⌋ - suit : ℤ) : ℚ) / 4⌋ + 2, suit⟩

/-- `besttype` as it is left, the cards arranged, and their type; `none` is the error where
`besttype` is `nil`. -/
def tocards (besttype : Option ℚ) : Option (ℚ × List Card × ℤ) := do
  let besttype ← besttype
  let besttype := if ⌊besttype / 10 ^ 10⌋ = 0 then 0 else besttype
  let cards := [10 ^ 10, 10 ^ 8, 10 ^ 6, 10 ^ 4, 10 ^ 2].map (cardAt besttype)
  let (pokertype, choicecards) ← getBFType cards []
  some (besttype, choicecards, if besttype = 0 then -1 else pokertype)

/-- `PlayOneMatch`, as far as the best hand goes: the rest counts the match and does not
touch `besttype`. -/
def playOneMatch (s : KeySort Card) (besttype : Option ℚ) (choicecards : List Card)
    (pokertype : ℤ) : Option (Option ℚ) := do
  let (besttype, sqlcards, sqlpokertype) ← tocards besttype
  let ((choicecards, _), better) := bfCompare s choicecards pokertype sqlcards sqlpokertype
  some (if ← better then tonum choicecards pokertype else some besttype)

/-- What the matches played leave of `besttype`, each with the type that `GetBFType` gives. -/
def playMatches (s : KeySort Card) (besttype : Option ℚ) (hands : List DeckHand) :
    Option (Option ℚ) :=
  hands.foldlM (fun besttype hand => playOneMatch s besttype hand.cards (bfType hand.cards))
    besttype

/-! ## The round trip -/

/-- The same cards in another order are a hand too. -/
def reordered (hand : DeckHand) {cards : List Card} (h : cards.Perm hand.cards) : DeckHand where
  cards := cards
  size := h.length_eq.trans hand.size
  nodup := h.nodup_iff.mpr hand.nodup
  deck := fun c hc => hand.deck c (h.mem_iff.mp hc)

theorem bfType_perm {hand hand' : DeckHand} (h : hand.cards.Perm hand'.cards) :
    bfType hand.cards = bfType hand'.cards := by
  rw [bfType_eq, bfType_eq, Multiset.coe_eq_coe.mpr h]

/-- A hand of the deck has a type of two digits. -/
theorem getBFType_hand (hand : DeckHand) : ∃ ret,
    getBFType hand.cards [] = some (bfType hand.cards, ret) ∧ ret.Perm hand.cards ∧
      0 ≤ bfType hand.cards ∧ bfType hand.cards < 100 := by
  obtain ⟨t, ret, hret, hge, hle, hperm⟩ := getBFType_ok hand.size
  have htype : bfType hand.cards = t := by rw [bfType, hret]; rfl
  exact ⟨ret, by rw [htype, hret], hperm, by omega, by omega⟩

theorem cardNum_bounds {c : Card} (hc : c.InDeck) : 1 ≤ cardNum c ∧ cardNum c ≤ 52 := by
  have := hc.point
  have := hc.suit
  unfold cardNum
  omega

/-- The cards of the deck are written with two digits each. -/
theorem numeral_cards : ∀ {cards : List Card}, (∀ c ∈ cards, c.InDeck) → ∀ acc : ℕ, ∃ n : ℕ,
    numeral acc (cards.flatMap fun v => padded (cardNum v)) = some n ∧
      (n : ℤ) = cards.foldl (fun n v => 100 * n + cardNum v) acc
  | [], _, acc => ⟨acc, rfl, rfl⟩
  | c :: cards, hd, acc => by
    obtain ⟨hge, hle⟩ := cardNum_bounds (hd c List.mem_cons_self)
    obtain ⟨k, hk⟩ := Int.eq_ofNat_of_zero_le (show 0 ≤ cardNum c by omega)
    obtain ⟨n, hn, hfold⟩ :=
      numeral_cards (fun c hc => hd c (List.mem_cons_of_mem _ hc)) (100 * acc + k)
    refine ⟨n, ?_, ?_⟩
    · rw [List.flatMap_cons, numeral_append, hk, numeral_padded (by omega), Option.bind_some, hn]
    · rw [List.foldl_cons, hk, hfold]
      push_cast
      rfl

theorem tonum_eq {cards : List Card} {ptype : ℤ} (hd : ∀ c ∈ cards, c.InDeck) (h0 : 0 ≤ ptype)
    (h100 : ptype < 100) :
    tonum cards ptype =
      some ((100 * cards.foldl (fun n v => 100 * n + cardNum v) 0 + ptype : ℤ) : ℚ) := by
  obtain ⟨t, rfl⟩ := Int.eq_ofNat_of_zero_le h0
  obtain ⟨n, hn, hfold⟩ := numeral_cards hd 0
  rw [Nat.cast_zero] at hfold
  rw [tonum, tonumber, numeral_append, hn, Option.bind_some, numeral_padded (by omega), ← hfold,
    Option.map_some]
  push_cast
  rfl

/-- The two digits of a card of the deck give the card back. -/
theorem cardAt_eq {c : Card} (hc : c.InDeck) {n : ℤ} (k : ℕ)
    (h : n / 10 ^ k % 100 = cardNum c) : cardAt n (10 ^ k) = c := by
  have hrest : ⌊luaMod ((n : ℚ) / 10 ^ k) 100⌋ = cardNum c := by
    rw [← h, ← floor_div_pow]
    exact floor_luaMod _ 100
  have hpoint := hc.point
  have hsuit := hc.suit
  obtain ⟨p, u⟩ := c
  have hnum : cardNum ⟨p, u⟩ = (p - 2) * 4 + u := rfl
  simp only at hpoint hsuit
  have hu : (if n / 10 ^ k % 4 = 0 then 4 else n / 10 ^ k % 4) = u := by
    split <;> omega
  have hp : ⌊((cardNum ⟨p, u⟩ - u : ℤ) : ℚ) / 4⌋ + 2 = p := by
    have hfloor := Rat.floor_intCast_div_natCast (cardNum ⟨p, u⟩ - u) 4
    rw [Nat.cast_ofNat] at hfloor
    rw [hfloor]
    omega
  unfold cardAt
  simp only [floor_div_pow, hrest, hu, hp]

/-- **The round trip.** What is unpacked is the hand that was packed. -/
theorem tocards_tonum (hand : DeckHand) : ∃ besttype cards,
    tonum hand.cards (bfType hand.cards) = some besttype ∧
      tocards (some besttype) = some (besttype, cards, bfType hand.cards) ∧
        cards.Perm hand.cards := by
  obtain ⟨ret, hret, hperm, hge, hlt⟩ := getBFType_hand hand
  obtain ⟨cards, hsize, hnodup, hdeck⟩ := hand
  match cards, hsize with
  | [a, b, c, d, e], hsize =>
    have hnum := tonum_eq hdeck hge hlt
    simp only at hret hperm hge hlt hnum ⊢
    generalize bfType [a, b, c, d, e] = ptype at *
    simp only [List.foldl_cons, List.foldl_nil] at hnum
    generalize hn : 100 * (100 * (100 * (100 * (100 * (100 * 0 + cardNum a) + cardNum b) +
      cardNum c) + cardNum d) + cardNum e) + ptype = n at hnum
    have ha := cardNum_bounds (hdeck a (by simp))
    have hb := cardNum_bounds (hdeck b (by simp))
    have hc := cardNum_bounds (hdeck c (by simp))
    have hd := cardNum_bounds (hdeck d (by simp))
    have he := cardNum_bounds (hdeck e (by simp))
    have hcards : [10 ^ 10, 10 ^ 8, 10 ^ 6, 10 ^ 4, 10 ^ 2].map (cardAt n) = [a, b, c, d, e] := by
      simp only [List.map_cons, List.map_nil,
        cardAt_eq (hdeck a (by simp)) 10 (show n / 10 ^ 10 % 100 = _ by omega),
        cardAt_eq (hdeck b (by simp)) 8 (show n / 10 ^ 8 % 100 = _ by omega),
        cardAt_eq (hdeck c (by simp)) 6 (show n / 10 ^ 6 % 100 = _ by omega),
        cardAt_eq (hdeck d (by simp)) 4 (show n / 10 ^ 4 % 100 = _ by omega),
        cardAt_eq (hdeck e (by simp)) 2 (show n / 10 ^ 2 % 100 = _ by omega)]
    have hpos : ((n : ℤ) : ℚ) ≠ 0 := by
      have : n ≠ 0 := by omega
      exact_mod_cast this
    have hfirst : ⌊(n : ℚ) / 10 ^ 10⌋ ≠ 0 := by
      rw [floor_div_pow]
      omega
    refine ⟨n, ret, hnum, ?_, hperm⟩
    unfold tocards
    simp only [Option.bind_eq_bind, Option.bind_some, if_neg hfirst, hcards, hret, if_neg hpos]

/-! ## The record -/

/-- `besttype` stands for one of the hands played, and none of them is ranked above it. -/
def IsBest (s : KeySort Card) (played : List DeckHand) (besttype : ℚ) : Prop :=
  ∃ cards ptype, tocards (some besttype) = some (besttype, cards, ptype) ∧
    (∃ hand ∈ played, cards.Perm hand.cards ∧ ptype = bfType hand.cards) ∧
    ∀ hand ∈ played, (bfCompare s hand.cards (bfType hand.cards) cards ptype).2 = some false

/-- Against the cards of a hand, in any order, `BFCompare` goes by what the hands are worth. -/
theorem better_eq (s : KeySort Card) (hand best : DeckHand) {cards : List Card}
    (h : cards.Perm best.cards) :
    (bfCompare s hand.cards (bfType hand.cards) cards (bfType best.cards)).2 =
      some (decide (worth s best.cards < worth s hand.cards)) := by
  have htype : bfType best.cards = bfType cards := @bfType_perm best (reordered best h) h.symm
  have hworth : worth s cards = worth s best.cards := worth_perm s (a := reordered best h) h
  rw [htype, ← hworth]
  exact bfCompare_hands s hand (reordered best h)

theorem isBest_iff (s : KeySort Card) (played : List DeckHand) (besttype : ℚ) :
    IsBest s played besttype ↔ ∃ best ∈ played, ∃ cards,
      tocards (some besttype) = some (besttype, cards, bfType best.cards) ∧
        cards.Perm best.cards ∧ ∀ hand ∈ played, worth s hand.cards ≤ worth s best.cards := by
  constructor
  · rintro ⟨cards, ptype, hcards, ⟨best, hmem, hperm, rfl⟩, hnone⟩
    refine ⟨best, hmem, cards, hcards, hperm, fun hand hhand => ?_⟩
    have hbelow := hnone hand hhand
    rw [better_eq s hand best hperm, Option.some.injEq, decide_eq_false_iff_not] at hbelow
    exact not_lt.mp hbelow
  · rintro ⟨best, hmem, cards, hcards, hperm, hle⟩
    refine ⟨cards, _, hcards, ⟨best, hmem, hperm, rfl⟩, fun hand hhand => ?_⟩
    rw [better_eq s hand best hperm, decide_eq_false (not_lt.mpr (hle hand hhand))]

/-- A hand is recorded, however the comparison has left its cards. -/
theorem tonum_recorded (hand : DeckHand) {choicecards : List Card}
    (h : choicecards.Perm hand.cards) : ∃ besttype cards,
      tonum choicecards (bfType hand.cards) = some besttype ∧
        tocards (some besttype) = some (besttype, cards, bfType hand.cards) ∧
          cards.Perm hand.cards := by
  obtain ⟨besttype, cards, hnum, hcards, hperm⟩ := tocards_tonum (reordered hand h)
  have htype : bfType choicecards = bfType hand.cards := @bfType_perm (reordered hand h) hand h
  have hnum : tonum choicecards (bfType choicecards) = some besttype := hnum
  have hcards : tocards (some besttype) = some (besttype, cards, bfType choicecards) := hcards
  rw [htype] at hnum hcards
  exact ⟨besttype, cards, hnum, hcards, hperm.trans h⟩

/-- Without a record any hand is the best one. -/
theorem playOneMatch_first (s : KeySort Card) (hand : DeckHand) : ∃ besttype,
    playOneMatch s (some 0) hand.cards (bfType hand.cards) = some (some besttype) ∧
      IsBest s [hand] besttype := by
  obtain ⟨besttype, cards, hnum, hcards, hperm⟩ := tonum_recorded hand (List.Perm.refl _)
  have hstart : ∃ sqlcards, tocards (some 0) = some (0, sqlcards, -1) := by
    obtain ⟨t, ret, hret, -⟩ := getBFType_ok
      (show ([10 ^ 10, 10 ^ 8, 10 ^ 6, 10 ^ 4, 10 ^ 2].map (cardAt 0)).length = 5 from rfl)
    refine ⟨ret, ?_⟩
    simp only [tocards, Option.bind_eq_bind, Option.bind_some, zero_div, Int.floor_zero, if_true,
      hret]
  obtain ⟨sqlcards, hstart⟩ := hstart
  obtain ⟨-, -, -, hge, -⟩ := getBFType_hand hand
  refine ⟨besttype, ?_, (isBest_iff s [hand] besttype).mpr
    ⟨hand, List.mem_singleton_self hand, cards, hcards, hperm, ?_⟩⟩
  · have hgt : bfType hand.cards > -1 := by omega
    simp only [playOneMatch, hstart, Option.bind_eq_bind, Option.bind_some, bfCompare, if_pos hgt,
      if_true, hnum]
  · intro other hother
    rw [List.mem_singleton.mp hother]

/-- A match keeps the record: the old one, or the hand just played. -/
theorem playOneMatch_best (s : KeySort Card) {played : List DeckHand} {besttype : ℚ}
    (h : IsBest s played besttype) (hand : DeckHand) : ∃ besttype',
    playOneMatch s (some besttype) hand.cards (bfType hand.cards) = some (some besttype') ∧
      IsBest s (played ++ [hand]) besttype' := by
  obtain ⟨best, hmem, cards, hcards, hperm, hle⟩ := (isBest_iff s played besttype).mp h
  have hsort := (bfCompare_perm s hand.cards cards (bfType hand.cards) (bfType best.cards)).1
  have hbetter := better_eq s hand best hperm
  unfold playOneMatch
  simp only [hcards, Option.bind_eq_bind, Option.bind_some, hbetter]
  by_cases hlt : worth s best.cards < worth s hand.cards
  · -- the hand is better: its cards are packed as the comparison has sorted them
    obtain ⟨besttype', cards', hnum, hcards', hperm'⟩ := tonum_recorded hand hsort
    rw [decide_eq_true hlt, if_pos rfl, hnum]
    refine ⟨besttype', rfl, (isBest_iff s _ besttype').mpr
      ⟨hand, by simp, cards', hcards', hperm', ?_⟩⟩
    intro other hother
    rcases List.mem_append.mp hother with hold | hnew
    · exact (hle other hold).trans hlt.le
    · rw [List.mem_singleton.mp hnew]
  · rw [decide_eq_false hlt, if_neg Bool.false_ne_true]
    refine ⟨besttype, rfl, (isBest_iff s _ besttype).mpr
      ⟨best, List.mem_append_left _ hmem, cards, hcards, hperm, ?_⟩⟩
    intro other hother
    rcases List.mem_append.mp hother with hold | hnew
    · exact hle other hold
    · rw [List.mem_singleton.mp hnew]
      exact not_lt.mp hlt

theorem playMatches_best (s : KeySort Card) (rest : List DeckHand) :
    ∀ {played : List DeckHand} {besttype : ℚ}, IsBest s played besttype → ∃ besttype',
      playMatches s (some besttype) rest = some (some besttype') ∧
        IsBest s (played ++ rest) besttype' := by
  induction rest with
  | nil =>
    intro played besttype h
    exact ⟨besttype, rfl, by rwa [List.append_nil]⟩
  | cons hand rest ih =>
    intro played besttype h
    obtain ⟨besttype₁, hplay, h₁⟩ := playOneMatch_best s h hand
    obtain ⟨besttype', hrest, h'⟩ := ih h₁
    refine ⟨besttype', ?_, by rwa [List.append_assoc] at h'⟩
    rw [playMatches, List.foldlM_cons, hplay]
    exact hrest

/-- **The best hand.** A hand of the deck is unpacked from its number with the same cards and
the same type. So after any matches `besttype` stands for one of the hands played, and none
of them is ranked above it. -/
theorem bestHand_kept :
    (∀ hand : DeckHand, ∃ besttype cards,
      tonum hand.cards (bfType hand.cards) = some besttype ∧
        tocards (some besttype) = some (besttype, cards, bfType hand.cards) ∧
          cards.Perm hand.cards) ∧
    ∀ (s : KeySort Card) (first : DeckHand) (rest : List DeckHand), ∃ besttype,
      playMatches s (some 0) (first :: rest) = some (some besttype) ∧
        IsBest s (first :: rest) besttype := by
  refine ⟨tocards_tonum, fun s first rest => ?_⟩
  obtain ⟨besttype₁, hplay, h₁⟩ := playOneMatch_first s first
  obtain ⟨besttype, hrest, h⟩ := playMatches_best s rest h₁
  refine ⟨besttype, ?_, h⟩
  rw [playMatches, List.foldlM_cons, hplay]
  exact hrest

end Agent

end DnServer.Bullfight
