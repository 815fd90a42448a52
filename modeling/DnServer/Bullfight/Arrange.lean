import DnServer.Lib.CompareSort
import DnServer.Bullfight.Counts

/-!
# Arranging thirteen cards by themselves

`GetTopNPokerType` of `poker.lua` looks for the cards that make the third hand, then for
those that make the second hand among the others, takes a pair or three of a kind for the
first, fills the hands up, and keeps the arrangements that are legal. Whatever it returns
deals the thirteen cards out into legal hands with their types.
-/

namespace DnServer.Bullfight

open DnServer.Lib

namespace types

abbrev FIRST_PT_THREE : ℤ := 2
abbrev SEC_PT_FULL_HOUSE : ℤ := 1
abbrev SEC_PT_FOUR : ℤ := 6
abbrev SEC_PT_STRAIGHT_FLUSH : ℤ := 8
abbrev SEC_PT_FIVE : ℤ := 10
abbrev THIRD_PT_FOUR : ℤ := 3
abbrev THIRD_PT_STRAIGHT_FLUSH : ℤ := 4
abbrev THIRD_PT_FIVE : ℤ := 5

end types

namespace Poker

open types

/-- Cards that decide a hand, and its type. -/
structure CardsType where
  cards : List Card
  type : ℤ
deriving DecidableEq

/-- `ct`, an arrangement. -/
structure CardsTypes where
  thirdcards : List Card
  thirdtype : ℤ
  seccards : List Card
  sectype : ℤ
  firstcards : List Card
  firsttype : ℤ
deriving DecidableEq

/-! ## What decides a hand -/

/-- A type for the points; `none` is the index of a group that is not there. -/
def getTypeForPoint (arraycards : ArrayCards) (retcards : List CardsType) :
    Option (List CardsType) :=
  let devidecards := devideCards arraycards
  if devidecards 5 ≠ [] ∨ devidecards 6 ≠ [] ∨ devidecards 7 ≠ [] ∨ devidecards 8 ≠ [] then
    some (retcards ++ [5, 6, 7, 8].flatMap fun i =>
      (devidecards i).map fun v => ⟨v.take 5, PT_FIVE⟩)
  else if devidecards 4 ≠ [] then
    some (retcards ++ (devidecards 4).map fun v => ⟨v, PT_FOUR⟩)
  else if (devidecards 3 ≠ [] ∧ devidecards 2 ≠ []) ∨
      (devidecards 3 ≠ [] ∧ (devidecards 3).length ≥ 2) then
    some (retcards ++ (devidecards 3).zipIdx.flatMap fun (v, k) =>
      if devidecards 2 ≠ [] then
        (devidecards 2).map fun j => ⟨addCards v j, PT_FULL_HOUSE⟩
      else
        ((devidecards 3).zipIdx.filter fun (_, i) => k ≠ i).map fun (j, _) =>
          ⟨v ++ j.take 2, PT_FULL_HOUSE⟩)
  else if devidecards 3 ≠ [] then
    some (retcards ++ (devidecards 3).map fun v => ⟨v, PT_THREE⟩)
  else
    match devidecards 2 with
    | [pair] => some (retcards ++ [⟨pair, PT_PAIR⟩])
    | low :: rest => some (retcards ++ [⟨addCards (rest.getLastD low) low, PT_DOUBLE_PAIR⟩])
    | [] => do
      let high ← (devidecards 1).getLast?
      return retcards ++ [⟨high, PT_SINGLE⟩]

/-- The loop of `FlushPerm`, which tries `rounds` of the cards left as the next one. -/
def flushLoop (num : ℕ) : List Card → ℕ → ℕ → List Card → List (List Card) → List (List Card)
  | [], _, _, _, allperm => allperm
  | _, 0, _, _, allperm => allperm
  | c :: c1, rounds + 1, curnum, getcards, allperm =>
    let gc2 := getcards ++ [c]
    let cn2 := curnum + 1
    let allperm :=
      if cn2 = num then allperm ++ [gc2]
      else flushLoop num c1 (c1.length + 1 - (num - cn2)) cn2 gc2 allperm
    flushLoop num c1 rounds curnum getcards allperm

def flushPerm (cards : List Card) (num curnum : ℕ) (getcards : List Card)
    (allperm : List (List Card)) : List (List Card) :=
  flushLoop num cards (cards.length + 1 - (num - curnum)) curnum getcards allperm

def getTypeForSuit (s : KeySort Card) (arraycards : ArrayCards) (retcards : List CardsType) :
    Option (List CardsType) :=
  let perm := suits.foldl (fun perm i =>
    if arraycards i 1 ≥ 5 then flushPerm (suitCards arraycards i) 5 0 [] perm else perm) []
  perm.foldlM (fun retcards v => do
    let (straight, v) ← isPTStraight s v
    return retcards ++ [⟨v, if straight then PT_STRAIGHT_FLUSH else PT_FLUSH⟩]) retcards

/-- `StraightPerm`, with `left` cards to come after the next one, which is card number
`curnum` from `start`. -/
def straightPerm (arraycards : ArrayCards) (start : ℤ) :
    ℕ → ℕ → List Card → List (List Card) → List (List Card)
  | 0, curnum, getcards, allperm =>
    suits.foldl (fun allperm i =>
      if arraycards i (start + curnum) ≠ 0 then
        allperm ++ [getcards ++ [⟨start + curnum, i⟩]]
      else allperm) allperm
  | left + 1, curnum, getcards, allperm =>
    suits.foldl (fun allperm i =>
      if arraycards i (start + curnum) ≠ 0 then
        straightPerm arraycards start left (curnum + 1) (getcards ++ [⟨start + curnum, i⟩])
          allperm
      else allperm) allperm

/-- The variables of the loop of `GetStraight`. -/
structure Straights where
  sign1 : ℤ
  sign2 : ℤ
  perm : List (List Card)

/-- One round: `sign1` and `sign2` are the ends of the points that follow each other. -/
def straightRound (arraycards : ArrayCards) (r : Straights) (i : ℤ) : Straights :=
  if arraycards 5 i ≠ 0 then
    let r : Straights := if r.sign1 = 0 then { r with sign1 := i } else { r with sign2 := i }
    if r.sign2 - r.sign1 + 1 ≥ 5 then
      let starts := (List.range (Int.toNat (r.sign2 - 5 + 1 - r.sign1 + 1))).map fun j : ℕ =>
        r.sign1 + (j : ℤ)
      { r with
        sign1 := r.sign1 + 1
        perm := starts.foldl (fun perm j => straightPerm arraycards j 4 0 [] perm) r.perm }
    else r
  else { r with sign1 := 0, sign2 := 0 }

/-- The card of point `i` of the first suit that has one. -/
def firstOfSuits (arraycards : ArrayCards) (i : ℤ) : Option Card :=
  (suits.find? fun j => arraycards j i ≠ 0).map fun j => ⟨i, j⟩

/-- The straight from the ace to the five. -/
def lowStraight (arraycards : ArrayCards) (perm : List (List Card)) : List (List Card) :=
  if arraycards 5 2 ≠ 0 ∧ arraycards 5 14 ≠ 0 ∧ arraycards 5 3 ≠ 0 ∧ arraycards 5 4 ≠ 0 ∧
      arraycards 5 5 ≠ 0 then
    let c1 := ([2, 3, 4, 5] : List ℤ).filterMap (firstOfSuits arraycards)
    match firstOfSuits arraycards 14 with
    | some ace =>
      let c1 := c1 ++ [ace]
      if c1.length = 5 then perm ++ [c1] else perm
    | none => perm
  else perm

def getStraight (arraycards : ArrayCards) (retcards : List CardsType) : Option (List CardsType) :=
  let found := points.foldl (straightRound arraycards) ⟨0, 0, []⟩
  (lowStraight arraycards found.perm).foldlM (fun retcards v => do
    let flush ← isPTFlush v
    return retcards ++ [⟨v, if flush then PT_STRAIGHT_FLUSH else PT_STRAIGHT⟩]) retcards

def getFiveCards (s : KeySort Card) (cards : List Card) (retcards : List CardsType) :
    Option (List CardsType) := do
  if ¬ cards.length ≥ 5 then
    none
  let ac ← adjustCards cards
  let retcards ← getTypeForPoint ac retcards
  let retcards ← getTypeForSuit s ac retcards
  getStraight ac retcards

/-! ## An arrangement -/

/-- `num` cards are there in the end, as far as `scards` has them. -/
def supplyCards (scards rcards : List Card) (num : ℕ) : List Card × List Card :=
  (scards.drop (num - rcards.length), rcards ++ scards.take (num - rcards.length))

/-- The groups of `GetThreeCards` in the order of its loop. -/
def firstGroups (permcards : Devided) : List (List Card) :=
  (([3, 4, 5, 6, 7, 8] : List ℕ).map permcards).find? (fun groups => groups ≠ []) |>.getD []

/-- With no two cards of a point `retcards` stays as it was: only a local variable is set. -/
def getThreeCards (cards : List Card) (retcards : CardsType) : Option CardsType := do
  let ac ← adjustCards cards
  let permcards := devideCards ac
  match (firstGroups permcards).getLast? with
  | some group => return ⟨group.take 3, PT_THREE⟩
  | none =>
    match permcards 2 with
    | pair :: _ => return ⟨pair, PT_PAIR⟩
    | [] => return retcards

/-- Whether an arrangement is legal, and the arrangement as the checks leave its cards. -/
def isRightCardsType (s : KeySort Card) (ct : CardsTypes) : Option (Bool × CardsTypes) := do
  let (type, c1) ← getThreeCardsType s ct.firstcards
  let ct := { ct with firstcards := c1 }
  if ct.firsttype ≠ type then
    return (false, ct)
  let (type, c2) ← getFiveCardsType s ct.seccards
  let ct := { ct with seccards := c2 }
  if ct.sectype ≠ type then
    return (false, ct)
  let (type, c3) ← getFiveCardsType s ct.thirdcards
  let ct := { ct with thirdcards := c3 }
  if ct.thirdtype ≠ type then
    return (false, ct)
  let (result, c3, c2) ← compareCards s ct.thirdcards ct.thirdtype ct.seccards ct.sectype
  let ct := { ct with thirdcards := c3, seccards := c2 }
  if ¬ result ≥ 0 then
    return (false, ct)
  let (result, _, c1) ← compareCards s (ct.seccards.take 3) ct.sectype ct.firstcards ct.firsttype
  return (result ≥ 0, { ct with firstcards := c1 })

def checkCardsTypes (s : KeySort Card) (alltypes righttypes : List CardsTypes) :
    Option (List CardsTypes) :=
  alltypes.foldlM (fun righttypes v => do
    let (right, v) ← isRightCardsType s v
    return if right then righttypes ++ [v] else righttypes) righttypes

def getScore (type : ℤ) (addr : ℕ) : ℤ :=
  if addr = 1 then
    if type = PT_THREE then 1 + FIRST_PT_THREE else 1
  else if addr = 2 then
    if type = PT_FULL_HOUSE then 1 + SEC_PT_FULL_HOUSE
    else if type = PT_FOUR then 1 + SEC_PT_FOUR
    else if type = PT_STRAIGHT_FLUSH then 1 + SEC_PT_STRAIGHT_FLUSH
    else if type = PT_FIVE then 1 + SEC_PT_FIVE
    else 1
  else if addr = 3 then
    if type = PT_FOUR then 1 + THIRD_PT_FOUR
    else if type = PT_STRAIGHT_FLUSH then 1 + THIRD_PT_STRAIGHT_FLUSH
    else if type = PT_FIVE then 1 + THIRD_PT_FIVE
    else 1
  else 1

/-- What an arrangement scores in `SortCardTypes`. -/
def CardsTypes.score (ct : CardsTypes) : ℤ :=
  ct.firsttype + ct.sectype + ct.thirdtype + getScore ct.firsttype 1 + getScore ct.sectype 2
    + getScore ct.thirdtype 3

def sortCardTypes (ct1 ct2 : CardsTypes) : Bool :=
  if ct1.score = ct2.score then ct1.thirdtype > ct2.thirdtype else ct1.score > ct2.score

/-- The inner rounds of `GetTopNPokerType`, for the cards `v` of the third hand; `c1` are the
cards without them. -/
def arrangeSecond (c1 : List Card) (v : CardsType) (alltypes : List CardsTypes) (j : CardsType) :
    Option (List CardsTypes) := do
  if v.type ≥ j.type then
    let c2 := disCards (copyCards c1 []) j.cards
    let firstct ← getThreeCards c2 ⟨[], 0⟩
    let firsttype := if firstct.type = 0 then PT_SINGLE else firstct.type
    let c2 := disCards c2 firstct.cards
    let (c2, firstcards) := supplyCards c2 firstct.cards 3
    let (c2, seccards) := supplyCards c2 j.cards 5
    let (_, thirdcards) := supplyCards c2 v.cards 5
    return alltypes ++ [⟨thirdcards, v.type, seccards, j.type, firstcards, firsttype⟩]
  else return alltypes

def getTopNPokerType (s : KeySort Card) (byScore : CompareSort CardsTypes) (cards : List Card)
    (n : ℤ) (rettypes : List CardsTypes) : Option (List CardsTypes) := do
  let thirdct ← getFiveCards s cards []
  let alltypes ← thirdct.foldlM (fun alltypes v => do
    let c1 := disCards (copyCards cards []) v.cards
    let secct ← getFiveCards s c1 []
    secct.foldlM (arrangeSecond c1 v) alltypes) []
  let righttypes ← checkCardsTypes s alltypes []
  let righttypes := byScore.sort sortCardTypes righttypes
  let num := if n > righttypes.length then (righttypes.length : ℤ) else n
  return rettypes ++ righttypes.take num.toNat

/-! ## Cards of the hand -/

/-- At most five cards of the hand. -/
structure Candidate (cards : List Card) (ct : CardsType) : Prop where
  sub : ct.cards.Subperm cards
  size : ct.cards.length ≤ 5

section Candidates

variable {cards : List Card} {a : ArrayCards}

/-- The groups of different points are apart. -/
theorem Counted.groups_subperm (h : Counted cards a) {ks : List ℤ} (hks : ks.Nodup)
    (hsub : ∀ k ∈ ks, k ∈ points) : (ks.flatMap (pointCards a)).Subperm cards := by
  refine Multiset.coe_le.mp ?_
  have hparts : ks.map (fun k => (pointCards a k : Multiset Card)) =
      ks.map (part Card.point (cards : Multiset Card)) :=
    List.map_congr_left fun k hk => h.counts.pointCards_eq h.deck (hsub k hk)
  rw [coe_flatMap, hparts]
  exact sum_part_le _ _ hks

theorem Counted.group (h : Counted cards a) {n : ℕ} (hn : 1 ≤ n) {v : List Card}
    (hv : v ∈ devideCards a n) :
    ∃ k ∈ points, a 5 k = n ∧ v = pointCards a k ∧ v.Subperm cards ∧ v.length = n := by
  rw [devideCards_eq a hn] at hv
  obtain ⟨k, hk, rfl⟩ := List.mem_map.mp hv
  obtain ⟨hk, hcount⟩ := List.mem_filter.mp hk
  have hcount : a 5 k = n := of_decide_eq_true hcount
  refine ⟨k, hk, hcount, rfl, ?_, (h.length_pointCards hk).trans hcount⟩
  simpa using h.groups_subperm (List.nodup_singleton k) fun _ hk' => List.mem_singleton.mp hk' ▸ hk

/-- Two groups of different points. -/
theorem Counted.two_groups (h : Counted cards a) {k k' : ℤ} (hne : k ≠ k') (hk : k ∈ points)
    (hk' : k' ∈ points) : (pointCards a k ++ pointCards a k').Subperm cards := by
  have hsub : ([k, k'].flatMap (pointCards a)).Subperm cards :=
    h.groups_subperm (by simp [hne]) fun x hx => by
      rcases List.mem_cons.mp hx with rfl | hx
      · exact hk
      · rwa [List.mem_singleton.mp hx]
  simpa using hsub

/-- Groups with one number of cards, at different positions. -/
theorem Counted.two_of_entry (h : Counted cards a) {n : ℕ} (hn : 1 ≤ n) {i k : ℕ} (hik : k ≠ i)
    {v j : List Card} (hv : (devideCards a n)[k]? = some v) (hj : (devideCards a n)[i]? = some j) :
    (v ++ j).Subperm cards ∧ v.length = n ∧ j.length = n := by
  rw [devideCards_eq a hn, List.getElem?_map] at hv hj
  obtain ⟨p, hp, rfl⟩ := Option.map_eq_some_iff.mp hv
  obtain ⟨q, hq, rfl⟩ := Option.map_eq_some_iff.mp hj
  obtain ⟨hp', hpn⟩ := List.mem_filter.mp (List.mem_of_getElem? hp)
  obtain ⟨hq', hqn⟩ := List.mem_filter.mp (List.mem_of_getElem? hq)
  have hne : p ≠ q := by
    rintro rfl
    obtain ⟨hi, hpi⟩ := List.getElem?_eq_some_iff.mp hp
    obtain ⟨hk, hpk⟩ := List.getElem?_eq_some_iff.mp hq
    exact hik ((points_nodup.filter _).getElem_inj_iff.mp (hpi.trans hpk.symm))
  exact ⟨h.two_groups hne hp' hq', (h.length_pointCards hp').trans (of_decide_eq_true hpn),
    (h.length_pointCards hq').trans (of_decide_eq_true hqn)⟩

/-- Some group is there, and it has at most four cards. -/
theorem Counted.some_group (h : Counted cards a) (hne : cards ≠ []) :
    devideCards a 1 ≠ [] ∨ devideCards a 2 ≠ [] ∨ devideCards a 3 ≠ [] ∨ devideCards a 4 ≠ [] := by
  obtain ⟨c, hc⟩ := List.exists_mem_of_ne_nil _ hne
  have hpoint := mem_points.mpr (h.deck c hc).point
  have hle := h.le_four hpoint
  have hpos : 1 ≤ a 5 c.point := by
    rw [h.counts.point _ hpoint]
    exact List.countP_pos_iff.mpr ⟨c, hc, by simp⟩
  have hmem : devideCards a (a 5 c.point) ≠ [] := by
    rw [devideCards_eq a hpos]
    refine List.ne_nil_of_mem (List.mem_map_of_mem (List.mem_filter.mpr ⟨hpoint, ?_⟩))
    simp
  have hcases : a 5 c.point = 1 ∨ a 5 c.point = 2 ∨ a 5 c.point = 3 ∨ a 5 c.point = 4 := by omega
  rcases hcases with heq | heq | heq | heq <;> rw [heq] at hmem
  · exact .inl hmem
  · exact .inr (.inl hmem)
  · exact .inr (.inr (.inl hmem))
  · exact .inr (.inr (.inr hmem))

/-- New candidates beside the old ones. -/
theorem candidates_append {retcards new : List CardsType}
    (hret : ∀ ct ∈ retcards, Candidate cards ct) (hnew : ∀ ct ∈ new, Candidate cards ct) :
    ∀ ct ∈ retcards ++ new, Candidate cards ct :=
  fun ct hct => (List.mem_append.mp hct).elim (hret ct) (hnew ct)

/-- The points always offer a candidate. -/
theorem Counted.getTypeForPoint (h : Counted cards a) (hne : cards ≠ []) {retcards : List CardsType}
    (hret : ∀ ct ∈ retcards, Candidate cards ct) :
    Returns (getTypeForPoint a retcards) fun r => ∀ ct ∈ r, Candidate cards ct := by
  have hgroup : ∀ {n : ℕ} {v : List Card} (type : ℤ), 1 ≤ n → n ≤ 5 → v ∈ devideCards a n →
      Candidate cards ⟨v, type⟩ := by
    intro n v type hn hn5 hv
    obtain ⟨-, -, -, -, hsub, hlen⟩ := h.group hn hv
    exact ⟨hsub, hlen.trans_le hn5⟩
  unfold Poker.getTypeForPoint
  simp only
  split
  · -- five of a kind
    refine Returns.some (candidates_append hret fun ct hct => ?_)
    obtain ⟨i, hi, hct⟩ := List.mem_flatMap.mp hct
    obtain ⟨v, hv, rfl⟩ := List.mem_map.mp hct
    have hpos : 1 ≤ i := by
      simp only [List.mem_cons, List.not_mem_nil, or_false] at hi
      omega
    obtain ⟨-, -, -, -, hsub, -⟩ := h.group hpos hv
    exact ⟨(List.take_sublist 5 v).subperm.trans hsub, List.length_take_le 5 v⟩
  split
  · -- four of a kind
    refine Returns.some (candidates_append hret fun ct hct => ?_)
    obtain ⟨v, hv, rfl⟩ := List.mem_map.mp hct
    exact hgroup PT_FOUR (by decide) (by decide) hv
  split
  · -- three of a kind with a pair, or with two of another three
    refine Returns.some (candidates_append hret fun ct hct => ?_)
    obtain ⟨⟨v, k⟩, hvk, hct⟩ := List.mem_flatMap.mp hct
    have hv : (devideCards a 3)[k]? = some v := List.mem_zipIdx_iff_getElem?.mp hvk
    simp only at hct
    split at hct
    · obtain ⟨j, hj, rfl⟩ := List.mem_map.mp hct
      obtain ⟨p, hp, hp3, rfl, -, hlen⟩ := h.group (by decide) (List.mem_of_getElem? hv)
      obtain ⟨q, hq, hq2, rfl, -, hlen'⟩ := h.group (by decide) hj
      have hpq : p ≠ q := by
        rintro rfl
        omega
      refine ⟨h.two_groups hpq hp hq, ?_⟩
      simp only [addCards, List.length_append]
      omega
    · obtain ⟨⟨j, i⟩, hji, rfl⟩ := List.mem_map.mp hct
      obtain ⟨hji, hki⟩ := List.mem_filter.mp hji
      have hj : (devideCards a 3)[i]? = some j := List.mem_zipIdx_iff_getElem?.mp hji
      obtain ⟨hsub, hlen, hlen'⟩ := h.two_of_entry (by decide) (of_decide_eq_true hki) hv hj
      refine ⟨((List.take_sublist 2 j).append_left v).subperm.trans hsub, ?_⟩
      simp only [List.length_append, List.length_take]
      omega
  split
  · -- three of a kind
    refine Returns.some (candidates_append hret fun ct hct => ?_)
    obtain ⟨v, hv, rfl⟩ := List.mem_map.mp hct
    exact hgroup PT_THREE (by decide) (by decide) hv
  split
  · -- one pair
    rename_i pair hpair
    refine Returns.some (candidates_append hret fun ct hct => ?_)
    obtain rfl := List.mem_singleton.mp hct
    exact hgroup PT_PAIR (by decide) (by decide) (hpair ▸ List.mem_cons_self)
  · -- the highest and the lowest pair
    rename_i low rest hone hpairs
    refine Returns.some (candidates_append hret fun ct hct => ?_)
    obtain rfl := List.mem_singleton.mp hct
    obtain ⟨high, hhigh⟩ : ∃ high, rest.getLast? = some high :=
      Option.isSome_iff_exists.mp (List.getLast?_isSome.mpr hone)
    have hlow : (devideCards a 2)[0]? = some low := by rw [hpairs]; rfl
    have hlast : (devideCards a 2)[rest.length]? = some high := by
      rw [hpairs]
      cases rest with
      | nil => cases hhigh
      | cons c rest => exact List.getLast?_eq_getElem?.symm.trans hhigh
    have hpos : rest.length ≠ 0 := fun hzero => by
      rw [List.length_eq_zero_iff.mp hzero] at hhigh
      cases hhigh
    obtain ⟨hsub, hlen, hlen'⟩ := h.two_of_entry (by decide) hpos hlast hlow
    have hget : rest.getLastD low = high := by rw [List.getLastD_eq_getLast?, hhigh]; rfl
    rw [hget]
    refine ⟨hsub, ?_⟩
    simp only [addCards, List.length_append]
    omega
  · -- nothing but single cards
    rename_i hfour _ hthree _ hpairs
    obtain ⟨high, hhigh⟩ : ∃ high, (devideCards a 1).getLast? = some high := by
      refine Option.isSome_iff_exists.mp (List.getLast?_isSome.mpr ?_)
      rcases h.some_group hne with hone | htwo | hthree' | hfour'
      · exact hone
      · exact absurd hpairs htwo
      · exact absurd hthree' hthree
      · exact absurd hfour' hfour
    rw [hhigh]
    refine Returns.some (candidates_append hret fun ct hct => ?_)
    obtain rfl := List.mem_singleton.mp hct
    exact hgroup PT_SINGLE (by decide) (by decide) (List.mem_of_getLast? hhigh)

end Candidates

/-! ## Flushes and straights of the hand -/

/-- What is added to the list are the cards taken so far with others in order. -/
theorem mem_flushLoop {num : ℕ} : ∀ {cards : List Card} {rounds curnum : ℕ}
    {getcards : List Card} {allperm : List (List Card)}, curnum < num →
    ∀ gc ∈ flushLoop num cards rounds curnum getcards allperm,
      gc ∈ allperm ∨ ∃ t, gc = getcards ++ t ∧ t.Sublist cards ∧ curnum + t.length = num
  | [], _, _, _, _, _, gc, hgc => .inl (by simpa only [flushLoop] using hgc)
  | _ :: _, 0, _, _, _, _, gc, hgc => .inl (by simpa only [flushLoop] using hgc)
  | c :: c1, rounds + 1, curnum, getcards, allperm, hlt, gc, hgc => by
    rw [flushLoop] at hgc
    rcases mem_flushLoop hlt gc hgc with hgc | ⟨t, hgc, ht, hlen⟩
    · by_cases hlast : curnum + 1 = num
      · rw [if_pos hlast] at hgc
        rcases List.mem_append.mp hgc with hgc | hgc
        · exact .inl hgc
        · refine .inr ⟨[c], List.mem_singleton.mp hgc, ?_, hlast⟩
          exact List.singleton_sublist.mpr List.mem_cons_self
      · rw [if_neg hlast] at hgc
        rcases mem_flushLoop (by omega) gc hgc with hgc | ⟨t, hgc, ht, hlen⟩
        · exact .inl hgc
        · refine .inr ⟨c :: t, by rw [hgc, List.append_assoc]; rfl, ht.cons_cons c, ?_⟩
          rw [List.length_cons]
          omega
    · exact .inr ⟨t, hgc, ht.cons c, hlen⟩

section Found

variable {cards : List Card} {a : ArrayCards} (s : KeySort Card)

/-- Five cards of the hand. -/
structure FiveCards (cards v : List Card) : Prop where
  sub : v.Subperm cards
  size : v.length = 5

theorem FiveCards.ne_nil {v : List Card} (h : FiveCards cards v) : v ≠ [] := by
  rw [← List.length_pos_iff, h.size]
  decide

theorem Counted.getTypeForSuit (h : Counted cards a) {retcards : List CardsType}
    (hret : ∀ ct ∈ retcards, Candidate cards ct) :
    Returns (getTypeForSuit s a retcards) fun r => ∀ ct ∈ r, Candidate cards ct := by
  unfold Poker.getTypeForSuit
  simp only
  have hperm : ∀ v ∈ suits.foldl (fun perm i =>
      if a i 1 ≥ 5 then flushPerm (suitCards a i) 5 0 [] perm else perm) [], FiveCards cards v := by
    refine List.foldlRecOn suits _ (motive := fun perm => ∀ v ∈ perm, FiveCards cards v)
      (fun v hv => absurd hv List.not_mem_nil) fun perm hperm i hi => ?_
    split
    · intro v hv
      rcases mem_flushLoop (by decide) v hv with hv | ⟨t, rfl, ht, hlen⟩
      · exact hperm v hv
      · exact ⟨ht.subperm.trans (h.suitCards_subperm hi), by omega⟩
    · exact hperm
  refine Returns.foldlM (I := fun r => ∀ ct ∈ r, Candidate cards ct) (fun v hv ret hret => ?_) hret
  have hfive := hperm v hv
  refine (isPTStraight_spec s hfive.ne_nil fun c hc => h.deck c (hfive.sub.subset hc)).bind ?_
  rintro ⟨straight, v'⟩ ⟨rfl, -⟩
  refine Returns.pure (candidates_append hret fun ct hct => ?_)
  obtain rfl := List.mem_singleton.mp hct
  exact ⟨(s.perm _ v).subperm.trans hfive.sub, ((s.length_sort _ v).trans hfive.size).le⟩

/-- Cards in the counts whose points follow each other from `start`. -/
structure Rising (a : ArrayCards) (start : ℤ) (t : List Card) : Prop where
  points : t.map Card.point = (List.range t.length).map fun k : ℕ => start + k
  counted : ∀ c ∈ t, c.suit ∈ suits ∧ a c.suit c.point ≠ 0

theorem Rising.concat {start : ℤ} {t : List Card} (h : Rising a start t) {i : ℤ} (hi : i ∈ suits)
    (hcell : a i (start + t.length) ≠ 0) : Rising a start (t ++ [⟨start + t.length, i⟩]) := by
  refine ⟨?_, fun c hc => ?_⟩
  · rw [List.map_append, h.points, List.length_append, List.length_singleton, List.range_succ,
      List.map_append, List.map_singleton, List.map_singleton]
  · rcases List.mem_append.mp hc with hc | hc
    · exact h.counted c hc
    · obtain rfl := List.mem_singleton.mp hc
      exact ⟨hi, hcell⟩

/-- Cards whose points follow each other are different cards of the hand. -/
theorem Counted.rising (h : Counted cards a) {start : ℤ} {t : List Card} (ht : Rising a start t)
    (hlen : t.length = 5) (hlow : 2 ≤ start) (hhigh : start + 4 ≤ 14) : FiveCards cards t := by
  have hnodup : (t.map Card.point).Nodup := by
    rw [ht.points]
    refine List.nodup_range.map fun i j hij => ?_
    omega
  refine ⟨(hnodup.of_map _).subperm fun c hc => ?_, hlen⟩
  obtain ⟨hsuit, hcell⟩ := ht.counted c hc
  have hmem : c.point ∈ t.map Card.point := List.mem_map_of_mem hc
  rw [ht.points, hlen] at hmem
  obtain ⟨i, hi, hp⟩ := List.mem_map.mp hmem
  have hi := List.mem_range.mp hi
  exact h.mem hsuit (mem_points.mpr (by omega)) hcell

/-- `StraightPerm` adds cards whose points follow those taken so far. -/
theorem straightPerm_spec {start : ℤ} {P : List Card → Prop} : ∀ {left : ℕ} {getcards : List Card}
    {allperm : List (List Card)}, Rising a start getcards →
    (∀ gc, Rising a start gc → gc.length = getcards.length + left + 1 → P gc) →
    (∀ gc ∈ allperm, P gc) →
    ∀ gc ∈ straightPerm a start left getcards.length getcards allperm, P gc
  | 0, getcards, allperm, htaken, hP, hall => by
    rw [straightPerm]
    refine List.foldlRecOn suits _ (motive := fun allperm => ∀ gc ∈ allperm, P gc) hall
      fun allperm hall i hi => ?_
    split
    · rename_i hcell
      intro gc hgc
      rcases List.mem_append.mp hgc with hgc | hgc
      · exact hall gc hgc
      · obtain rfl := List.mem_singleton.mp hgc
        exact hP _ (htaken.concat hi hcell) (by simp)
    · exact hall
  | left + 1, getcards, allperm, htaken, hP, hall => by
    rw [straightPerm]
    refine List.foldlRecOn suits _ (motive := fun allperm => ∀ gc ∈ allperm, P gc) hall
      fun allperm hall i hi => ?_
    split
    · rename_i hcell
      have hnext := htaken.concat hi hcell
      have hlen : (getcards ++ [(⟨start + getcards.length, i⟩ : Card)]).length =
          getcards.length + 1 := by simp
      rw [← hlen]
      refine straightPerm_spec hnext (fun gc hgc hsize => hP gc hgc ?_) hall
      omega
    · exact hall

/-- The runs of points lie in the table, and the straights found are of the hand. -/
structure RunsWell (cards : List Card) (r : Straights) : Prop where
  sign1 : r.sign1 = 0 ∨ 2 ≤ r.sign1
  sign2 : r.sign2 ≤ 14
  perm : ∀ v ∈ r.perm, FiveCards cards v

theorem Counted.straightRound (h : Counted cards a) {r : Straights} (hr : RunsWell cards r) {i : ℤ}
    (hi : i ∈ points) : RunsWell cards (straightRound a r i) := by
  have hi := mem_points.mp hi
  have h1 := hr.sign1
  have h2 := hr.sign2
  unfold Poker.straightRound
  split
  · simp only
    generalize hr' : (if r.sign1 = 0 then { r with sign1 := i } else { r with sign2 := i } :
      Straights) = r'
    have hlow : 2 ≤ r'.sign1 ∧ r'.sign2 ≤ 14 ∧ r'.perm = r.perm := by
      rw [← hr']
      split
      · exact ⟨hi.1, h2, rfl⟩
      · rename_i hne
        exact ⟨h1.resolve_left hne, hi.2, rfl⟩
    obtain ⟨hlow, hhigh, hperm⟩ := hlow
    split
    · refine ⟨.inr (show 2 ≤ r'.sign1 + 1 by omega), hhigh, ?_⟩
      refine List.foldlRecOn _ _ (motive := fun perm => ∀ v ∈ perm, FiveCards cards v)
        (hperm ▸ hr.perm) fun perm hperm j hj => ?_
      obtain ⟨k, hk, rfl⟩ := List.mem_map.mp hj
      have hk := List.mem_range.mp hk
      have hnil : Rising a (r'.sign1 + (k : ℤ)) [] := ⟨rfl, fun c hc => absurd hc List.not_mem_nil⟩
      exact straightPerm_spec hnil (fun gc hgc hlen => h.rising hgc hlen (by omega) (by omega))
        hperm
    · exact ⟨.inr hlow, hhigh, hperm ▸ hr.perm⟩
  · exact ⟨.inl rfl, (by decide : (0 : ℤ) ≤ 14), hr.perm⟩

theorem firstOfSuits_some {i : ℤ} {c : Card} (h : firstOfSuits a i = some c) :
    c.point = i ∧ c.suit ∈ suits ∧ a c.suit c.point ≠ 0 := by
  obtain ⟨j, hj, rfl⟩ := Option.map_eq_some_iff.mp h
  have hcell := List.find?_some hj
  exact ⟨rfl, List.mem_of_find?_eq_some hj, of_decide_eq_true hcell⟩

/-- The straight from the ace has five cards of different points. -/
theorem Counted.lowStraight (h : Counted cards a) {perm : List (List Card)}
    (hperm : ∀ v ∈ perm, FiveCards cards v) : ∀ v ∈ lowStraight a perm, FiveCards cards v := by
  unfold Poker.lowStraight
  split
  · simp only
    split
    · rename_i ace hace
      split
      · rename_i hlen
        intro v hv
        rcases List.mem_append.mp hv with hv | hv
        · exact hperm v hv
        obtain rfl := List.mem_singleton.mp hv
        have htaken : ([2, 3, 4, 5] : List ℤ).filterMap (firstOfSuits a) ++ [ace] =
            ([2, 3, 4, 5] ++ [14] : List ℤ).filterMap (firstOfSuits a) := by
          rw [List.filterMap_append, List.filterMap_cons_some hace, List.filterMap_nil]
        rw [htaken] at hlen ⊢
        have hpoints : ∀ is : List ℤ,
            ((is.filterMap (firstOfSuits a)).map Card.point).Sublist is := by
          intro is
          induction is with
          | nil => exact List.Sublist.refl _
          | cons i is ih =>
            cases hi : firstOfSuits a i with
            | none =>
              rw [List.filterMap_cons_none hi]
              exact ih.cons i
            | some c =>
              rw [List.filterMap_cons_some hi, List.map_cons, (firstOfSuits_some hi).1]
              exact ih.cons_cons i
        have hnodup := (hpoints ([2, 3, 4, 5] ++ [14])).nodup (by decide)
        refine ⟨(hnodup.of_map _).subperm fun c hc => ?_, hlen⟩
        obtain ⟨i, hi, hc⟩ := List.mem_filterMap.mp hc
        obtain ⟨hp, hs, hcell⟩ := firstOfSuits_some hc
        have hpoint : c.point ∈ points := by
          rw [hp]
          exact (by decide : ([2, 3, 4, 5] ++ [14] : List ℤ) ⊆ points) hi
        exact h.mem hs hpoint hcell
      · exact hperm
    · exact hperm
  · exact hperm

theorem Counted.getStraight (h : Counted cards a) {retcards : List CardsType}
    (hret : ∀ ct ∈ retcards, Candidate cards ct) :
    Returns (getStraight a retcards) fun r => ∀ ct ∈ r, Candidate cards ct := by
  unfold Poker.getStraight
  simp only
  have hruns : RunsWell cards (points.foldl (Poker.straightRound a) ⟨0, 0, []⟩) :=
    List.foldlRecOn points _ (motive := RunsWell cards)
      ⟨.inl rfl, (by decide : (0 : ℤ) ≤ 14), fun v hv => absurd hv List.not_mem_nil⟩
      fun r hr i hi => h.straightRound hr hi
  refine Returns.foldlM (I := fun r => ∀ ct ∈ r, Candidate cards ct) (fun v hv ret hret => ?_) hret
  have hfive := h.lowStraight hruns.perm v hv
  obtain ⟨flush, hflush, -⟩ := isPTFlush_eq hfive.ne_nil
  rw [hflush]
  refine Returns.pure (candidates_append hret fun ct hct => ?_)
  obtain rfl := List.mem_singleton.mp hct
  exact ⟨hfive.sub, hfive.size.le⟩

/-- What is found for a hand of five is cards of the hand, and something is found. -/
theorem getFiveCards_spec (hsize : 5 ≤ cards.length) (hn : cards.Nodup)
    (hd : ∀ c ∈ cards, c.InDeck) :
    Returns (getFiveCards s cards []) fun r => ∀ ct ∈ r, Candidate cards ct := by
  obtain ⟨a, ha, hcounts⟩ := adjustCards_counts hd
  have h : Counted cards a := ⟨hn, hd, hcounts⟩
  have hne : cards ≠ [] := by
    rw [← List.length_pos_iff]
    omega
  unfold getFiveCards
  rw [if_neg (not_not.mpr hsize), ha]
  refine (h.getTypeForPoint hne fun ct hct => absurd hct List.not_mem_nil).bind fun r hr => ?_
  exact (h.getTypeForSuit s hr).bind fun r hr => h.getStraight hr

end Found

/-! ## Dealing the cards out -/

section Dealing

variable {cards : List Card} (s : KeySort Card)

theorem getThreeCards_spec (hn : cards.Nodup) (hd : ∀ c ∈ cards, c.InDeck) :
    Returns (getThreeCards cards ⟨[], 0⟩) fun r => r.cards.Subperm cards ∧ r.cards.length ≤ 3 := by
  obtain ⟨a, ha, hcounts⟩ := adjustCards_counts hd
  have h : Counted cards a := ⟨hn, hd, hcounts⟩
  unfold getThreeCards
  rw [ha]
  simp only [Option.bind_eq_bind, Option.bind_some]
  split
  · -- three cards of the last group
    rename_i group hgroup
    have hmem : group ∈ firstGroups (devideCards a) := List.mem_of_getLast? hgroup
    unfold firstGroups at hmem
    cases hfind : (([3, 4, 5, 6, 7, 8] : List ℕ).map (devideCards a)).find?
      fun groups => groups ≠ [] with
    | none =>
      rw [hfind] at hmem
      exact absurd hmem List.not_mem_nil
    | some groups =>
      rw [hfind] at hmem
      obtain ⟨n, hn, rfl⟩ := List.mem_map.mp (List.mem_of_find?_eq_some hfind)
      have hpos : 1 ≤ n := by
        simp only [List.mem_cons, List.not_mem_nil, or_false] at hn
        omega
      obtain ⟨-, -, -, -, hsub, -⟩ := h.group hpos hmem
      exact Returns.pure ⟨(List.take_sublist 3 group).subperm.trans hsub,
        List.length_take_le 3 group⟩
  · split
    · rename_i pair rest hpair
      have hmem : pair ∈ devideCards a 2 := hpair ▸ List.mem_cons_self
      obtain ⟨-, -, -, -, hsub, hlen⟩ := h.group (by decide) hmem
      exact Returns.pure ⟨hsub, hlen.trans_le (by decide)⟩
    · exact Returns.pure ⟨List.nil_subperm, Nat.zero_le 3⟩

/-- The cards are dealt out into three hands. -/
structure DealtOut (cards : List Card) (ct : CardsTypes) : Prop where
  all : (ct.thirdcards : Multiset Card) + ct.seccards + ct.firstcards = cards
  third : ct.thirdcards.length = 5
  second : ct.seccards.length = 5
  first : ct.firstcards.length = 3

/-- Cards go from the rest to the hand until it is full. -/
theorem supplyCards_spec (scards : List Card) {rcards : List Card} {num : ℕ}
    (hle : rcards.length ≤ num) (henough : num ≤ rcards.length + scards.length) :
    (supplyCards scards rcards num).2.length = num ∧
      (supplyCards scards rcards num).1.length + num = scards.length + rcards.length ∧
      ((supplyCards scards rcards num).1 : Multiset Card) + (supplyCards scards rcards num).2 =
        (scards : Multiset Card) + rcards := by
  unfold supplyCards
  refine ⟨?_, ?_, ?_⟩
  · rw [List.length_append, List.length_take]
    omega
  · rw [List.length_drop]
    omega
  · have hsplit : ((scards.take (num - rcards.length) : List Card) : Multiset Card) +
        (scards.drop (num - rcards.length) : List Card) = scards := by
      rw [Multiset.coe_add, List.take_append_drop]
    simp only
    rw [← Multiset.coe_add, ← hsplit]
    abel

theorem arrangeSecond_spec (hsize : cards.length = 13) (hn : cards.Nodup)
    (hd : ∀ c ∈ cards, c.InDeck) {c1 : List Card} {v j : CardsType} (hv : v.cards.length ≤ 5)
    (hc1 : (v.cards : Multiset Card) + c1 = cards) (hj : Candidate c1 j)
    {alltypes : List CardsTypes} (hall : ∀ ct ∈ alltypes, DealtOut cards ct) :
    Returns (arrangeSecond c1 v alltypes j) fun r => ∀ ct ∈ r, DealtOut cards ct := by
  unfold arrangeSecond
  by_cases htype : v.type ≥ j.type
  · rw [if_pos htype]
    simp only [copyCards]
    have hc2 := disCards_add hj.sub
    generalize disCards c1 j.cards = c2 at *
    have hle : (c2 : Multiset Card) ≤ cards := by
      rw [← hc1, ← hc2]
      exact (Multiset.le_add_left _ _).trans (Multiset.le_add_left _ _)
    have hsub : c2.Subperm cards := Multiset.coe_le.mp hle
    have hn2 : c2.Nodup := Multiset.nodup_of_le hle hn
    refine (getThreeCards_spec hn2 fun c hc => hd c (hsub.subset hc)).bind ?_
    rintro firstct ⟨hfirst, hlen⟩
    have hc3 := disCards_add hfirst
    generalize disCards c2 firstct.cards = c3 at *
    have hcount1 := congrArg Multiset.card hc1
    have hcount2 := congrArg Multiset.card hc2
    have hcount3 := congrArg Multiset.card hc3
    simp only [Multiset.card_add, Multiset.coe_card] at hcount1 hcount2 hcount3
    have hj5 := hj.size
    obtain ⟨hlen1, hrest1, hsum1⟩ := supplyCards_spec c3 hlen (by omega)
    generalize supplyCards c3 firstct.cards 3 = filled1 at *
    obtain ⟨rest1, firstcards⟩ := filled1
    obtain ⟨hlen2, hrest2, hsum2⟩ := supplyCards_spec rest1 hj5 (by simp only at hrest1; omega)
    generalize supplyCards rest1 j.cards 5 = filled2 at *
    obtain ⟨rest2, seccards⟩ := filled2
    obtain ⟨hlen3, hrest3, hsum3⟩ := supplyCards_spec rest2 hv
      (by simp only at hrest1 hrest2; omega)
    generalize supplyCards rest2 v.cards 5 = filled3 at *
    obtain ⟨rest3, thirdcards⟩ := filled3
    simp only at hlen1 hlen2 hlen3 hrest1 hrest2 hrest3 hsum1 hsum2 hsum3 ⊢
    -- the third hand takes what is left
    obtain rfl : rest3 = [] := List.length_eq_zero_iff.mp (by omega)
    refine Returns.pure fun ct hct => ?_
    rcases List.mem_append.mp hct with hct | hct
    · exact hall ct hct
    obtain rfl := List.mem_singleton.mp hct
    refine ⟨?_, hlen3, hlen2, hlen1⟩
    have hthird : (thirdcards : Multiset Card) = rest2 + v.cards := (zero_add _).symm.trans hsum3
    calc (thirdcards : Multiset Card) + seccards + firstcards
        = v.cards + (rest2 + seccards) + firstcards := by rw [hthird]; abel
      _ = v.cards + j.cards + (rest1 + firstcards) := by rw [hsum2]; abel
      _ = v.cards + (j.cards + (firstct.cards + c3)) := by rw [hsum1]; abel
      _ = cards := by rw [hc3, hc2, hc1]
  · rw [if_neg htype]
    exact Returns.pure hall

end Dealing

/-! ## Legal arrangements -/

/-- What an arrangement promises: the cards are dealt out, the types are those of the hands,
the third hand is not below the second, and the second has a higher type than the first, or
the same and three leading cards that are not lower. -/
structure Legal (s : KeySort Card) (cards : List Card) (ct : CardsTypes) : Prop where
  dealt : DealtOut cards ct
  thirdtype : (getFiveCardsType s ct.thirdcards).map Prod.fst = some ct.thirdtype
  sectype : (getFiveCardsType s ct.seccards).map Prod.fst = some ct.sectype
  firsttype : (getThreeCardsType s ct.firstcards).map Prod.fst = some ct.firsttype
  third_second : ∃ result, (compareCards s ct.thirdcards ct.thirdtype ct.seccards ct.sectype).map
    Prod.fst = some result ∧ 0 ≤ result
  second_first : ct.firsttype < ct.sectype ∨ ct.firsttype = ct.sectype ∧ ∃ second first,
    sortForCompareFive s ct.seccards ct.sectype = some second ∧
      sortForCompareThree s ct.firstcards ct.firsttype = some first ∧
        first.map Card.point ≤ (second.take 3).map Card.point

section Checking

variable (s : KeySort Card)

/-- The comparison of two hands of five leaves them arranged. -/
theorem compareCards_five (a b : Hand 5) : ∃ result,
    compareCards s a.cards (handType a) b.cards (handType b) =
        some (result, arranged s a, arranged s b) ∧ outcome s a b = some result := by
  have ha := (sortForCompareFive_eq a s).1
  have hb := (sortForCompareFive_eq b s).1
  have heq : ∃ result, compareCards s a.cards (handType a) b.cards (handType b) =
      some (result, arranged s a, arranged s b) := by
    unfold compareCards
    rw [if_neg (not_not.mpr ⟨a.size.trans b.size.symm, .inr a.size⟩)]
    exact ⟨_, by simp only [a.size, if_true, ha, hb, Option.bind_eq_bind, Option.bind_some,
      Option.pure_def]; rfl⟩
  obtain ⟨result, heq⟩ := heq
  exact ⟨result, heq, by rw [outcome, heq]; rfl⟩

/-- Three cards are arranged for any type. -/
theorem sortForCompareThree_spec (h : Hand 3) (t : ℤ) :
    Returns (sortForCompareThree s h.cards t) fun l => l.Perm h.cards := by
  unfold sortForCompareThree
  rw [if_neg (not_not.mpr h.size)]
  by_cases hrange : t < PT_SINGLE ∨ t > PT_THREE
  · have hb := ruleThree_bounds h.cards
    obtain ⟨l, hl, hperm⟩ := arrangeThree_perm
      ((s.length_sort pointAndSuit _).trans (h.length_sort s)) (ruleThree h.cards)
    refine ⟨l, ?_, hperm.trans ((s.perm _ _).trans (s.perm _ _))⟩
    rw [if_pos hrange, getThreeCardsType_eq]
    simp only [Option.bind_eq_bind, Option.bind_some, if_neg (not_not.mpr hb)]
    exact hl
  · obtain ⟨l, hl, hperm⟩ := arrangeThree_perm (h.length_sort s) t
    refine ⟨l, ?_, hperm.trans (s.perm _ _)⟩
    rw [if_neg hrange]
    have hb : t ≥ PT_SINGLE ∧ t ≤ PT_THREE := by omega
    simp only [Option.bind_eq_bind, Option.bind_some, if_neg (not_not.mpr hb)]
    exact hl

/-- The points of an arranged hand do not depend on the order of its cards. -/
theorem arranged_points {n : ℕ} {a b : Hand n} (h : a.cards.Perm b.cards) :
    (arranged s a).map Card.point = (arranged s b).map Card.point :=
  (Prod.mk.inj (toLex.injective (handWorth_perm s h))).2

theorem handType_perm {n : ℕ} {a b : Hand n} (h : a.cards.Perm b.cards) :
    handType a = handType b := by
  rw [handType, handType, Multiset.coe_eq_coe.mpr h]

/-- Three cards with a pair in front, arranged as a pair. -/
theorem arrangeThree_pair {x y z a b c : Card} (hxy : x.point = y.point)
    (hperm : [a, b, c].Perm [x, y, z]) (hab : b.point ≤ a.point) (hbc : c.point ≤ b.point)
    {l : List Card} (h : arrangeThree PT_PAIR [a, b, c] = some l) :
    l.map Card.point = [x, y, z].map Card.point := by
  have hmem : ∀ d ∈ [a, b, c], d.point = x.point ∨ d.point = z.point := by
    intro d hd
    have hd := hperm.subset hd
    simp only [List.mem_cons, List.not_mem_nil, or_false] at hd
    rcases hd with rfl | rfl | rfl
    · exact .inl rfl
    · exact .inl hxy.symm
    · exact .inr rfl
  have ha := hmem a (by simp)
  have hb := hmem b (by simp)
  have hc := hmem c (by simp)
  have hsum := (hperm.map Card.point).sum_eq
  simp only [List.map_cons, List.map_nil, List.sum_cons, List.sum_nil] at hsum
  simp only [arrangeThree, true_and] at h
  split_ifs at h with hrotate
  · obtain rfl := Option.some.inj h
    simp only [List.map_cons, List.map_nil, List.cons.injEq, and_true]
    omega
  · obtain rfl := Option.some.inj h
    simp only [List.map_cons, List.map_nil, List.cons.injEq, and_true]
    omega

/-- With no two cards of a point next to each other there is no pair. -/
theorem ruleFive_pair {hand : Multiset Card} (h : ruleFive hand = PT_PAIR) : distinct hand = 4 := by
  unfold ruleFive at h
  split_ifs at h <;> first | exact absurd h (by decide) | assumption

theorem ruleFive_three {hand : Multiset Card} (h : ruleFive hand = PT_THREE) : most hand = 3 := by
  unfold ruleFive at h
  split_ifs at h <;> first | exact absurd h (by decide) | assumption

/-- A pair is put in front. -/
theorem arrangeFive_pair {c1 c2 c3 c4 c5 : Card} (h : Arranged [c1, c2, c3, c4, c5])
    (htype : ruleFive ([c1, c2, c3, c4, c5] : List Card) = PT_PAIR) :
    ∃ x y z rest, arrangeFive PT_PAIR [c1, c2, c3, c4, c5] = some (x :: y :: z :: rest) ∧
      x.point = y.point := by
  have hfour := ruleFive_pair htype
  have hne : c1.point ≠ 0 := by
    have := h.deck c1 (by simp)
    omega
  by_cases h2 : c2.point = c1.point
  · exact ⟨c2, c1, c3, [c4, c5], by simp [arrangeFive, pairAt, pairFirst, cardAt, hne, h2], h2⟩
  by_cases h3 : c3.point = c2.point
  · exact ⟨c3, c2, c1, [c4, c5], by simp [arrangeFive, pairAt, pairFirst, cardAt, hne, h2, h3], h3⟩
  by_cases h4 : c4.point = c3.point
  · exact ⟨c4, c3, c1, [c2, c5], by simp [arrangeFive, pairAt, pairFirst, cardAt, hne, h2, h3, h4],
      h4⟩
  by_cases h5 : c5.point = c4.point
  · exact ⟨c5, c4, c1, [c2, c3],
      by simp [arrangeFive, pairAt, pairFirst, cardAt, hne, h2, h3, h4, h5], h5⟩
  -- otherwise the points are all different
  exfalso
  have hpoints := h.points
  simp only [List.pairwise_cons, List.mem_cons, List.not_mem_nil, or_false, forall_eq_or_imp,
    forall_eq] at hpoints
  have hnodup : ([c1, c2, c3, c4, c5].map Card.point).Nodup := by
    simp only [List.map_cons, List.map_nil, List.nodup_cons, List.mem_cons, List.not_mem_nil,
      or_false, not_or, List.nodup_nil, and_true, not_false_eq_true]
    omega
  rw [distinct_eq_length hnodup, Multiset.coe_card] at hfour
  exact absurd hfour (by simp)

/-- Three of a kind are put in front. -/
theorem arrangeFive_three {c1 c2 c3 c4 c5 : Card} (h : Arranged [c1, c2, c3, c4, c5])
    (htype : ruleFive ([c1, c2, c3, c4, c5] : List Card) = PT_THREE) :
    ∃ x y z rest, arrangeFive PT_THREE [c1, c2, c3, c4, c5] = some (x :: y :: z :: rest) ∧
      x.point = y.point ∧ y.point = z.point := by
  have hthree := ruleFive_three htype
  have hpoints := h.points
  simp only [List.pairwise_cons, List.mem_cons, List.not_mem_nil, or_false, forall_eq_or_imp,
    forall_eq] at hpoints
  have harr : ∀ {l : List Card}, (if c2.point = c4.point then some [c2, c3, c4, c1, c5]
      else if c3.point = c5.point then some [c3, c4, c5, c1, c2]
      else some [c1, c2, c3, c4, c5]) = some l →
        arrangeFive PT_THREE [c1, c2, c3, c4, c5] = some l := fun hl => hl
  by_cases h2 : c2.point = c4.point
  · exact ⟨c2, c3, c4, [c1, c5], harr (if_pos h2), by omega, by omega⟩
  by_cases h3 : c3.point = c5.point
  · exact ⟨c3, c4, c5, [c1, c2], harr (by rw [if_neg h2, if_pos h3]), by omega, by omega⟩
  refine ⟨c1, c2, c3, [c4, c5], harr (by rw [if_neg h2, if_neg h3]), ?_⟩
  by_contra h1
  -- otherwise no point has more than two cards
  have htwo : most ([c1, c2, c3, c4, c5] : List Card) ≤ 2 := by
    refine Multiset.sup_le.mpr fun k hk => ?_
    obtain ⟨c, -, rfl⟩ := Multiset.mem_map.mp hk
    generalize c.point = p
    rw [Multiset.coe_countP]
    simp only [List.countP_cons, List.countP_nil, decide_eq_true_eq]
    split_ifs <;> omega
  omega

/-- Three cards are sorted and then arranged for their type. -/
theorem sortForCompareThree_sorted {x y z : Card} {t : ℤ} {lead : List Card}
    (hd : ∀ d ∈ [x, y, z], 2 ≤ d.point ∧ 0 ≤ d.suit ∧ d.suit ≤ 9)
    (ht : PT_SINGLE ≤ t ∧ t ≤ PT_THREE) (h : sortForCompareThree s [x, y, z] t = some lead) :
    ∃ a b c, [a, b, c].Perm [x, y, z] ∧ b.point ≤ a.point ∧ c.point ≤ b.point ∧
      arrangeThree t [a, b, c] = some lead := by
  have hperm : (sortCards s [x, y, z]).Perm [x, y, z] := s.perm _ _
  have harr : Arranged (sortCards s [x, y, z]) :=
    ⟨fun d hd' => hd d (hperm.subset hd'), s.sorted pointAndSuit _⟩
  have hlen : (sortCards s [x, y, z]).length = 3 := hperm.length_eq
  unfold sortForCompareThree at h
  rw [if_neg (by simp), if_neg (by omega)] at h
  simp only [Option.bind_eq_bind, Option.bind_some] at h
  rw [if_neg (by omega)] at h
  obtain ⟨a, b, c, hcards⟩ := List.length_eq_three.mp hlen
  rw [hcards] at hperm harr h
  have hpoints := harr.points
  simp only [List.pairwise_cons, List.mem_cons, List.not_mem_nil, or_false, forall_eq_or_imp,
    forall_eq] at hpoints
  exact ⟨a, b, c, hperm, hpoints.1.1, hpoints.2.1, h⟩

/-- Three cards in order with the points of others in order. -/
theorem points_eq_of_perm {x y z a b c : Card} (hxy : y.point ≤ x.point) (hyz : z.point ≤ y.point)
    (hperm : [a, b, c].Perm [x, y, z]) (hab : b.point ≤ a.point) (hbc : c.point ≤ b.point) :
    [a, b, c].map Card.point = [x, y, z].map Card.point := by
  have hfalling : ∀ {p q r : ℤ}, q ≤ p → r ≤ q → [p, q, r].Pairwise fun m n => n ≤ m := by
    intro p q r hpq hqr
    simp only [List.pairwise_cons, List.mem_cons, List.not_mem_nil, or_false, forall_eq_or_imp,
      forall_eq, IsEmpty.forall_iff, implies_true, List.Pairwise.nil, and_true]
    exact ⟨⟨hpq, hqr.trans hpq⟩, hqr⟩
  exact List.Perm.eq_of_pairwise (fun p q _ _ (hpq : q ≤ p) hqp => le_antisymm hqp hpq)
    (hfalling hab hbc) (hfalling hxy hyz) (hperm.map Card.point)

/-- Three cards of one point, arranged as three of a kind. -/
theorem arrangeThree_three {x y z a b c : Card} (hxy : x.point = y.point) (hyz : y.point = z.point)
    (hperm : [a, b, c].Perm [x, y, z]) {l : List Card}
    (h : arrangeThree PT_THREE [a, b, c] = some l) :
    l.map Card.point = [x, y, z].map Card.point := by
  obtain rfl : [a, b, c] = l := Option.some.inj h
  have hsame : ∀ d ∈ [a, b, c], d.point = z.point := by
    intro d hd
    have hd := hperm.subset hd
    simp only [List.mem_cons, List.not_mem_nil, or_false] at hd
    rcases hd with rfl | rfl | rfl
    · exact hxy.trans hyz
    · exact hyz
    · rfl
  simp only [List.map_cons, List.map_nil, hsame a (by simp), hsame b (by simp),
    hsame c (by simp), hxy, hyz]

theorem Hand.sorted_five (b : Hand 5) :
    ∃ c1 c2 c3 c4 c5, sortCards s b.cards = [c1, c2, c3, c4, c5] := by
  have hlen := b.length_sort s
  obtain ⟨c1, l, hl⟩ := List.exists_of_length_succ _ hlen
  rw [hl] at hlen ⊢
  obtain ⟨c2, l, rfl⟩ := List.exists_of_length_succ l (Nat.succ.inj hlen)
  obtain ⟨c3, c4, c5, rfl⟩ := List.length_eq_three.mp (Nat.succ.inj (Nat.succ.inj hlen))
  exact ⟨c1, c2, c3, c4, c5, rfl⟩

/-- Whatever is put in front of a hand of five keeps its points when it is arranged again. -/
theorem arrangeFive_leading {c1 c2 c3 c4 c5 : Card} (h : Arranged [c1, c2, c3, c4, c5]) {t : ℤ}
    (htype : ruleFive ([c1, c2, c3, c4, c5] : List Card) = t)
    (hcase : t = PT_SINGLE ∨ t = PT_PAIR ∨ t = PT_THREE) :
    ∃ x y z rest, arrangeFive t [c1, c2, c3, c4, c5] = some (x :: y :: z :: rest) ∧
      ∀ {a b c : Card} {l : List Card}, [a, b, c].Perm [x, y, z] → b.point ≤ a.point →
        c.point ≤ b.point → arrangeThree t [a, b, c] = some l →
          l.map Card.point = [x, y, z].map Card.point := by
  rcases hcase with rfl | rfl | rfl
  · -- single cards stay as they are sorted
    refine ⟨c1, c2, c3, [c4, c5], rfl, ?_⟩
    intro a b c l hperm hab hbc hl
    have hpoints := h.points
    simp only [List.pairwise_cons, List.mem_cons, List.not_mem_nil, or_false, forall_eq_or_imp,
      forall_eq] at hpoints
    obtain rfl : [a, b, c] = l := Option.some.inj hl
    exact points_eq_of_perm hpoints.1.1 hpoints.2.1.1 hperm hab hbc
  · obtain ⟨x, y, z, rest, hx, hxy⟩ := arrangeFive_pair h htype
    exact ⟨x, y, z, rest, hx, fun hperm hab hbc hl => arrangeThree_pair hxy hperm hab hbc hl⟩
  · obtain ⟨x, y, z, rest, hx, hxy, hyz⟩ := arrangeFive_three h htype
    exact ⟨x, y, z, rest, hx, fun hperm _ _ hl => arrangeThree_three hxy hyz hperm hl⟩

/-- With the type of a first hand, arranging the leading cards again does not change their
points. -/
theorem leading_points (b : Hand 5) (a : Hand 3) (htype : handType a = handType b)
    {lead : List Card}
    (hlead : sortForCompareThree s ((arranged s b).take 3) (handType b) = some lead) :
    lead.map Card.point = ((arranged s b).take 3).map Card.point := by
  have hsorted := b.arranged s
  have hfive : ruleFive (sortCards s b.cards : List Card) = handType b := by
    rw [coe_sortCards, handType_five]
  have harranged : arranged s b = (arrangeFive (handType b) (sortCards s b.cards)).getD [] := by
    rw [arranged, if_neg (by decide)]
  have hthree := ruleThree_bounds a.cards
  rw [← handType_three, htype] at hthree
  have hmem : ∀ d ∈ arranged s b, d ∈ sortCards s b.cards := fun d hd =>
    (s.mem_sort _ _ _).mpr ((sortForCompareFive_eq b s).2.subset hd)
  have hcase : handType b = PT_SINGLE ∨ handType b = PT_PAIR ∨ handType b = PT_THREE := by
    rw [← htype, handType_three]
    unfold ruleThree
    split_ifs
    · exact .inr (.inr rfl)
    · exact .inr (.inl rfl)
    · exact .inl rfl
  obtain ⟨c1, c2, c3, c4, c5, hcards⟩ := b.sorted_five s
  rw [hcards] at hsorted hfive harranged hmem
  obtain ⟨x, y, z, rest, hx, hkept⟩ := arrangeFive_leading hsorted hfive hcase
  have htake : (arranged s b).take 3 = [x, y, z] := by
    rw [harranged, hx]
    rfl
  rw [htake] at hlead ⊢
  have hdeck : ∀ d ∈ [x, y, z], 2 ≤ d.point ∧ 0 ≤ d.suit ∧ d.suit ≤ 9 := fun d hd => by
    rw [← htake] at hd
    exact hsorted.deck d (hmem d (List.mem_of_mem_take hd))
  obtain ⟨a', b', c', hperm, hab, hbc, hl⟩ := sortForCompareThree_sorted s hdeck hthree hlead
  exact hkept hperm hab hbc hl

/-- The hands of an arrangement. -/
theorem DealtOut.hands {cards : List Card} {ct : CardsTypes} (h : DealtOut cards ct)
    (hdeck : cards.Subperm (initPoker [])) : ∃ (third second : Hand 5) (first : Hand 3),
      third.cards = ct.thirdcards ∧ second.cards = ct.seccards ∧ first.cards = ct.firstcards := by
  have hle := Multiset.coe_le.mpr hdeck
  rw [← h.all] at hle
  have hthird : ct.thirdcards.Subperm (initPoker []) := Multiset.coe_le.mp
    ((Multiset.le_add_right _ _).trans ((Multiset.le_add_right _ _).trans hle))
  have hsecond : ct.seccards.Subperm (initPoker []) := Multiset.coe_le.mp
    ((Multiset.le_add_left _ _).trans ((Multiset.le_add_right _ _).trans hle))
  have hfirst : ct.firstcards.Subperm (initPoker []) := Multiset.coe_le.mp
    ((Multiset.le_add_left _ _).trans hle)
  exact ⟨⟨_, h.third, .inr rfl, hthird⟩, ⟨_, h.second, .inr rfl, hsecond⟩,
    ⟨_, h.first, .inl rfl, hfirst⟩, rfl, rfl, rfl⟩

/-- A hand with its cards in another order. -/
def Hand.reorder {n : ℕ} (h : Hand n) {cards : List Card} (hperm : cards.Perm h.cards) :
    Hand n where
  cards := cards
  size := hperm.length_eq.trans h.size
  three_or_five := h.three_or_five
  deck := hperm.subperm.trans h.deck

/-- Hands of an arrangement, as a comparison leaves them. -/
theorem legal_arranged {cards : List Card} {third second : Hand 5} {first : Hand 3}
    (hall : (third.cards : Multiset Card) + second.cards + first.cards = cards)
    (hthird : ∃ result, outcome s third second = some result ∧ 0 ≤ result)
    (hsecond : handType first < handType second ∨ handType first = handType second ∧
      (arranged s first).map Card.point ≤ ((arranged s second).take 3).map Card.point) :
    Legal s cards ⟨arranged s third, handType third, arranged s second, handType second,
      arranged s first, handType first⟩ := by
  have hp3 := (sortForCompareFive_eq third s).2
  have hp2 := (sortForCompareFive_eq second s).2
  have hp1 := (sortForCompareThree_eq first s).2
  let third' := third.reorder hp3
  let second' := second.reorder hp2
  let first' := first.reorder hp1
  have ht3 : handType third' = handType third := handType_perm hp3
  have ht2 : handType second' = handType second := handType_perm hp2
  have ht1 : handType first' = handType first := handType_perm hp1
  refine ⟨⟨?_, third'.size, second'.size, first'.size⟩, ?_, ?_, ?_, ?_, hsecond.imp_right ?_⟩
  · rw [← hall, ← Multiset.coe_eq_coe.mpr hp3, ← Multiset.coe_eq_coe.mpr hp2,
      ← Multiset.coe_eq_coe.mpr hp1]
  · rw [← ht3, handType_five]
    exact congrArg (Option.map Prod.fst) (getFiveCardsType_eq third' s)
  · rw [← ht2, handType_five]
    exact congrArg (Option.map Prod.fst) (getFiveCardsType_eq second' s)
  · rw [← ht1, handType_three]
    exact congrArg (Option.map Prod.fst) (getThreeCardsType_eq first' s)
  · obtain ⟨result, hresult, hpos⟩ := hthird
    refine ⟨result, ?_, hpos⟩
    rw [outcome_eq, ← handWorth_perm s (a := third') hp3, ← handWorth_perm s (a := second') hp2,
      ← outcome_eq, outcome, ht3, ht2] at hresult
    exact hresult
  · rintro ⟨htype, hle⟩
    refine ⟨htype, arranged s second', arranged s first', ?_, ?_, ?_⟩
    · rw [← ht2]
      exact (sortForCompareFive_eq second' s).1
    · rw [← ht1]
      exact (sortForCompareThree_eq first' s).1
    · rw [List.map_take] at hle ⊢
      rw [arranged_points s (a := first') hp1, arranged_points s (a := second') hp2]
      exact hle

/-- Three cards compared with a first hand, which is arranged. -/
theorem compareCards_leading (lead first : Hand 3) (t : ℤ) : ∃ l,
    sortForCompareThree s lead.cards t = some l ∧ l.length = (arranged s first).length ∧
      compareCards s lead.cards t first.cards (handType first) =
        some (if t = handType first then compareLoop l (arranged s first)
          else if t > handType first then 1 else -1, l, arranged s first) := by
  obtain ⟨hfirst, hperm⟩ := sortForCompareThree_eq first s
  obtain ⟨l, hl, hlperm⟩ := sortForCompareThree_spec s lead t
  refine ⟨l, hl, ?_, ?_⟩
  · rw [hlperm.length_eq, hperm.length_eq, lead.size, first.size]
  · have hsize := lead.size
    unfold compareCards
    rw [if_neg (not_not.mpr ⟨hsize.trans first.size.symm, .inl hsize⟩),
      if_neg (show ¬ lead.cards.length = 5 by omega)]
    simp only [hl, hfirst, Option.bind_eq_bind, Option.bind_some, Option.pure_def]

/-- What the checks let through is legal. -/
theorem isRightCardsType_spec {cards : List Card} {ct : CardsTypes} (h : DealtOut cards ct)
    (hdeck : cards.Subperm (initPoker [])) :
    Returns (isRightCardsType s ct) fun r => r.1 = true → Legal s cards r.2 := by
  obtain ⟨third, second, first, hthird, hsecond, hfirst⟩ := h.hands hdeck
  have hfalse : ∀ ct', Returns (pure (false, ct')) fun r : Bool × CardsTypes =>
      r.1 = true → Legal s cards r.2 := fun ct' => Returns.pure fun h => absurd h Bool.false_ne_true
  unfold isRightCardsType
  rw [← hfirst, getThreeCardsType_eq first s]
  simp only [Option.bind_eq_bind, Option.bind_some]
  by_cases htype1 : ct.firsttype ≠ ruleThree first.cards
  · rw [if_pos htype1]
    exact hfalse _
  rw [if_neg htype1, ← hsecond, getFiveCardsType_eq second s]
  simp only [Option.bind_some]
  by_cases htype2 : ct.sectype ≠ ruleFive second.cards
  · rw [if_pos htype2]
    exact hfalse _
  rw [if_neg htype2, ← hthird, getFiveCardsType_eq third s]
  simp only [Option.bind_some]
  by_cases htype3 : ct.thirdtype ≠ ruleFive third.cards
  · rw [if_pos htype3]
    exact hfalse _
  rw [if_neg htype3]
  have htype1 := not_not.mp htype1
  have htype2 := not_not.mp htype2
  have htype3 := not_not.mp htype3
  rw [htype1, htype2, htype3, ← handType_three, ← handType_five, ← handType_five]
  -- the checks of the types have sorted the hands
  let third' := third.reorder (s.perm pointAndSuit third.cards)
  let second' := second.reorder (s.perm pointAndSuit second.cards)
  let first' := first.reorder (s.perm pointAndSuit first.cards)
  have ht3 : handType third' = handType third := handType_perm (s.perm _ _)
  have ht2 : handType second' = handType second := handType_perm (s.perm _ _)
  have ht1 : handType first' = handType first := handType_perm (s.perm _ _)
  obtain ⟨result, hcompare, houtcome⟩ := compareCards_five s third' second'
  rw [ht3, ht2] at hcompare
  have hcompare : compareCards s (sortCards s third.cards) (handType third)
      (sortCards s second.cards) (handType second) =
        some (result, arranged s third', arranged s second') := hcompare
  rw [hcompare, Option.bind_some]
  by_cases hresult : result ≥ 0
  swap
  · rw [if_pos hresult]
    exact hfalse _
  rw [if_neg (not_not.mpr hresult)]
  have hp2 := (sortForCompareFive_eq second' s).2
  let lead' : Hand 3 :=
    { cards := (arranged s second').take 3
      size := by rw [List.length_take, hp2.length_eq, second'.size]; rfl
      three_or_five := .inl rfl
      deck := ((List.take_sublist 3 _).subperm.trans hp2.subperm).trans second'.deck }
  obtain ⟨lead, hlead, hlen, hlast⟩ := compareCards_leading s lead' first' (handType second)
  rw [ht1] at hlast
  have hlast : compareCards s ((arranged s second').take 3) (handType second)
      (sortCards s first.cards) (handType first) =
        some (if handType second = handType first then compareLoop lead (arranged s first')
          else if handType second > handType first then 1 else -1, lead, arranged s first') := hlast
  rw [hlast, Option.bind_some]
  refine Returns.pure fun hright => ?_
  have hlower := of_decide_eq_true hright
  have hall : (third'.cards : Multiset Card) + second'.cards + first'.cards = cards := by
    rw [← h.all, ← hthird, ← hsecond, ← hfirst]
    exact congrArg₂ _ (congrArg₂ _ (coe_sortCards s _) (coe_sortCards s _)) (coe_sortCards s _)
  have hlegal := legal_arranged s hall ⟨result, houtcome, hresult⟩ (by
    rw [ht1, ht2]
    simp only at hlower
    split_ifs at hlower with heq hgt
    · refine .inr ⟨heq.symm, ?_⟩
      rw [← ht2] at hlead
      rw [← leading_points s second' first' (by rw [ht1, ht2, heq]) hlead]
      rw [compareLoop_eq hlen] at hlower
      exact sideOf_nonneg.mp hlower
    · exact .inl hgt
    · exact absurd hlower (by decide))
  rw [ht1, ht2, ht3] at hlegal
  exact hlegal

end Checking

/-! ## The search -/

theorem strictWeak_sortCardTypes : StrictWeak sortCardTypes := by
  have hkey : sortCardTypes = fun ct1 ct2 =>
      decide (toLex (ct1.score, ct1.thirdtype) > toLex (ct2.score, ct2.thirdtype)) := by
    funext ct1 ct2
    unfold sortCardTypes
    simp only [gt_iff_lt, Prod.Lex.toLex_lt_toLex]
    split_ifs with heq
    · simp only [heq, lt_self_iff_false, true_and, false_or]
    · simp only [Ne.symm heq, false_and, or_false]
  rw [hkey]
  exact StrictWeak.of_key fun ct : CardsTypes => toLex (ct.score, ct.thirdtype)

theorem checkCardsTypes_spec (s : KeySort Card) {cards : List Card}
    (hdeck : cards.Subperm (initPoker [])) {alltypes : List CardsTypes}
    (hall : ∀ ct ∈ alltypes, DealtOut cards ct) :
    Returns (checkCardsTypes s alltypes []) fun r => ∀ ct ∈ r, Legal s cards ct := by
  unfold checkCardsTypes
  refine Returns.foldlM (I := fun r => ∀ ct ∈ r, Legal s cards ct) (fun v hv ret hret => ?_)
    fun ct hct => absurd hct List.not_mem_nil
  refine (isRightCardsType_spec s (hall v hv) hdeck).bind ?_
  rintro ⟨right, v'⟩ hlegal
  refine Returns.pure ?_
  cases right with
  | false => exact hret
  | true =>
    intro ct hct
    rcases List.mem_append.mp hct with hct | hct
    · exact hret ct hct
    · obtain rfl := List.mem_singleton.mp hct
      exact hlegal rfl

/-- On cards of the deck of 52 the search does not fail. -/
theorem getTopNPokerType_spec (s : KeySort Card) (byScore : CompareSort CardsTypes)
    {cards : List Card} (hsize : cards.length = 13) (hn : cards.Nodup)
    (hdeck : cards.Subperm (initPoker [])) (hd : ∀ c ∈ cards, c.InDeck) (n : ℤ) :
    Returns (getTopNPokerType s byScore cards n []) fun r => ∀ ct ∈ r, Legal s cards ct := by
  unfold getTopNPokerType
  refine (getFiveCards_spec s (by omega) hn hd).bind fun thirdct hthirdct => ?_
  have hsearch : Returns (thirdct.foldlM (fun alltypes v => do
      let c1 := disCards (copyCards cards []) v.cards
      let secct ← getFiveCards s c1 []
      secct.foldlM (arrangeSecond c1 v) alltypes) []) fun r => ∀ ct ∈ r, DealtOut cards ct := by
    refine Returns.foldlM (I := fun r => ∀ ct ∈ r, DealtOut cards ct) (fun v hv alltypes hall => ?_)
      fun ct hct => absurd hct List.not_mem_nil
    have hthird := hthirdct v hv
    have hc1 := disCards_add hthird.sub
    have hcard := congrArg Multiset.card hc1
    have hlen := hthird.size
    simp only [copyCards]
    generalize disCards cards v.cards = c1 at *
    simp only [Multiset.card_add, Multiset.coe_card] at hcard
    have hle : (c1 : Multiset Card) ≤ cards := by
      rw [← hc1]
      exact Multiset.le_add_left _ _
    have hsub : c1.Subperm cards := Multiset.coe_le.mp hle
    refine (getFiveCards_spec s (by omega) (Multiset.nodup_of_le hle hn) fun c hc =>
      hd c (hsub.subset hc)).bind fun secct hsecct => ?_
    exact Returns.foldlM (I := fun r => ∀ ct ∈ r, DealtOut cards ct) (fun j hj alltypes hall =>
      arrangeSecond_spec hsize hn hd hlen hc1 (hsecct j hj) hall) hall
  refine hsearch.bind fun alltypes hall => ?_
  refine (checkCardsTypes_spec s hdeck hall).bind fun righttypes hlegal => ?_
  refine Returns.pure fun ct hct => ?_
  have hmem := List.mem_of_mem_take hct
  exact hlegal ct ((byScore.perm _ _ strictWeak_sortCardTypes).mem_iff.mp hmem)

/-- **The arrangements.** For thirteen different cards and any `n`, every arrangement returned
deals the cards out into hands of five, five and three with their types, and is legal. With no
joker among the cards the search does not fail, so no group is indexed that is not there. -/
theorem arrangements_legal (s : KeySort Card) (byScore : CompareSort CardsTypes)
    (hand : ThirteenCards) (n : ℤ) :
    (∀ rettypes, getTopNPokerType s byScore hand.cards n [] = some rettypes →
      ∀ ct ∈ rettypes, Legal s hand.cards ct) ∧
    ((∀ c ∈ hand.cards, c.point ≤ 14) →
      (getTopNPokerType s byScore hand.cards n []).isSome) := by
  have hspec := fun hpoint => getTopNPokerType_spec s byScore hand.size hand.nodup hand.deck
    (hand.inDeck hpoint) n
  constructor
  · intro rettypes hret
    -- a hand with a joker is not even counted
    obtain ⟨thirdct, hthird, -⟩ := Option.bind_eq_some_iff.mp hret
    have hcounted : ∀ c ∈ hand.cards, c.point ≤ 14 := by
      have hsize : hand.cards.length ≥ 5 := by
        rw [hand.size]
        decide
      unfold getFiveCards at hthird
      rw [if_neg (not_not.mpr hsize)] at hthird
      obtain ⟨a, ha, -⟩ := Option.bind_eq_some_iff.mp hthird
      exact adjustCards_some ha
    exact (hspec hcounted).of_eq_some hret
  · intro hpoint
    obtain ⟨r, hr, -⟩ := hspec hpoint
    rw [hr]
    rfl

end Poker

end DnServer.Bullfight
