import DnServer.Bullfight.Bull
import DnServer.Bullfight.Game.Dispatch

/-!
# The game service: the deck and the hands

A table makes its deck once and shuffles it in place before each deal, so that it stays an
arrangement of the same cards; the hands of a round are consecutive fives of it. From the
deal to the end of the round nothing touches the hands.

* `deck_and_hands`: `DealInv` says in which states the hands are a `FairDeal`: not
  before the deal, nor at `dealPoker` if there are too many for the deck, and always
  behind it, since the moves that follow change a hand's order at most (`move_fair`).
-/

namespace DnServer.Bullfight

open DnServer.Lib

namespace Game

variable {env : Env} {g g' t : Game} {e : Event} {m : Mtype}

/-! ## The deck -/

/-- The deck of a new table. -/
def deck : List Card := initPoker []

/-- Four suits of two to ace, and no joker. -/
theorem mem_deck {c : Card} : c ∈ deck ↔ c.InDeck := by
  have hstandard : ∀ c ∈ deck, (2 ≤ c.point ∧ c.point ≤ 14) ∧ 1 ≤ c.suit ∧ c.suit ≤ 4 := by decide
  have hall : ∀ p ∈ Finset.Icc (2 : ℤ) 14, ∀ s ∈ Finset.Icc (1 : ℤ) 4, (⟨p, s⟩ : Card) ∈ deck := by
    decide
  constructor
  · exact fun h => ⟨(hstandard c h).1, (hstandard c h).2⟩
  · exact fun h => hall c.point (Finset.mem_Icc.mpr h.point) c.suit (Finset.mem_Icc.mpr h.suit)

theorem nodup_deck : deck.Nodup := by decide

theorem length_deck : deck.length = 52 := by decide

/-! ## The hands -/

/-- Everybody has five cards of the deck, and no card is dealt twice. -/
structure FairDeal (t : Table Uid GamePlayer) : Prop where
  five : ∀ k v, t.get? k = some v → v.cards.length = 5
  single : ∀ k v, t.get? k = some v → v.cards.Nodup
  ofDeck : ∀ k v, t.get? k = some v → ∀ c ∈ v.cards, c ∈ deck
  apart : ∀ j k v w, j ≠ k → t.get? j = some v → t.get? k = some w → v.cards.Disjoint w.cards

/-- The hands of some of the players. -/
theorem FairDeal.subset {s t : Table Uid GamePlayer} (h : FairDeal s)
    (hsub : ∀ k v, t.get? k = some v → s.get? k = some v) : FairDeal t where
  five k v hv := h.five k v (hsub k v hv)
  single k v hv := h.single k v (hsub k v hv)
  ofDeck k v hv := h.ofDeck k v (hsub k v hv)
  apart j k v w hne hv hw := h.apart j k v w hne (hsub j v hv) (hsub k w hw)

/-- Records with the same hands. -/
theorem FairDeal.updated {s t : Table Uid GamePlayer} {R : Uid → GamePlayer → GamePlayer → Prop}
    (h : FairDeal s) (hst : Table.Updated R s t) (hR : ∀ k v w, R k v w → w.cards = v.cards) :
    FairDeal t := by
  have hold : ∀ k w, t.get? k = some w → ∃ v, s.get? k = some v ∧ w.cards = v.cards :=
    fun k w hw => by
      obtain ⟨v, hv, hvw⟩ := hst.get?_of_new hw
      exact ⟨v, hv, hR k v w hvw⟩
  refine ⟨fun k w hw => ?_, fun k w hw => ?_, fun k w hw => ?_, fun j k w x hne hw hx => ?_⟩
  · obtain ⟨v, hv, hcards⟩ := hold k w hw
    rw [hcards]
    exact h.five k v hv
  · obtain ⟨v, hv, hcards⟩ := hold k w hw
    rw [hcards]
    exact h.single k v hv
  · obtain ⟨v, hv, hcards⟩ := hold k w hw
    rw [hcards]
    exact h.ofDeck k v hv
  · obtain ⟨v, hv, hcards⟩ := hold j w hw
    obtain ⟨u, hu, hcards'⟩ := hold k x hx
    rw [hcards, hcards']
    exact h.apart j k v u hne hv hu

/-- The hands cut from an arrangement of the deck. -/
theorem fairDeal_of_dealt {gp : Table Uid GamePlayer} (hdeck : g.poker.Perm deck)
    (hgp : Table.Updated (DealtHand g) g.gameplayer gp) : FairDeal gp := by
  have hnodup : g.poker.Nodup := hdeck.nodup_iff.mpr nodup_deck
  have hhand : ∀ k w, gp.get? k = some w → k ∈ g.gameplayer ∧ w.cards.length = 5 ∧
      w.cards = Poker.hand g.poker (g.gameplayer.keys.idxOf k) := fun k w hw => by
    obtain ⟨v, hv, hdealt, hcards⟩ := hgp.get?_of_new hw
    exact ⟨Table.mem_of_get? hv, hdealt.2.1, hcards⟩
  refine ⟨fun k w hw => (hhand k w hw).2.1, fun k w hw => ?_, fun k w hw c hc => ?_,
    fun j k v w hne hv hw => ?_⟩
  · rw [(hhand k w hw).2.2]
    exact hnodup.sublist (Poker.hand_sublist _ _)
  · rw [(hhand k w hw).2.2] at hc
    exact hdeck.subset ((Poker.hand_sublist _ _).subset hc)
  · obtain ⟨hj, -, hcards⟩ := hhand j v hv
    obtain ⟨-, -, hcards'⟩ := hhand k w hw
    have hidx : g.gameplayer.keys.idxOf j ≠ g.gameplayer.keys.idxOf k := fun heq =>
      hne ((List.idxOf_inj hj).mp heq)
    rw [hcards, hcards']
    rcases Nat.lt_or_gt_of_ne hidx with hlt | hgt
    · exact Poker.hand_disjoint hnodup hlt
    · exact (Poker.hand_disjoint hnodup hgt).symm

/-! ## The invariant -/

/-- From the deal on the hands are fair. A deal that ran out of cards is stuck: no timeout that
would end it is live. -/
def DealInv (g : Game) : Prop :=
  match g.curstate with
  | .waitPlayer | .waitStartGame | .grabTheBanker | .waitBet => True
  | .dealPoker => (g.gameplayer.size ≤ 10 → FairDeal g.gameplayer) ∧
      (0 < g.timers.live .dealPoker → FairDeal g.gameplayer)
  | .choicePokerType | .waitShowResult | .showResult => FairDeal g.gameplayer

theorem Found.dealInv (h : Found g t)
    (hlive : t.timers.live .dealPoker ≤ g.timers.live .dealPoker) (hinv : DealInv g) :
    DealInv t := by
  unfold DealInv at hinv ⊢
  rw [h.curstate]
  cases hs : g.curstate with
  | dealPoker =>
    rw [hs] at hinv
    refine ⟨fun hsize => ?_, fun hpos => (hinv.2 (by omega)).subset h.records⟩
    rw [h.size (by simp [isGameStart, hs])] at hsize
    exact (hinv.1 hsize).subset h.records
  | choicePokerType =>
    rw [hs] at hinv
    exact FairDeal.subset hinv h.records
  | waitShowResult =>
    rw [hs] at hinv
    exact FairDeal.subset hinv h.records
  | showResult =>
    rw [hs] at hinv
    exact FairDeal.subset hinv h.records
  | _ => trivial

theorem Opening.deal (h : Opening env g t) : t.poker = g.poker ∧ DealInv t := by
  cases h with
  | close _ => exact ⟨rfl, trivial⟩
  | grab _ _ _ _ => exact ⟨rfl, trivial⟩
  | animate _ _ _ => exact ⟨rfl, trivial⟩
  | bet _ _ _ _ => exact ⟨rfl, trivial⟩

theorem Chosen.deal {uid : Uid} {ty : ℤ} {cards : List Card} (h : Chosen env g uid ty cards t)
    (hfair : FairDeal g.gameplayer) : t.poker = g.poker ∧ FairDeal t.gameplayer := by
  cases h with
  | reject o ho => exact ⟨rfl, hfair⟩
  | accept v r o hv hcheck ho =>
    have hgp : Table.Updated (fun _ (v w : GamePlayer) => w.cards = v.cards) g.gameplayer
        (g.gameplayer.modify uid fun v =>
          { v with pokertype := ty, choicecards := cards, havechoice := true }) :=
      Table.updated_modify (fun _ _ => rfl) fun _ _ => rfl
    exact ⟨rfl, hfair.updated hgp fun _ _ _ h => h⟩

theorem Compared.deal (h : Compared g t) (hfair : FairDeal g.gameplayer) :
    t.poker = g.poker ∧ FairDeal t.gameplayer := by
  cases h with
  | mk gp losers hgp hsub hnb =>
    exact ⟨rfl, hfair.updated hgp fun _ v w hw => by rw [hw.same.1]⟩

theorem Reported.deal (h : Reported g m t) (hfair : FairDeal g.gameplayer) :
    t.poker = g.poker ∧ FairDeal t.gameplayer := by
  cases h with
  | loser uid money v lose hv hw ha hl =>
    exact ⟨rfl, hfair.updated (updated_collect g uid _) fun _ v w hw => by rw [hw]⟩
  | dropped uid money hno => exact ⟨rfl, hfair⟩
  | banker uid money => exact ⟨rfl, hfair⟩

theorem Settled.deal (h : Settled g t) (hfair : FairDeal g.gameplayer) :
    t.poker = g.poker ∧ FairDeal t.gameplayer := by
  cases h with
  | mk b gp lr o r p hb hgp ho hcred =>
    exact ⟨rfl, hfair.updated hgp fun _ v w hw => by rw [hw.onlyWin]⟩

/-- The hands of a table that is past the deal. -/
theorem DealInv.fair (h : DealInv g)
    (hs : g.curstate = .choicePokerType ∨ g.curstate = .waitShowResult) :
    FairDeal g.gameplayer := by
  unfold DealInv at h
  rcases hs with hs | hs
  · rwa [hs] at h
  · rwa [hs] at h

theorem dealInv_of_fair (hs : t.curstate = .choicePokerType ∨ t.curstate = .waitShowResult)
    (hfair : FairDeal t.gameplayer) : DealInv t := by
  unfold DealInv
  rcases hs with hs | hs
  · rw [hs]
    exact hfair
  · rw [hs]
    exact hfair

/-! ## Moves -/

/-- No move but the end of the bets touches the deck or a hand. -/
theorem move_fair (h : Move env g m t) (hinv : DealInv g) (hbet : g.curstate ≠ .waitBet)
    (hdue : m = .timer .dealPoker → g.curstate = .dealPoker → FairDeal g.gameplayer) :
    t.poker = g.poker ∧ DealInv t := by
  cases h with
  | ignore _ hi => exact ⟨rfl, hinv⟩
  | arm uid hs hsit hclose => exact ⟨rfl, trivial⟩
  | disarm _ hs hsit => exact ⟨rfl, trivial⟩
  | startRound log o t hs ho hopen => exact hopen.deal
  | grab uid x gp o hs ho hgp =>
    refine ⟨rfl, ?_⟩
    unfold DealInv
    rw [show ({ g with gameplayer := gp, outbox := g.outbox ++ o } : Game).curstate
      = .grabTheBanker from hs]
    trivial
  | chooseBanker _ uid source money gp o t hs huid ho hgp hopen => exact hopen.deal
  | bet uid betmoney gp o hs hall ho hgp => exact absurd hs hbet
  | notify o hs ho => exact absurd hs hbet
  | deal _ bets gp poker pos o hs hm ho hbets hbid hgp => exact absurd hs hbet
  | deckOut _ bets gp poker pos o hs hm ho hbets hbid hgp => exact absurd hs hbet
  | choose o hs ho => exact ⟨rfl, hdue rfl hs⟩
  | choice uid ty cards g₁ hs hch hall =>
    obtain ⟨hpoker, hfair⟩ := hch.deal (hinv.fair (.inl hs))
    exact ⟨hpoker, dealInv_of_fair (.inl (hch.same.1.trans hs)) hfair⟩
  | compare uid ty cards g₁ g₂ hs hch hall hcmp =>
    obtain ⟨hpoker, hfair⟩ := hch.deal (hinv.fair (.inl hs))
    obtain ⟨hpoker', hfair'⟩ := hcmp.deal hfair
    exact ⟨hpoker'.trans hpoker, hfair'⟩
  | timeUp gp st n r o t hs ho hn hgp hst hcmp =>
    have hfair : FairDeal gp := (hinv.fair (.inl hs)).updated hgp fun _ v w hw => by rw [hw]
    exact hcmp.deal hfair
  | report _ g₁ hs hrep hcan =>
    obtain ⟨hpoker, hfair⟩ := hrep.deal (hinv.fair (.inr hs))
    exact ⟨hpoker, dealInv_of_fair (.inr (hrep.same.1.trans hs)) hfair⟩
  | settle _ g₁ t hs hrep hcan hset =>
    obtain ⟨hpoker, hfair⟩ := hrep.deal (hinv.fair (.inr hs))
    obtain ⟨hpoker', hfair'⟩ := hset.deal hfair
    exact ⟨hpoker'.trans hpoker,
      dealInv_of_fair (.inr (hset.same.1.trans (hrep.same.1.trans hs))) hfair'⟩
  | reveal o hs ho => exact ⟨rfl, hinv.fair (.inr hs)⟩
  | close t hs hclosed =>
    cases hclosed with
    | mk n r p conf o again hn ho hagain =>
      refine ⟨rfl, ?_⟩
      cases again with
      | false => trivial
      | true => trivial

/-- The end of the bets shuffles the deck, and deals everybody in unless it is too small. -/
theorem endBet_deal {u : Game} (h : Rebid g u) (hinv : Inv g) (hs : g.curstate = .waitBet)
    (hdeck : g.poker.Perm deck) (ht : t = Handler.after (u.endBet env)) :
    t.poker.Perm deck ∧ DealInv t := by
  obtain ⟨gp, o, hgp, rfl⟩ := h
  set s := ({ g with gameplayer := gp, outbox := g.outbox ++ o } : Game).changeState .dealPoker
    with hstart
  have hch : NoChoice s := by
    intro k v hv
    obtain ⟨w, hw, hsame⟩ := hgp.get?_of_new hv
    rw [hsame]
    exact (hinv.bet hs).2.2 k w hw
  have hshuffled : (s.shufflePoker env).poker.Perm deck :=
    (Poker.shuffle_perm env.rnd g.poker).trans hdeck
  unfold endBet at ht
  obtain ⟨gp', pos, o', -, ⟨hgp', hok⟩ | ⟨hgp', hshort, herr⟩⟩ :=
    dealPoker_dealt env hch
  · rw [Handler.bind_of_ok hok] at ht
    rw [ht]
    have hfair : FairDeal gp' := fairDeal_of_dealt hshuffled hgp'
    exact ⟨hshuffled, fun _ => hfair, fun _ => hfair⟩
  · rw [Handler.bind_of_error herr] at ht
    rw [ht]
    -- more than ten players, and nothing that would go on with the round
    have hlen : s.poker.length = 52 := hdeck.length_eq.trans length_deck
    have hmany : 10 < gp'.size := by
      rw [hgp'.size]
      omega
    have hlive : g.timers.live .dealPoker = 0 := hinv.noDeal (by rw [hs]; decide)
    refine ⟨hshuffled, fun hsize => ?_, fun hpos => ?_⟩
    · exact absurd hsize (not_le.mpr hmany)
    · exact absurd hlive (Nat.pos_iff_ne_zero.mp hpos)

/-- While bets are taken the deck stays an arrangement of the cards, and a deal is fair. -/
theorem waitBet_deal (h : Ready g m) (hs : g.curstate = .waitBet) (hdeck : g.poker.Perm deck)
    (ht : t = Handler.after (g.waitBet env m)) : t.poker.Perm deck ∧ DealInv t := by
  rcases waitBet_cases env g m with ⟨-, hopen⟩ | ⟨u, hbid, hstay | hend⟩
  · obtain ⟨o, -, hok⟩ := notifyBet_spec env h.inv.seats.seated
    rw [hopen, hok] at ht
    rw [ht]
    exact ⟨hdeck, trivial⟩
  · obtain ⟨gp, o, -, heq⟩ := hbid.rebid
    rw [hstay] at ht
    obtain rfl : t = u := ht
    rw [heq]
    refine ⟨hdeck, ?_⟩
    unfold DealInv
    rw [show ({ g with gameplayer := gp, outbox := g.outbox ++ o } : Game).curstate
      = .waitBet from hs]
    trivial
  · rw [hend] at ht
    exact endBet_deal hbid.rebid h.inv hs hdeck ht

/-! ## Runs -/

theorem deal_inductive : system.Inductive fun g => g.poker.Perm deck ∧ DealInv g where
  init := by
    rintro g ⟨conf, rfl⟩
    exact ⟨List.Perm.refl _, trivial⟩
  step := by
    rintro g e t hg ⟨hdeck, hinv⟩ hstep
    have hsound := inv_invariant g hg
    rcases StepIn.cases hsound (Step.stepIn hstep) with
      ⟨env, g', m, -, hf, hready, ht⟩ | ⟨hfound, hlive⟩
    · have hfound := found_found hsound hf
      have hdue := live_found hsound hf .dealPoker
      have hinv' := hfound.dealInv (by omega) hinv
      have hdeck' : g'.poker.Perm deck := by rwa [hfound.poker]
      by_cases hbet : g'.curstate = .waitBet
      · rw [command, hbet] at ht
        exact waitBet_deal hready hbet hdeck' ht
      · have hmove : Move env g' m t := by
          rw [ht]
          exact moves_after (command_moves hready.sound)
        obtain ⟨hpoker, hnext⟩ := move_fair hmove hinv' hbet fun hm hs => by
          -- the timeout that came due was live before
          rw [if_pos hm] at hdue
          rw [DealInv, hfound.curstate.symm.trans hs] at hinv
          exact (hinv.2 (by omega)).subset hfound.records
        exact ⟨by rwa [hpoker], hnext⟩
    · exact ⟨by rwa [hfound.poker], hfound.dealInv (hlive _).le hinv⟩

/-- **The deal.** Over any number of rounds and whatever is drawn, the deck stays an arrangement
of the same 52 cards, and in a round of at most ten players everybody is dealt five of them,
none of them twice. -/
theorem deck_and_hands (h : system.Reachable g) :
    (g.poker.Perm deck ∧ g.poker.length = 52 ∧ g.poker.Nodup ∧ ∀ c, c ∈ g.poker ↔ c.InDeck) ∧
    (g.curstate = .dealPoker ∨ g.curstate = .choicePokerType ∨ g.curstate = .waitShowResult ∨
      g.curstate = .showResult → g.gameplayer.size ≤ 10 → FairDeal g.gameplayer) := by
  obtain ⟨hdeck, hinv⟩ := deal_inductive.invariant g h
  refine ⟨⟨hdeck, hdeck.length_eq.trans length_deck, hdeck.nodup_iff.mpr nodup_deck,
    fun c => hdeck.mem_iff.trans mem_deck⟩, fun hs hsize => ?_⟩
  unfold DealInv at hinv
  rcases hs with hs | hs | hs | hs
  · rw [hs] at hinv
    exact hinv.1 hsize
  · rwa [hs] at hinv
  · rwa [hs] at hinv
  · rwa [hs] at hinv

/-- Two players' hands at the end of their first round. -/
theorem deck_and_hands_two : ∃ g, system.Reachable g ∧ g.curstate = .waitShowResult ∧
    g.gameplayer.size = 2 ∧ FairDeal g.gameplayer := by
  obtain ⟨g, hg, hend⟩ := TSys.reachable_of_exec (T := system) (l := toResults)
    (p := fun g => decide (g.curstate = .waitShowResult ∧ g.gameplayer.size = 2))
    (exec_step .quiet) (s := creatGame .base50) ⟨_, rfl⟩ (by decide +kernel)
  obtain ⟨hs, hsize⟩ := of_decide_eq_true hend
  exact ⟨g, hg, hs, hsize, (deck_and_hands hg).2 (.inr (.inr (.inl hs))) (by omega)⟩

end Game

end DnServer.Bullfight
