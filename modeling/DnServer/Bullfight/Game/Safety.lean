import DnServer.Bullfight.Game.Invariant

/-!
# The game service: seats, the bank and the cards

What every reachable table satisfies: who is counted, who is in the round and
who holds the bank, and that nobody plays other cards than it was dealt.

* `table_invariant`: read off `Inv` and `handle_error`, the induction being
  `inv_invariant`.
* `no_cheating`: beside the table stands what each player was dealt; `HeldFrom` says
  that a hand is what it was in some order, with its type or none, and every move from
  the deal on keeps it (`move_holding`).
-/

namespace DnServer.Bullfight

open DnServer.Lib

namespace Game

/-! ## Seats and the bank -/

/-- **The table invariant.** The seats are counted; the players of a started
round are seated and at the table, and there are two of them or more; from the
bets to the results the banker is one of them. No lookup of a record fails: the
only error a dispatch can raise is the assertion on the size of a hand. -/
theorem table_invariant : system.Invariant fun g =>
    g.sitnum = g.seater.size ∧
      (g.isGameStart = true →
        (∀ k, k ∈ g.gameplayer → k ∈ g.seater ∧ k ∈ g.players) ∧ 2 ≤ g.gameplayer.size) ∧
      (g.curstate = .waitBet ∨ g.curstate = .dealPoker ∨ g.curstate = .choicePokerType ∨
        g.curstate = .waitShowResult → g.banker ∈ g.gameplayer) ∧
      ∀ env e err t, Admissible g e → handle env g e = .error (err, t) → err = .assertion := by
  intro g hg
  have h := inv_invariant g hg
  refine ⟨h.seats.sitnum, fun hstart => ⟨fun k hk => ?_, ?_⟩, fun hs => ?_, ?_⟩
  · exact ⟨h.seats.seated.gameplayer_seater k hk, h.seats.seated.gameplayer_players hk⟩
  · by_cases hgrab : g.curstate = .grabTheBanker
    · exact (h.grab hgrab).1
    · exact (h.banked hstart hgrab).1
  · rcases hs with hs | hs | hs | hs
    · exact (h.bet hs).2.1
    · exact (h.deal hs).2.1
    · exact (h.hand (.inl hs)).2.1
    · exact (h.hand (.inr hs)).2.1
  · exact fun env e err t ha hraise => handle_error h ha hraise

/-! ## The cards of a round -/

/-- The states from the deal to the end of the round. -/
def Holding (s : CurState) : Prop :=
  s = .dealPoker ∨ s = .choicePokerType ∨ s = .waitShowResult ∨ s = .showResult

/-- Every hand of `t` is a hand of `s`. -/
def HeldFrom (s t : Table Uid GamePlayer) : Prop :=
  ∀ k w, t.get? k = some w → ∃ v, s.get? k = some v ∧ w.cards = v.cards

theorem HeldFrom.refl (t : Table Uid GamePlayer) : HeldFrom t t := fun _ w hw => ⟨w, hw, rfl⟩

theorem HeldFrom.trans {s t u : Table Uid GamePlayer} (h : HeldFrom s t) (h' : HeldFrom t u) :
    HeldFrom s u := by
  intro k w hw
  obtain ⟨v, hv, hvw⟩ := h' k w hw
  obtain ⟨x, hx, hxv⟩ := h k v hv
  exact ⟨x, hx, hvw.trans hxv⟩

private theorem heldFrom_updated {s t : Table Uid GamePlayer}
    {R : Uid → GamePlayer → GamePlayer → Prop} (hgp : Table.Updated R s t)
    (hR : ∀ k v w, R k v w → w.cards = v.cards) : HeldFrom s t := by
  intro k w hw
  obtain ⟨v, hv, hvw⟩ := hgp.get?_of_new hw
  exact ⟨v, hv, hR k v w hvw⟩

private theorem heldFrom_compared {g t : Game} (h : Compared g t) :
    HeldFrom g.gameplayer t.gameplayer := by
  cases h with
  | mk gp losers hgp hsub hnb =>
    exact heldFrom_updated hgp fun _ _ _ h => by rw [h.same.1]

private theorem heldFrom_chosen {env : Env} {g t : Game} {uid : Uid} {ty : ℤ} {cards : List Card}
    (h : Chosen env g uid ty cards t) :
    HeldFrom g.gameplayer t.gameplayer := by
  cases h with
  | reject o ho => exact HeldFrom.refl _
  | accept v r o hv hcheck ho =>
    have hgp : Table.Updated (fun _ (x y : GamePlayer) => y.cards = x.cards) g.gameplayer
        (g.gameplayer.modify uid fun v =>
          { v with pokertype := ty, choicecards := cards, havechoice := true }) :=
      Table.updated_modify (fun _ _ => rfl) fun _ _ => rfl
    exact heldFrom_updated hgp fun _ _ _ h => h

private theorem heldFrom_reported {g t : Game} {m : Mtype} (h : Reported g m t) :
    HeldFrom g.gameplayer t.gameplayer := by
  cases h with
  | loser uid money v lose hv hw ha hl =>
    exact heldFrom_updated (updated_collect g uid _) fun _ _ _ h => by rw [h]
  | dropped uid money hno => exact HeldFrom.refl _
  | banker uid money => exact HeldFrom.refl _

private theorem heldFrom_settled {g t : Game} (h : Settled g t) :
    HeldFrom g.gameplayer t.gameplayer := by
  cases h with
  | mk b gp lr o r p hb hgp ho hcred =>
    exact heldFrom_updated hgp fun _ _ _ h => by rw [h.onlyWin]

/-- No round is past the deal when it opens. -/
private theorem opening_early {env : Env} {g t : Game} (h : Opening env g t) :
    ¬ Holding t.curstate := by
  cases h with
  | close => exact fun hs => by simp [Holding] at hs
  | grab => exact fun hs => by simp [Holding] at hs
  | animate => exact fun hs => by simp [Holding] at hs
  | bet => exact fun hs => by simp [Holding] at hs

/-- A move deals the cards, or leaves every hand as it is. -/
private theorem move_holding {env : Env} {g t : Game} {m : Mtype} (h : Move env g m t)
    (hs : Holding t.curstate) :
    (g.curstate = .waitBet ∧ t.curstate = .dealPoker) ∨
      (Holding g.curstate ∧ HeldFrom g.gameplayer t.gameplayer) := by
  cases h with
  | ignore _ hi => exact .inr ⟨hs, HeldFrom.refl _⟩
  | arm uid hg hsit hclose => exact absurd hs (by simp [Holding])
  | disarm _ hg hsit => exact absurd hs (by simp [Holding])
  | startRound log o t hg ho hopen => exact absurd hs (opening_early hopen)
  | grab uid x gp o hg ho hgp => exact absurd hs (by simp [Holding, hg])
  | chooseBanker _ uid source money gp o t hg huid ho hgp hopen =>
    exact absurd hs (opening_early hopen)
  | bet uid betmoney gp o hg hall ho hgp => exact absurd hs (by simp [Holding, hg])
  | notify o hg ho => exact absurd hs (by simp [Holding])
  | deal _ bets gp poker pos o hg hm ho hbets hbid hgp => exact .inl ⟨hg, rfl⟩
  | deckOut _ bets gp poker pos o hg hm ho hbets hbid hgp => exact .inl ⟨hg, rfl⟩
  | choose o hg ho => exact .inr ⟨.inl hg, HeldFrom.refl _⟩
  | choice uid ty cards g₁ hg hch hall => exact .inr ⟨.inr (.inl hg), heldFrom_chosen hch⟩
  | compare uid ty cards g₁ g₂ hg hch hall hcmp =>
    have hheld := (heldFrom_chosen hch).trans (heldFrom_compared hcmp)
    exact .inr ⟨.inr (.inl hg), hheld⟩
  | timeUp gp st n r o t hg ho hn hgp hst hcmp =>
    refine .inr ⟨.inr (.inl hg), HeldFrom.trans (t := gp) ?_ ?_⟩
    · exact heldFrom_updated hgp fun _ _ _ h => by rw [h]
    · exact heldFrom_compared hcmp
  | report _ g₁ hg hrep hcan => exact .inr ⟨.inr (.inr (.inl hg)), heldFrom_reported hrep⟩
  | settle _ g₁ t hg hrep hcan hset =>
    exact .inr ⟨.inr (.inr (.inl hg)), (heldFrom_reported hrep).trans (heldFrom_settled hset)⟩
  | reveal o hg ho => exact .inr ⟨.inr (.inr (.inl hg)), HeldFrom.refl _⟩
  | close t hg hclosed =>
    cases hclosed with
    | mk n r p conf o again hn ho hagain =>
      cases again with
      | false => exact absurd hs (by simp [Holding])
      | true => exact absurd hs (by simp [Holding])

private theorem stepped_holding {g t : Game} {e : Event} (hinv : Inv g) (h : Stepped g e t)
    (hs : Holding t.curstate) :
    (g.curstate = .waitBet ∧ t.curstate = .dealPoker) ∨
      (Holding g.curstate ∧ HeldFrom g.gameplayer t.gameplayer) := by
  cases h with
  | msg env uid address m t hready hmove =>
    have hpre := pretreat_pretreated (begin_inv hinv) env uid address m
    have hheld : HeldFrom g.gameplayer (g.begin.pretreat env uid address m).gameplayer :=
      fun k w hw => ⟨w, hpre.records k w hw, rfl⟩
    rcases move_holding hmove hs with ⟨hbet, hdeal⟩ | ⟨hhold, hrest⟩
    · exact .inl ⟨hpre.curstate.symm.trans hbet, hdeal⟩
    · rw [hpre.curstate] at hhold
      exact .inr ⟨hhold, hheld.trans hrest⟩
  | fire env n p t hp hlive hready hmove =>
    have hmoved := move_holding hmove hs
    exact hmoved
  | stale n p hp hlive => exact .inr ⟨hs, HeldFrom.refl _⟩
  | idle n => exact .inr ⟨hs, HeldFrom.refl _⟩
  | update conf =>
    obtain ⟨c, u, o, -, hnew⟩ := needUpdateGameconf_spec g conf
    rw [hnew] at hs ⊢
    exact .inr ⟨hs, HeldFrom.refl _⟩
  | rehash t ht =>
    obtain ⟨seater, gameplayer, players, -, hgp, -, rfl⟩ := ht
    refine .inr ⟨hs, fun k w hw => ⟨w, ?_, rfl⟩⟩
    rw [hgp.get?]
    exact hw

/-- The hands a step deals. -/
def noteDealt (g : Game) (_ : Event) (t : Game) (dealt : Uid → List Card) : Uid → List Card :=
  if g.curstate = .waitBet ∧ t.curstate = .dealPoker then
    fun k => ((t.gameplayer.get? k).map (·.cards)).getD []
  else dealt

/-- The table with the hands that were dealt last. -/
def dealtSystem : TSys (Game × (Uid → List Card)) Event := system.observe (fun _ _ => []) noteDealt

private theorem dealt_inductive : dealtSystem.Inductive fun p =>
    Holding p.1.curstate → ∀ k v, p.1.gameplayer.get? k = some v → p.2 k = v.cards where
  init := by
    rintro p ⟨⟨conf, hconf⟩, -⟩ hs
    rw [hconf] at hs
    exact absurd hs (by simp [creatGame, Holding])
  step := by
    rintro p e q hp ih ⟨hstep, hnote⟩ hs k w hw
    have hinv := inv_invariant _ hp.of_observe
    rw [hnote]
    unfold noteDealt
    rcases stepped_holding hinv (hstep.stepped hinv) hs with hdeal | ⟨hhold, hheld⟩
    · rw [if_pos hdeal, hw]
      rfl
    · have hold : ¬ (p.1.curstate = .waitBet ∧ q.1.curstate = .dealPoker) := by
        rintro ⟨hbet, -⟩
        rw [hbet] at hhold
        exact absurd hhold (by simp [Holding])
      obtain ⟨v, hv, hcards⟩ := hheld k w hw
      rw [if_neg hold, ih hhold k v hv, hcards]

/-- **No cheating by card choice.** Whatever the clients send, from the choice of
the cards to the end of the round every player holds the five cards it was
dealt, in some order, and its type is theirs or none. -/
theorem no_cheating : dealtSystem.Invariant fun p =>
    p.1.curstate = .choicePokerType ∨ p.1.curstate = .waitShowResult ∨
        p.1.curstate = .showResult →
      ∀ k v, p.1.gameplayer.get? k = some v →
        (p.2 k).length = 5 ∧ v.choicecards.Perm (p.2 k) ∧
          (v.pokertype = 0 ∨ ∃ ret, Poker.getBFType (p.2 k) [] = some (v.pokertype, ret)) := by
  intro p hp hs k v hv
  have hinv := inv_invariant _ hp.of_observe
  have hhands : Hands p.1.gameplayer := by
    rcases hs with hs | hs | hs
    · exact (hinv.hand (.inl hs)).2.2
    · exact (hinv.hand (.inr hs)).2.2
    · exact hinv.shown hs
  have hhand := hhands k v hv
  rw [dealt_inductive.invariant p hp (.inr hs) k v hv]
  exact ⟨hhand.size, hhand.same, hhand.typed⟩

end Game

end DnServer.Bullfight
