import DnServer.Bullfight.Game.Invariant

/-!
# The game service: one fee a round

`NotifyBet` charges the fee and opens the bets. A round whose banker is shown
first waits for `T_WAIT_BET` before it, but bets are taken during the wait: the
bet that completes them deals the cards of a round nobody paid for. Every other
way into the deal goes through `NotifyBet` exactly once.

* `one_fee_per_round`: `FeeInv` says what was called so far: at `waitBet` either the fee
  was charged and `T_WAIT_BET` is no longer to come, or nothing was called and it is.
* `early_bet_deals_uncharged`: the other player bets while the choice is shown.
-/

namespace DnServer.Bullfight

open DnServer.Lib

namespace Game

/-! ## The record of a round -/

/-- The procedures entered since the round's records were made. -/
def noteCalls (g : Game) (_ : Event) (t : Game) (calls : List Proc) : List Proc :=
  (if g.curstate = .waitStartGame then [] else calls) ++ t.calls

/-- The table with the procedures of the running round. -/
def feeSystem : TSys (Game × List Proc) Event := system.observe (fun _ => []) noteCalls

/-- What a round that was charged once has entered. -/
def charged : List Proc := [.notifyBet, .takeFee]

/-- A bet that completes the bets while the table still waits for `T_WAIT_BET`. -/
def EarlyBet (g : Game) : Event → Prop
  | .msg uid _ (.someOneBet betmoney) => g.curstate = .waitBet ∧ 0 < g.timers.live .waitBet ∧
      (g.someOneBet uid betmoney).isAllHaveBet = true
  | _ => False

instance (g : Game) : (e : Event) → Decidable (EarlyBet g e)
  | .msg _ _ (.someOneBet _) => inferInstanceAs (Decidable (_ ∧ _ ∧ _))
  | .msg _ _ .someOneEnter | .msg _ _ .someOneSit | .msg _ _ .tryStand | .msg _ _ .tryQuit
  | .msg _ _ (.playerMoney _) | .msg _ _ (.someOneGrab _ _) | .msg _ _ (.bfPokerType _ _)
  | .msg _ _ (.loserGetResult _) | .msg _ _ (.bankerMoney _) | .timeout _ | .update _ | .rehash =>
    inferInstanceAs (Decidable False)

/-- The timers of the bets, and what the round has been charged: before the bets
nothing, and while the bets are taken once, or not yet with `T_WAIT_BET` to
come. -/
def FeeInv (g : Game) (calls : List Proc) : Prop :=
  match g.curstate with
  | .waitPlayer | .waitStartGame => g.timers.live .waitBet = 0 ∧ g.timers.live .bet = 0
  | .grabTheBanker => calls = [] ∧ g.timers.live .waitBet = 0 ∧ g.timers.live .bet = 0
  | .waitBet => (calls = charged ∧ g.timers.live .waitBet = 0) ∨
      (calls = [] ∧ g.timers.live .waitBet = 1 ∧ g.timers.live .bet = 0)
  | _ => True

/-- The invariant when the handler is called for `m`: the timeout that is due has
left the schedule. -/
def FeeReady (g : Game) (m : Mtype) (calls : List Proc) : Prop :=
  match g.curstate, m with
  | .waitBet, .timer .waitBet => calls = [] ∧ g.timers.live .waitBet = 0
  | .waitBet, .timer .bet => calls = charged ∧ g.timers.live .waitBet = 0
  | _, _ => FeeInv g calls

private theorem feeReady_of {g : Game} {m : Mtype} {calls : List Proc} (h : FeeInv g calls)
    (hm : ∀ t, m ≠ .timer t) : FeeReady g m calls := by
  unfold FeeReady
  cases m with
  | timer t => exact absurd rfl (hm t)
  | msg uid x =>
    cases g.curstate with
    | _ => exact h

/-- The state and the live timeouts decide the invariant. -/
private theorem feeInv_congr {g t : Game} {calls : List Proc} (hcur : t.curstate = g.curstate)
    (hwait : t.timers.live .waitBet = g.timers.live .waitBet)
    (hbet : t.timers.live .bet = g.timers.live .bet) (h : FeeInv g calls) : FeeInv t calls := by
  unfold FeeInv at *
  rw [hcur, hwait, hbet]
  exact h

/-! ## Moves -/

private theorem live_start_ne' (t : Timers TimerId) {i j : TimerId} (h : j ≠ i) (ti : ℕ) :
    (t.start i ti).live j = t.live j := by
  rw [Timers.live_start, if_neg h, Nat.add_zero]

/-- A round opens uncharged with `T_WAIT_BET` to come, or charged. -/
private theorem opening_fee {env : Env} {g t : Game} (ht : Opening env g t) (hcalls : g.calls = [])
    (hwait : g.timers.live .waitBet = 0) (hbet : g.timers.live .bet = 0) : FeeInv t t.calls := by
  cases ht with
  | close hsit => exact ⟨Timers.live_removeAll _ _, Timers.live_removeAll _ _⟩
  | grab o hsit hneed ho =>
    refine ⟨hcalls, ?_, ?_⟩
    · exact (live_start_ne' _ (by decide) _).trans hwait
    · exact (live_start_ne' _ (by decide) _).trans hbet
  | animate hsit hneed hsource =>
    refine .inr ⟨hcalls, ?_, ?_⟩
    · show (g.timers.start .waitBet _).live .waitBet = 1
      rw [Timers.live_start, if_pos rfl, hwait]
    · exact (live_start_ne' _ (by decide) _).trans hbet
  | bet o hsit hneed ho =>
    refine .inl ⟨?_, ?_⟩
    · show g.calls ++ [.notifyBet, .takeFee] = charged
      rw [hcalls]
      rfl
    · exact (live_start_ne' _ (by decide) _).trans hwait

/-- Where the handler does nothing the invariant is as it was. -/
private theorem ignored_fee {env : Env} {g : Game} {m : Mtype} {calls : List Proc}
    (hi : Ignored env g m) (h : FeeReady g m calls) : FeeInv g calls := by
  unfold FeeReady at h
  cases hs : g.curstate with
  | waitBet =>
    rw [hs] at h
    cases m with
    | msg uid x => exact h
    | timer t =>
      cases t with
      | bet => exact absurd hi (by simp [Ignored, hs])
      | waitBet => exact absurd hi (by simp [Ignored, hs])
      | _ => exact h
  | _ =>
    rw [hs] at h
    exact h

/-- The states in which the record of the round no longer matters. -/
private theorem feeInv_late {t : Game} {calls : List Proc}
    (h : t.curstate ≠ .waitPlayer ∧ t.curstate ≠ .waitStartGame ∧ t.curstate ≠ .grabTheBanker ∧
      t.curstate ≠ .waitBet) : FeeInv t calls := by
  unfold FeeInv
  cases hs : t.curstate with
  | waitPlayer => exact absurd hs h.1
  | waitStartGame => exact absurd hs h.2.1
  | grabTheBanker => exact absurd hs h.2.2.1
  | waitBet => exact absurd hs h.2.2.2
  | _ => trivial

/-- No timer of the bets runs between two rounds. -/
private theorem feeInv_idle {g : Game} {calls : List Proc}
    (hs : g.curstate = .waitPlayer ∨ g.curstate = .waitStartGame) (h : FeeInv g calls) :
    g.timers.live .waitBet = 0 ∧ g.timers.live .bet = 0 := by
  rcases hs with hs | hs
  · rwa [FeeInv, hs] at h
  · rwa [FeeInv, hs] at h

/-- New records and messages leave a running round's record right. -/
private theorem feeInv_told {g : Game} {calls : List Proc} (hs : g.curstate ≠ .waitStartGame)
    (hcalls : g.calls = []) (h : FeeInv g calls) (gp : Table Uid GamePlayer) (o : List Out) :
    FeeInv { g with gameplayer := gp, outbox := g.outbox ++ o }
      ((if g.curstate = .waitStartGame then [] else calls) ++ g.calls) := by
  rw [if_neg hs, hcalls, List.append_nil]
  exact feeInv_congr rfl rfl rfl h

/-- Every move keeps the record right. -/
private theorem move_fee {env : Env} {g t : Game} {m : Mtype} {calls : List Proc}
    (h : Move env g m t) (hcalls : g.calls = []) (hfee : FeeReady g m calls) :
    FeeInv t ((if g.curstate = .waitStartGame then [] else calls) ++ t.calls) := by
  have hready := hfee
  unfold FeeReady at hfee
  cases h with
  | ignore _ hi =>
    have hinv := ignored_fee hi hready
    rw [hcalls, List.append_nil]
    unfold FeeInv at hinv ⊢
    cases hs : g.curstate with
    | _ =>
      rw [hs] at hinv
      exact hinv
  | arm uid hs hsit hclose =>
    rw [hs] at hfee
    obtain ⟨hwait, hbet⟩ := feeInv_idle (.inl hs) hfee
    exact ⟨(live_start_ne' _ (by decide) _).trans hwait,
      (live_start_ne' _ (by decide) _).trans hbet⟩
  | disarm _ hs hsit =>
    rw [hs] at hfee
    obtain ⟨hwait, hbet⟩ := feeInv_idle (.inr hs) hfee
    refine ⟨?_, ?_⟩
    · show (g.timers.remove .waitStart).live .waitBet = 0
      rw [Timers.live_remove, if_neg (by decide), hwait]
    · show (g.timers.remove .waitStart).live .bet = 0
      rw [Timers.live_remove, if_neg (by decide), hbet]
  | startRound log o t hs ho hopen =>
    rw [hs] at hfee
    obtain ⟨hwait, hbet⟩ := feeInv_idle (.inr hs) hfee
    -- the records are new, and so is what the round has been charged
    rw [if_pos hs, List.nil_append]
    exact opening_fee hopen hcalls hwait hbet
  | grab uid x gp o hs ho hgp =>
    rw [hs] at hfee
    exact feeInv_told (by rw [hs]; decide) hcalls hfee gp o
  | chooseBanker _ uid source money gp o t hs huid ho hgp hopen =>
    rw [hs] at hfee
    obtain ⟨rfl, hwait, hbet⟩ :
        calls = [] ∧ g.timers.live .waitBet = 0 ∧ g.timers.live .bet = 0 := by
      have hinv : FeeInv g calls := hfee
      rwa [FeeInv, hs] at hinv
    rw [ite_self, List.nil_append]
    exact opening_fee hopen hcalls hwait hbet
  | bet uid betmoney gp o hs hall ho hgp =>
    rw [hs] at hfee
    exact feeInv_told (by rw [hs]; decide) hcalls hfee gp o
  | notify o hs ho =>
    rw [hs] at hfee
    obtain ⟨rfl, hwait⟩ : calls = [] ∧ g.timers.live .waitBet = 0 := hfee
    refine .inl ⟨?_, ?_⟩
    · rw [ite_self, List.nil_append]
      show g.calls ++ [.notifyBet, .takeFee] = charged
      rw [hcalls]
      rfl
    · exact (live_start_ne' _ (by decide) _).trans hwait
  | deal _ bets gp poker pos o hs hm ho hbets hbid hgp => exact feeInv_late (by simp)
  | deckOut _ bets gp poker pos o hs hm ho hbets hbid hgp => exact feeInv_late (by simp)
  | choose o hs ho => exact feeInv_late (by simp)
  | choice uid ty cards g₁ hs hch hall =>
    refine feeInv_late ?_
    rw [hch.same.1, hs]
    decide
  | compare uid ty cards g₁ g₂ hs hch hall hcmp => exact feeInv_late (by simp)
  | timeUp gp st n r o t hs ho hn hgp hst hcmp => exact feeInv_late (by simp)
  | report _ g₁ hs hrep hcan =>
    refine feeInv_late ?_
    rw [hrep.same.1, hs]
    decide
  | settle _ g₁ t hs hrep hcan hset =>
    refine feeInv_late ?_
    rw [hset.same.1, hrep.same.1, hs]
    decide
  | reveal o hs ho => exact feeInv_late (by simp)
  | close t hs hclosed =>
    cases hclosed with
    | mk n r p conf o again hn ho hagain =>
      -- whether or not another round is armed, no timer of the bets is left
      cases again with
      | false => exact ⟨Timers.live_removeAll _ _, Timers.live_removeAll _ _⟩
      | true =>
        refine ⟨?_, ?_⟩
        · exact (live_start_ne' _ (by decide) _).trans (Timers.live_removeAll _ _)
        · exact (live_start_ne' _ (by decide) _).trans (Timers.live_removeAll _ _)

/-- The ways into the deal, and what they enter: no procedure of the round. -/
private theorem move_deal {env : Env} {g t : Game} {m : Mtype} (h : Move env g m t)
    (ht : t.curstate = .dealPoker) : t.calls = g.calls ∧
      (g.curstate = .dealPoker ∨ g.curstate = .waitBet ∧
        (m = .timer .bet ∨ ∃ uid betmoney, m = .msg uid (.someOneBet betmoney) ∧
          (g.someOneBet uid betmoney).isAllHaveBet = true)) := by
  cases h with
  | ignore _ hi => exact ⟨rfl, .inl ht⟩
  | arm uid hs hsit hclose => cases ht
  | disarm _ hs hsit => cases ht
  | startRound log o t hs ho hopen =>
    cases hopen with
    | _ => cases ht
  | grab uid x gp o hs ho hgp => exact ⟨rfl, .inl ht⟩
  | chooseBanker _ uid source money gp o t hs huid ho hgp hopen =>
    cases hopen with
    | _ => cases ht
  | bet uid betmoney gp o hs hall ho hgp => exact ⟨rfl, .inl ht⟩
  | notify o hs ho => cases ht
  | deal _ bets gp poker pos o hs hm ho hbets hbid hgp => exact ⟨rfl, .inr ⟨hs, hm⟩⟩
  | deckOut _ bets gp poker pos o hs hm ho hbets hbid hgp => exact ⟨rfl, .inr ⟨hs, hm⟩⟩
  | choose o hs ho => cases ht
  | choice uid ty cards g₁ hs hch hall => exact ⟨hch.same.2.2, .inl (hch.same.1.symm.trans ht)⟩
  | compare uid ty cards g₁ g₂ hs hch hall hcmp => cases ht
  | timeUp gp st n r o t hs ho hn hgp hst hcmp => cases ht
  | report _ g₁ hs hrep hcan => exact ⟨hrep.same.2.2, .inl (hrep.same.1.symm.trans ht)⟩
  | settle _ g₁ t hs hrep hcan hset =>
    rw [hset.same.1, hrep.same.1, hs] at ht
    cases ht
  | reveal o hs ho => cases ht
  | close t hs hclosed =>
    cases hclosed with
    | mk n r p conf o again hn ho hagain =>
      cases again with
      | _ => cases ht

/-! ## Steps -/

/-- The timeout that is due has left the schedule when its handler is called. -/
private theorem feeReady_fire {g : Game} {calls : List Proc} {n : ℕ} {p : Timeout TimerId}
    (hp : g.timers.pending[n]? = some p) (hlive : g.timers.isLive p = true)
    (h : FeeInv g calls) :
    FeeReady ({ g with timers := g.timers.pop n } : Game).begin (.timer p.timerid) calls := by
  have hwait := Timers.live_pop hp .waitBet
  have hbet := Timers.live_pop hp .bet
  simp only [hlive, and_true] at hwait hbet
  unfold FeeReady FeeInv at *
  show (match g.curstate, Mtype.timer p.timerid with
    | .waitBet, .timer .waitBet => calls = [] ∧ (g.timers.pop n).live .waitBet = 0
    | .waitBet, .timer .bet => calls = charged ∧ (g.timers.pop n).live .waitBet = 0
    | _, _ => match g.curstate with
      | .waitPlayer | .waitStartGame =>
        (g.timers.pop n).live .waitBet = 0 ∧ (g.timers.pop n).live .bet = 0
      | .grabTheBanker =>
        calls = [] ∧ (g.timers.pop n).live .waitBet = 0 ∧ (g.timers.pop n).live .bet = 0
      | .waitBet => (calls = charged ∧ (g.timers.pop n).live .waitBet = 0) ∨
          (calls = [] ∧ (g.timers.pop n).live .waitBet = 1 ∧ (g.timers.pop n).live .bet = 0)
      | _ => True)
  cases hs : g.curstate with
  | waitBet =>
    rw [hs] at h
    cases ht : p.timerid with
    | waitBet =>
      -- a timeout was live, so the round has not been charged
      rw [ht, if_pos rfl] at hwait
      rcases h with ⟨-, h0⟩ | ⟨rfl, h1, -⟩
      · omega
      · exact ⟨rfl, by omega⟩
    | bet =>
      rw [ht, if_neg (by decide)] at hwait
      rw [ht, if_pos rfl] at hbet
      rcases h with ⟨rfl, h0⟩ | ⟨-, -, h0⟩
      · exact ⟨rfl, by omega⟩
      · omega
    | _ =>
      rw [ht, if_neg (by decide)] at hwait hbet
      rw [← hwait, ← hbet] at h
      exact h
  | waitPlayer =>
    rw [hs] at h
    exact ⟨by omega, by omega⟩
  | waitStartGame =>
    rw [hs] at h
    exact ⟨by omega, by omega⟩
  | grabTheBanker =>
    rw [hs] at h
    exact ⟨h.1, by omega, by omega⟩
  | _ => trivial

/-- What the invariant and the record are after a step that calls no handler. -/
private theorem quiet_fee {g t : Game} {e : Event} {calls : List Proc} (h : FeeInv g calls)
    (hcur : t.curstate = g.curstate) (hcalls : t.calls = [])
    (hwait : t.timers.live .waitBet = g.timers.live .waitBet)
    (hbet : t.timers.live .bet = g.timers.live .bet) : FeeInv t (noteCalls g e t calls) := by
  unfold noteCalls
  rw [hcalls, List.append_nil]
  by_cases hs : g.curstate = .waitStartGame
  · rw [if_pos hs]
    unfold FeeInv at h ⊢
    rw [hs] at h
    rw [hcur, hs, hwait, hbet]
    exact h
  · rw [if_neg hs]
    exact feeInv_congr hcur hwait hbet h

/-- A step keeps the record right. -/
private theorem stepped_fee {g t : Game} {e : Event} {calls : List Proc} (hinv : Inv g)
    (hstep : Stepped g e t) (h : FeeInv g calls) : FeeInv t (noteCalls g e t calls) := by
  cases hstep with
  | msg env uid address m t hready hmove =>
    have hpre := pretreat_pretreated (begin_inv hinv) env uid address m
    have hfee : FeeInv (g.begin.pretreat env uid address m) calls :=
      feeInv_congr (g := g) hpre.curstate (by rw [hpre.timers]; rfl) (by rw [hpre.timers]; rfl) h
    have hnext := move_fee hmove hpre.calls (feeReady_of hfee fun _ hm => by cases hm)
    rw [hpre.curstate] at hnext
    exact hnext
  | fire env n p t hp hlive hready hmove =>
    have hnext := move_fee hmove rfl (feeReady_fire hp hlive h)
    exact hnext
  | stale n p hp hlive =>
    have hwait := Timers.live_pop hp .waitBet
    have hbet := Timers.live_pop hp .bet
    simp only [hlive, Bool.false_eq_true, and_false, if_false, Nat.add_zero] at hwait hbet
    exact quiet_fee h rfl rfl hwait hbet
  | idle n => exact quiet_fee h rfl rfl rfl rfl
  | update conf =>
    obtain ⟨c, u, o, -, hnew⟩ := needUpdateGameconf_spec g conf
    rw [hnew]
    exact quiet_fee h rfl rfl rfl rfl
  | rehash t ht =>
    obtain ⟨seater, gameplayer, players, -, -, -, rfl⟩ := ht
    exact quiet_fee h rfl rfl rfl rfl

theorem fee_inductive : feeSystem.Inductive fun p => FeeInv p.1 p.2 where
  init := by
    rintro p ⟨⟨conf, hconf⟩, -⟩
    rw [hconf]
    exact ⟨rfl, rfl⟩
  step := by
    rintro p e q hp ih ⟨hstep, hnote⟩
    have hinv := inv_invariant _ hp.of_observe
    rw [hnote]
    exact stepped_fee hinv (hstep.stepped hinv) ih

/-- What was sent before does not change who has bet. -/
private theorem someOneBet_begin (g : Game) (uid : Uid) (betmoney : ℚ) :
    (g.begin.someOneBet uid betmoney).isAllHaveBet = (g.someOneBet uid betmoney).isAllHaveBet := by
  unfold someOneBet sendTo
  by_cases hmem : uid ∈ g.gameplayer
  · rw [if_pos hmem, if_pos (show uid ∈ g.begin.gameplayer from hmem)]
    by_cases hcap : betmoney > g.topupling * g.gameconf.basebet
    · rw [if_pos hcap, if_pos (show betmoney > g.begin.topupling * g.begin.gameconf.basebet
        from hcap)]
      cases hp : g.players.get? uid with
      | none =>
        rw [show g.begin.players.get? uid = none from hp]
        rfl
      | some p =>
        rw [show g.begin.players.get? uid = some p from hp]
        rfl
    · rw [if_neg hcap, if_neg (show ¬ betmoney > g.begin.topupling * g.begin.gameconf.basebet
        from hcap)]
      rfl
  · rw [if_neg hmem, if_neg (show ¬ uid ∈ g.begin.gameplayer from hmem)]
    rfl

/-- A step into the deal follows one charge, unless an early bet made it: then
the round was not charged at all. -/
private theorem deal_charged {g t : Game} {e : Event} {calls : List Proc} (hinv : Inv g)
    (hstep : Stepped g e t) (h : FeeInv g calls) (hs : g.curstate ≠ .dealPoker)
    (ht : t.curstate = .dealPoker) :
    noteCalls g e t calls = if EarlyBet g e then [] else charged := by
  have hnote : ∀ {calls' : List Proc}, g.curstate = .waitBet → t.calls = [] → calls = calls' →
      noteCalls g e t calls = calls' := by
    intro calls' hbet hcalls heq
    unfold noteCalls
    rw [if_neg (by rw [hbet]; decide), hcalls, List.append_nil, heq]
  cases hstep with
  | msg env uid address m t hready hmove =>
    have hpre := pretreat_pretreated (begin_inv hinv) env uid address m
    obtain ⟨hcalls, hdeal | ⟨hbet, hm | ⟨u, betmoney, hm, hall⟩⟩⟩ := move_deal hmove ht
    · exact absurd (hpre.curstate.symm.trans hdeal) hs
    · cases hm
    · cases hm
      have hcur : g.curstate = .waitBet := hbet
      have hcalls' : t.calls = [] := hcalls
      have hall' : (g.someOneBet uid betmoney).isAllHaveBet = true := by
        rw [← someOneBet_begin]
        exact hall
      unfold FeeInv at h
      rw [hcur] at h
      -- whether `T_WAIT_BET` is still to come decides whether the round was charged
      rcases h with ⟨hcharged, hwait⟩ | ⟨hnone, hwait, -⟩
      · rw [if_neg fun hearly => by have := hearly.2.1; omega]
        exact hnote hcur hcalls' hcharged
      · rw [if_pos ⟨hcur, by omega, hall'⟩]
        exact hnote hcur hcalls' hnone
  | fire env n p t hp hlive hready hmove =>
    obtain ⟨hcalls, hdeal | ⟨hbet, hm | ⟨u, betmoney, hm, -⟩⟩⟩ := move_deal hmove ht
    · exact absurd hdeal hs
    · have hcur : g.curstate = .waitBet := hbet
      have hfee := feeReady_fire hp hlive h
      rw [hm] at hfee
      unfold FeeReady at hfee
      rw [show ({ g with timers := g.timers.pop n } : Game).begin.curstate = .waitBet
        from hcur] at hfee
      rw [if_neg (show ¬ EarlyBet g (.timeout n) from fun hearly => hearly)]
      exact hnote hcur hcalls hfee.1
    · cases hm
  | stale n p hp hlive => exact absurd ht hs
  | idle n => exact absurd ht hs
  | update conf =>
    obtain ⟨c, u, o, -, hnew⟩ := needUpdateGameconf_spec g conf
    rw [hnew] at ht
    exact absurd ht hs
  | rehash t hre =>
    obtain ⟨seater, gameplayer, players, -, -, -, rfl⟩ := hre
    exact absurd ht hs

/-- A step that leaves the table in the deal enters no procedure. -/
private theorem deal_calls {g t : Game} {e : Event} (hinv : Inv g) (hstep : Stepped g e t)
    (ht : t.curstate = .dealPoker) : t.calls = [] := by
  cases hstep with
  | msg env uid address m t hready hmove =>
    have hpre := pretreat_pretreated (begin_inv hinv) env uid address m
    exact (move_deal hmove ht).1.trans hpre.calls
  | fire env n p t hp hlive hready hmove => exact (move_deal hmove ht).1
  | stale n p hp hlive => rfl
  | idle n => rfl
  | update conf =>
    obtain ⟨c, u, o, -, hnew⟩ := needUpdateGameconf_spec g conf
    rw [hnew]
  | rehash t hre =>
    obtain ⟨seater, gameplayer, players, -, -, -, rfl⟩ := hre
    rfl

/-! ## One fee -/

/-- The round was charged exactly once. -/
def ChargedOnce (calls : List Proc) : Prop :=
  calls.count .notifyBet = 1 ∧ calls.count .takeFee = 1

/-- **One fee a round.** In a run in which no bet completes the bets while
`T_WAIT_BET` is to come, every round that is dealt was charged once; and in any
run the step that deals a round deals one charged once unless it is such a bet. -/
theorem one_fee_per_round (p : Game × List Proc) :
    ((feeSystem.restrict fun p e => ¬ EarlyBet p.1 e).Reachable p →
      p.1.curstate = .dealPoker → ChargedOnce p.2) ∧
    ∀ e q, feeSystem.Reachable p → feeSystem.step p e q → p.1.curstate ≠ .dealPoker →
      q.1.curstate = .dealPoker → (ChargedOnce q.2 ↔ ¬ EarlyBet p.1 e) := by
  have honce : ChargedOnce charged := ⟨rfl, rfl⟩
  have hdeal : ∀ p e q, feeSystem.Reachable p → feeSystem.step p e q →
      p.1.curstate ≠ .dealPoker → q.1.curstate = .dealPoker →
      q.2 = if EarlyBet p.1 e then [] else charged := by
    intro p e q hp hstep hs hq
    have hinv := inv_invariant _ hp.of_observe
    rw [hstep.2]
    exact deal_charged hinv (hstep.1.stepped hinv) (fee_inductive.invariant p hp) hs hq
  constructor
  · intro hp
    have hrun : (feeSystem.restrict fun p e => ¬ EarlyBet p.1 e).Inductive fun p =>
        p.1.curstate = .dealPoker → ChargedOnce p.2 := ⟨?_, ?_⟩
    · exact hrun.invariant p hp
    · rintro p ⟨⟨conf, hconf⟩, -⟩ hs
      rw [hconf] at hs
      cases hs
    · rintro p e q hp ih ⟨hearly, hstep⟩ hq
      by_cases hs : p.1.curstate = .dealPoker
      · have hinv := inv_invariant _ hp.of_restrict.of_observe
        have hcalls := deal_calls hinv (hstep.1.stepped hinv) hq
        rw [hstep.2]
        unfold noteCalls
        rw [if_neg (by rw [hs]; decide), hcalls, List.append_nil]
        exact ih hs
      · rw [hdeal p e q hp.of_restrict hstep hs hq, if_neg hearly]
        exact honce
  · intro e q hp hstep hs hq
    rw [hdeal p e q hp hstep hs hq]
    by_cases hearly : EarlyBet p.1 e
    · rw [if_pos hearly]
      exact ⟨fun h => absurd h.1 (by decide), fun h => absurd hearly h⟩
    · rw [if_neg hearly]
      exact ⟨fun _ => hearly, fun _ => honce⟩

/-- Both players want the bank, and the other bets while the choice is shown. -/
def earlyBetRun : List Event :=
  twoSit ++ [.msg 1 101 (.someOneGrab 1 10000), .msg 2 102 (.someOneGrab 1 10000),
    .msg 2 102 (.someOneBet 50)]

/-- A round can be dealt that nobody was charged for. -/
theorem early_bet_deals_uncharged :
    ∃ p, feeSystem.Reachable p ∧ p.1.curstate = .dealPoker ∧ ¬ ChargedOnce p.2 := by
  obtain ⟨p, hp, hend⟩ := TSys.reachable_of_exec (T := feeSystem) (l := earlyBetRun)
    (p := fun p => decide (p.1.curstate = .dealPoker ∧ p.2 = []))
    (TSys.observeExec_step (exec_step .quiet)) (s := (creatGame .base50, []))
    ⟨⟨_, rfl⟩, rfl⟩ (by decide +kernel)
  obtain ⟨hs, hcalls⟩ := of_decide_eq_true hend
  refine ⟨p, hp, hs, ?_⟩
  rw [hcalls]
  exact fun h => absurd h.1 (by decide)

end Game

end DnServer.Bullfight
