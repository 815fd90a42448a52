import DnServer.Bullfight.Game.Spec

/-!
# The game service: collecting, settling and closing a round
-/

namespace DnServer.Bullfight

open DnServer.Lib

namespace Game

/-! ## Collecting from the losers -/

/-- The records after `uid` lost `win` (a negative win) to the banker. -/
def collect (g : Game) (uid : Uid) (win : ℚ) : Table Uid GamePlayer :=
  (g.gameplayer.modify uid fun v => { v with winmoney := win }).modify g.banker
    fun b => { b with winmoney := b.winmoney - win }

/-- `w` is `v` but for its result. -/
def OnlyWin (v w : GamePlayer) : Prop := w = { v with winmoney := w.winmoney }

theorem OnlyWin.trans {u v w : GamePlayer} (h : OnlyWin u v) (h' : OnlyWin v w) :
    OnlyWin u w := by
  unfold OnlyWin at *
  rw [h', h]

theorem updated_collect (g : Game) (uid : Uid) (win : ℚ) :
    Table.Updated (fun _ => OnlyWin) g.gameplayer (g.collect uid win) := by
  have hset : ∀ (t : Table Uid GamePlayer) (k : Uid) (f : ℚ → ℚ),
      Table.Updated (fun _ => OnlyWin) t
        (t.modify k fun v => { v with winmoney := f v.winmoney }) := fun _ _ _ =>
    Table.updated_modify (fun _ _ => rfl) fun _ _ => rfl
  exact (hset g.gameplayer uid fun _ => win).trans (hset _ g.banker fun x => x - win)
    fun _ _ _ _ => OnlyWin.trans

theorem loserGetResult_ignored {g : Game} {uid : Uid} (h : g.owes uid = false) (money : ℚ) :
    g.loserGetResult uid money = .ok g := by
  unfold owes at h
  unfold loserGetResult
  cases hv : g.gameplayer.get? uid with
  | none => rfl
  | some v =>
    rw [hv] at h
    exact if_neg (of_decide_eq_false h)

/-- A player who owes is answered once, with the amount taken from it. -/
theorem loserGetResult_answered {g : Game} {uid : Uid} {v : GamePlayer}
    (hv : g.gameplayer.get? uid = some v) (hw : v.winmoney = 0) (ha : v.totaladd < 0)
    (hbanker : g.banker ∈ g.gameplayer) (money : ℚ) :
    ∃ lose, (uid ≠ g.banker →
        lose = -loserWin (v.totaladd * g.gameconf.basebet) money) ∧
      g.loserGetResult uid money = .ok { g with
        gameplayer := g.collect uid (loserWin (v.totaladd * g.gameconf.basebet) money)
        outbox := g.outbox ++ [.ret (.lose lose g.tablelog.cardsid)] } := by
  set win := loserWin (v.totaladd * g.gameconf.basebet) money
  have hbanker' : ∃ b, (g.gameplayer.modify uid fun v => { v with winmoney := win }).get? g.banker
      = some b := Table.mem_iff_get?.mp (Table.mem_modify.mpr hbanker)
  obtain ⟨b', hb'⟩ := hbanker'
  obtain ⟨w, hwget⟩ : ∃ w, (g.collect uid win).get? uid = some w :=
    Table.mem_iff_get?.mp (Table.mem_modify.mpr (Table.mem_modify.mpr (Table.mem_of_get? hv)))
  refine ⟨-w.winmoney, fun hne => ?_, ?_⟩
  · rw [collect, Table.get?_modify_ne _ _ hne, Table.get?_modify_self, hv] at hwget
    cases hwget
    rfl
  · unfold loserGetResult
    rw [hv]
    refine (if_pos ⟨hw, ha⟩).trans ?_
    refine (Handler.bind_of_ok (Handler.index_of_some hb' _ _) _).trans ?_
    exact Handler.bind_of_ok (Handler.index_of_some hwget _ _) _

/-! ## The settlement -/

/-- What the settlement pays a player: winners get their share, others nothing. -/
def payment (g : Game) (bankermoney : ℚ) (v : GamePlayer) : ℤ :=
  if g.isWinner v then
    winnerMoney g.gameconf.basebet bankermoney g.bankerLose v.totaladd
  else 0

/-- What the players of `done` are paid together. -/
def paid (g : Game) (bankermoney : ℚ) (done : List (Uid × GamePlayer)) : ℚ :=
  (done.map fun p => (g.payment bankermoney p.2 : ℚ)).sum

/-- Where a record stands once the players of `done` were settled. -/
structure SettledTo (g : Game) (bankermoney : ℚ) (done : List (Uid × GamePlayer)) (k : Uid)
    (v w : GamePlayer) : Prop where
  banker : k = g.banker → w = { v with winmoney := v.winmoney - g.paid bankermoney done }
  winner : k ≠ g.banker → k ∈ done.map Prod.fst → v.totaladd > 0 →
    w = { v with winmoney := (g.payment bankermoney v : ℚ) }
  other : k ≠ g.banker → (k ∉ done.map Prod.fst ∨ ¬ v.totaladd > 0) → w = v

private def SettledUpTo (g : Game) (bankermoney : ℚ) (done : List (Uid × GamePlayer))
    (t : Game) : Prop :=
  ∃ (gp : Table Uid GamePlayer) (lr : List BfResult) (o : List Out),
    Table.Updated (SettledTo g bankermoney done) g.gameplayer gp ∧ rets o = [] ∧
    credited o = g.paid bankermoney done ∧
    t = { g with gameplayer := gp, lastresult := lr, outbox := g.outbox ++ o }

private theorem paid_concat (g : Game) (bankermoney : ℚ) (done : List (Uid × GamePlayer))
    (p : Uid × GamePlayer) :
    g.paid bankermoney (done ++ [p]) = g.paid bankermoney done + g.payment bankermoney p.2 := by
  simp [paid]

/-- A winner's round: the payment is booked, and taken from the banker's result. -/
private theorem settlePlayer_winner {g : Game} (bankermoney : ℚ) (bankerlose : ℤ) {k : Uid}
    {v : GamePlayer} (hplayers : v.uid ∈ g.players) (hwin : g.isWinner v) {win : ℤ}
    (hw : winnerMoney g.gameconf.basebet bankermoney bankerlose v.totaladd = win) :
    ∃ lr o, rets o = [] ∧ credited o = win ∧
      settlePlayer bankermoney bankerlose g k v = .ok { g with
        gameplayer := (g.gameplayer.modify k fun v => { v with winmoney := win }).modify g.banker
          fun b => { b with winmoney := b.winmoney - win }
        lastresult := lr
        outbox := g.outbox ++ o } := by
  have hpay := addMoney_ok (g := { g with
      gameplayer := (g.gameplayer.modify k fun v => { v with winmoney := win }).modify g.banker
        fun b => { b with winmoney := b.winmoney - win } }) hplayers win
  have hpaid : (if g.isWinner v then g.payWinner k v win else g) = _ :=
    (if_pos hwin).trans hpay
  refine ⟨g.lastresult ++ [⟨v.uid, v.totaladd, if g.isWinner v then (win : ℚ) else v.winmoney,
      v.pokertype, v.choicecards⟩],
    [.send (g.playerOf v.uid) (.addMoney win g.tablelog.cardsid)] ++
    [.send (g.playerOf v.uid) (.playOneMatch v.totaladd v.choicecards v.pokertype)],
    by rw [rets_append]; rfl,
    by rw [credited_append, credited_addMoney, credited_playOneMatch, add_zero], ?_⟩
  unfold settlePlayer
  rw [hw]
  refine (if_pos hwin.2).trans ?_
  rw [hpaid]
  refine (Handler.bind_of_ok (sendAgent_ok ?_ _) _).trans ?_
  · exact hplayers
  · rw [← List.append_assoc]
    rfl

/-- The round of anybody else moves no money. -/
private theorem settlePlayer_other {g : Game} (bankermoney : ℚ) (bankerlose : ℤ) {k : Uid}
    {v : GamePlayer} (hplayers : v.uid ∈ g.players) (hwin : ¬ g.isWinner v) :
    ∃ lr o, rets o = [] ∧ credited o = 0 ∧
      settlePlayer bankermoney bankerlose g k v = .ok { g with
        lastresult := lr
        outbox := g.outbox ++ o } := by
  unfold settlePlayer
  simp only [if_neg hwin]
  by_cases hb : v.uid ≠ g.banker
  · exact ⟨g.lastresult ++ [⟨v.uid, v.totaladd, v.winmoney, v.pokertype, v.choicecards⟩],
      [.send (g.playerOf v.uid) (.playOneMatch v.totaladd v.choicecards v.pokertype)], rfl, rfl,
      (if_pos hb).trans (Handler.bind_of_ok (sendAgent_ok hplayers _) _)⟩
  · exact ⟨g.lastresult, [], rfl, rfl, (if_neg hb).trans (by simp)⟩

private theorem settlePlayer_round {g : Game} (h : Seated g) {bankermoney : ℚ}
    {done rest : List (Uid × GamePlayer)} {p : Uid × GamePlayer} {s : Game}
    (hsplit : g.gameplayer.pairs = done ++ p :: rest) (hs : SettledUpTo g bankermoney done s) :
    ∃ t, settlePlayer bankermoney g.bankerLose s p.1 p.2 = .ok t ∧
      SettledUpTo g bankermoney (done ++ [p]) t := by
  obtain ⟨gp, lr, o, hgp, ho, hcred, rfl⟩ := hs
  obtain ⟨hnew, hget⟩ := Table.not_visited hsplit
  have huid : p.2.uid = p.1 := h.gameplayer_uid _ _ hget
  have hplayers : p.2.uid ∈ g.players := by
    rw [huid]
    exact h.gameplayer_players (Table.mem_of_get? hget)
  have hdone : ∀ k, k ∈ (done ++ [p]).map Prod.fst ↔ k ∈ done.map Prod.fst ∨ k = p.1 := by simp
  -- a winner is paid and the banker pays; for the others nothing is written
  by_cases hwin : g.isWinner p.2
  · obtain ⟨lr', o', ho', hcred', hok⟩ := settlePlayer_winner (g := { g with
        gameplayer := gp, lastresult := lr, outbox := g.outbox ++ o }) bankermoney g.bankerLose
      (k := p.1) hplayers hwin rfl
    have hpay : (g.payment bankermoney p.2 : ℚ) =
        winnerMoney g.gameconf.basebet bankermoney g.bankerLose p.2.totaladd := by
      rw [payment, if_pos hwin]
    refine ⟨_, hok, _, lr', o ++ o', ?_, by rw [rets_append, ho, ho']; rfl,
      by rw [credited_append, hcred, hcred', paid_concat, hpay], by rw [← List.append_assoc]⟩
    have hne : p.1 ≠ g.banker := huid ▸ hwin.2
    refine ⟨(Table.keys_mapVal _ _).trans ((Table.keys_mapVal _ _).trans hgp.keys),
      fun k v w hv hw => ?_⟩
    obtain ⟨u, hu, hset⟩ := hgp.get?_of_old hv
    simp only [Table.get?_modify, hu] at hw
    refine ⟨fun hk => ?_, fun hk hd hadd => ?_, fun hk hd => ?_⟩
    · have hkp : k ≠ p.1 := fun he => hne (he ▸ hk)
      rw [if_pos hk, if_neg hkp] at hw
      cases hw
      rw [hset.banker hk, paid_concat, hpay, ← sub_sub]
    · rw [if_neg hk] at hw
      by_cases hkp : k = p.1
      · rw [if_pos hkp] at hw
        cases hw
        obtain rfl : v = p.2 := by
          rw [hkp, hget] at hv
          exact (Option.some.inj hv).symm
        rw [hset.other hk (.inl (hkp ▸ hnew)), hpay]
      · rw [if_neg hkp] at hw
        cases hw
        exact hset.winner hk (((hdone k).mp hd).resolve_right hkp) hadd
    · rw [if_neg hk] at hw
      have hkp : k ≠ p.1 := by
        rintro rfl
        rw [hget] at hv
        cases hv
        exact hd.elim (fun h => h ((hdone _).mpr (.inr rfl))) fun h => h hwin.1
      rw [if_neg hkp] at hw
      cases hw
      exact hset.other hk (hd.imp_left fun h h' => h ((hdone k).mpr (.inl h')))
  · obtain ⟨lr', o', ho', hcred', hok⟩ := settlePlayer_other (g := { g with
        gameplayer := gp, lastresult := lr, outbox := g.outbox ++ o }) bankermoney g.bankerLose
      (k := p.1) hplayers hwin
    have hpay : (g.payment bankermoney p.2 : ℚ) = 0 := by
      rw [payment, if_neg hwin, Int.cast_zero]
    refine ⟨_, hok, gp, lr', o ++ o', ?_, by rw [rets_append, ho, ho']; rfl,
      by rw [credited_append, hcred, hcred', paid_concat, hpay], by rw [← List.append_assoc]⟩
    refine ⟨hgp.keys, fun k v w hv hw => ?_⟩
    have hset := hgp.rel k v w hv hw
    refine ⟨fun hk => ?_, fun hk hd hadd => ?_, fun hk hd => ?_⟩
    · rw [hset.banker hk, paid_concat, hpay, add_zero]
    · have hkp : k ≠ p.1 := by
        rintro rfl
        rw [hget] at hv
        cases hv
        exact hwin ⟨hadd, fun he => hk (huid ▸ he)⟩
      exact hset.winner hk (((hdone k).mp hd).resolve_right hkp) hadd
    · exact hset.other hk (hd.imp_left fun h h' => h ((hdone k).mpr (.inl h')))

theorem settleForceQuits_empty {g : Game} (h : g.forcequitplayer = .empty) :
    g.settleForceQuits = g := by
  unfold settleForceQuits
  rw [h]
  rfl

/-- What the banker is left with after the settlement, `b` being its record. -/
def bankerWin (g : Game) (b : GamePlayer) : ℚ :=
  b.winmoney - g.paid (g.bankermoney + b.winmoney) g.gameplayer.pairs

private theorem settleBanker_spec {g : Game} {b : GamePlayer}
    (hb : g.gameplayer.get? g.banker = some b) (hplayers : b.uid ∈ g.players) :
    ∃ (lr : List BfResult) (o : List Out), rets o = [] ∧ credited o = b.winmoney ∧
      g.settleBanker = .ok { g with
        bankermoney := g.bankermoney + b.winmoney
        needgrabbanker := g.needgrabbanker ||
          decide (g.bankermoney + b.winmoney < (g.gameconf.basebet : ℚ) * 30)
        grabresontype := if g.bankermoney + b.winmoney < (g.gameconf.basebet : ℚ) * 30 then 1
          else g.grabresontype
        playcount := if g.bankermoney + b.winmoney < (g.gameconf.basebet : ℚ) * 30 then 0
          else g.playcount
        havegetresult := true
        lastresult := lr
        outbox := g.outbox ++ o } := by
  refine ⟨g.lastresult ++ [⟨b.uid, b.totaladd, b.winmoney, b.pokertype, b.choicecards⟩],
    [.send (g.playerOf b.uid) (.addMoney b.winmoney g.tablelog.cardsid)] ++
      [.send (g.playerOf b.uid) (.playOneMatch b.totaladd b.choicecards b.pokertype)],
    rfl, by rw [credited_append, credited_addMoney, credited_playOneMatch, add_zero], ?_⟩
  unfold settleBanker
  refine (Handler.bind_of_ok (Handler.index_of_some hb _ _) _).trans ?_
  rw [addMoney_ok hplayers]
  refine (Handler.bind_of_ok (sendAgent_ok ?_ _) _).trans ?_
  · exact hplayers
  · rw [← List.append_assoc]
    by_cases hlow : g.bankermoney + b.winmoney < (g.gameconf.basebet : ℚ) * 30
    · simp only [dismissBanker, emit, hlow, if_true, decide_true, Bool.or_true]
      rfl
    · simp only [dismissBanker, emit, hlow, if_false, decide_false, Bool.or_false]
      rfl

/-- The settlement: winners are paid, the banker gets or pays the difference.
What is credited altogether, the banker included, is what the banker had
collected. -/
theorem getLastResult_spec {g : Game} (h : Seated g) (hforce : g.forcequitplayer = .empty)
    {b : GamePlayer} (hb : g.gameplayer.get? g.banker = some b) :
    ∃ (gp : Table Uid GamePlayer) (lr : List BfResult) (o : List Out),
      Table.Updated (SettledTo g (g.bankermoney + b.winmoney) g.gameplayer.pairs)
        g.gameplayer gp ∧ rets o = [] ∧ credited o = b.winmoney ∧
      g.getLastResult = .ok { g with
        calls := g.calls ++ [.getLastResult]
        gameplayer := gp
        bankermoney := g.bankermoney + g.bankerWin b
        needgrabbanker := g.needgrabbanker ||
          decide (g.bankermoney + g.bankerWin b < (g.gameconf.basebet : ℚ) * 30)
        grabresontype := if g.bankermoney + g.bankerWin b < (g.gameconf.basebet : ℚ) * 30 then 1
          else g.grabresontype
        playcount := if g.bankermoney + g.bankerWin b < (g.gameconf.basebet : ℚ) * 30 then 0
          else g.playcount
        havegetresult := true
        lastresult := lr
        outbox := g.outbox ++ o } := by
  have hs : Seated (g.enter .getLastResult) := ⟨h.1, h.2, h.3, h.4, h.5⟩
  obtain ⟨t, ht, gp, lr, o, hgp, ho, hcred, rfl⟩ := Handler.foldlM_rounds_ok
    (f := fun g' p => settlePlayer (g.bankermoney + b.winmoney) g.bankerLose g' p.1 p.2)
    (I := SettledUpTo (g.enter .getLastResult) (g.bankermoney + b.winmoney))
    (fun _ _ _ _ hsplit hs' => settlePlayer_round hs hsplit hs')
    (⟨g.gameplayer, g.lastresult, [], Table.Updated.refl fun k v _ =>
      ⟨fun _ => by simp [paid], fun _ hd => absurd hd List.not_mem_nil, fun _ _ => rfl⟩,
      rfl, rfl, by simp [enter]⟩ :
      SettledUpTo (g.enter .getLastResult) (g.bankermoney + b.winmoney) []
        (g.enter .getLastResult))
  obtain ⟨b', hb', hset⟩ := hgp.get?_of_old hb
  have hb'eq : b' = { b with winmoney := g.bankerWin b } := hset.banker rfl
  have hplayers : b'.uid ∈ g.players := by
    rw [hb'eq]
    show b.uid ∈ g.players
    rw [h.gameplayer_uid _ _ hb]
    exact h.gameplayer_players (Table.mem_of_get? hb)
  obtain ⟨lr', o', ho', hcred', hclose⟩ := settleBanker_spec (g := { g.enter .getLastResult with
    gameplayer := gp, lastresult := lr, outbox := g.outbox ++ o }) hb' hplayers
  have hbw : b'.winmoney = g.bankerWin b := by rw [hb'eq]
  rw [hbw] at hclose hcred'
  refine ⟨gp, lr', o ++ o', hgp.mono fun _ _ _ hset => ⟨hset.banker, hset.winner, hset.other⟩,
    by rw [rets_append, ho, ho']; rfl, ?_, ?_⟩
  · rw [credited_append, hcred, hcred', bankerWin]
    exact add_sub_cancel _ _
  · unfold getLastResult
    refine (Handler.bind_of_ok (Handler.index_of_some hb _ _) _).trans ?_
    rw [show (g.enter .getLastResult).settleForceQuits = g.enter .getLastResult from
      settleForceQuits_empty hforce]
    refine (Handler.bind_of_ok (Handler.index_of_some hb _ _) _).trans ?_
    refine (Handler.bind_of_ok ht _).trans (hclose.trans ?_)
    rw [← List.append_assoc]
    rfl

/-! ## Closing -/

/-- A configuration that was waiting is in force. -/
theorem updateGameconf_spec (g : Game) :
    ∃ conf o, rets o = [] ∧ g.updateGameconf = { g with
      gameconf := conf
      updateconf := none
      outbox := g.outbox ++ o } := by
  unfold updateGameconf
  cases hu : g.updateconf with
  | none => exact ⟨g.gameconf, [], rfl, by simp [← hu]⟩
  | some conf => exact ⟨conf, _, rets_map_send _ _ _, rfl⟩

theorem retireBanker_spec (g : Game) :
    ∃ n r p, (g.needgrabbanker = true → n = true) ∧
      g.retireBanker = { g with needgrabbanker := n, grabresontype := r, playcount := p } := by
  unfold retireBanker
  by_cases hplay : g.playcount ≥ 3
  · exact ⟨true, 3, 0, fun _ => rfl, if_pos hplay⟩
  · exact ⟨g.needgrabbanker, g.grabresontype, g.playcount, fun h => h, if_neg hplay⟩

theorem unseatBanker_eq (g : Game) :
    g.unseatBanker = { g with banker := if g.needgrabbanker then 0 else g.banker } := by
  unfold unseatBanker
  by_cases h : g.needgrabbanker = true
  · rw [if_pos h, if_pos h]
  · rw [if_neg h, if_neg h]

/-- The end of a round: its records are gone, every timer is removed, and the
banker stays only if nothing asked for another. -/
theorem resertGame_spec (g : Game) :
    ∃ n r p conf o, (g.needgrabbanker = true → n = true) ∧ rets o = [] ∧
      g.resertGame = { g with
        calls := g.calls ++ [.resertGame]
        timers := g.timers.removeAll
        pos := 1
        gameplayer := .empty
        lastresult := []
        forcequitplayer := .empty
        havegetresult := false
        bankermoney := 0
        starttime := 0
        topupling := 1
        playcount := p
        needgrabbanker := n
        grabresontype := r
        banker := if n then 0 else g.banker
        tablelog := .start
        gameconf := conf
        updateconf := none
        outbox := g.outbox ++ o } := by
  obtain ⟨n, r, p, hn, hretire⟩ := retireBanker_spec
    (((g.enter .resertGame).emit g.kickEvents).removeTimer none).clearRound
  obtain ⟨conf, o, ho, hconf⟩ := updateGameconf_spec { g with
    calls := g.calls ++ [.resertGame], timers := g.timers.removeAll, pos := 1,
    gameplayer := .empty, lastresult := [], forcequitplayer := .empty, havegetresult := false,
    bankermoney := 0, starttime := 0, topupling := 1, playcount := p, needgrabbanker := n,
    grabresontype := r, banker := if n then 0 else g.banker, tablelog := .start,
    outbox := g.outbox ++ g.kickEvents }
  have hkick : rets g.kickEvents = [] := rets_map_send _ _ _
  refine ⟨n, r, p, conf, g.kickEvents ++ o, hn, by rw [rets_append, hkick, ho]; rfl, ?_⟩
  rw [← List.append_assoc]
  have hbanker := (congrArg unseatBanker hretire).trans (unseatBanker_eq _)
  exact (congrArg (fun t : Game => updateGameconf { t with tablelog := .start }) hbanker).trans
    hconf

end Game

end DnServer.Bullfight
