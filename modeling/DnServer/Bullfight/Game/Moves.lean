import DnServer.Bullfight.Game.Bank
import DnServer.Bullfight.Game.Cards
import DnServer.Bullfight.Game.Settle

/-!
# The game service: the moves of a round

`Move env g m t` lists everything a table's handler can do when it is called for `m`:
which state it must be in, what changes, and nothing else does. Later results argue
about moves and never unfold a handler.

* `Moves`: every outcome of a handler is a `Move`, or an assertion.
* `command_moves`: each state's handler makes them, put together from one lemma for each
  state; the branches of a handler are gone through there and nowhere else.
-/

namespace DnServer.Bullfight

open DnServer.Lib

namespace Game

/-! ## Hands -/

/-- Five cards, an arrangement of them, and their type or none. -/
structure Hand (v : GamePlayer) : Prop where
  size : v.cards.length = 5
  same : v.choicecards.Perm v.cards
  typed : v.pokertype = 0 ∨ ∃ ret, Poker.getBFType v.cards [] = some (v.pokertype, ret)

def Hands (t : Table Uid GamePlayer) : Prop := ∀ k v, t.get? k = some v → Hand v

theorem Hand.bounds {v : GamePlayer} (h : Hand v) : 0 ≤ v.pokertype ∧ v.pokertype ≤ 14 := by
  rcases h.typed with h0 | ⟨ret, hret⟩
  · omega
  · obtain ⟨t, r, ht, hpos, hle, -⟩ := Poker.getBFType_ok h.size
    rw [hret] at ht
    cases ht
    exact ⟨hpos, hle⟩

theorem Hands.typed {t : Table Uid GamePlayer} (h : Hands t) : Typed t :=
  fun k v hv => (h k v hv).bounds

theorem Hands.sized {t : Table Uid GamePlayer} (h : Hands t) : Sized t := by
  intro k v hv
  rw [(h k v hv).same.length_eq, (h k v hv).size]
  decide

/-! ## Moves -/

/-- The state's handler has nothing to do for `m`. -/
def Ignored (env : Env) (g : Game) (m : Mtype) : Prop :=
  match g.curstate, m with
  | .waitPlayer, .msg _ .someOneSit => ¬ (2 ≤ g.sitnum ∧ env.serverClose = false)
  | .waitStartGame, .timer .waitStart => False
  | .waitStartGame, .msg _ .tryStand => 2 ≤ g.sitnum
  | .waitStartGame, .msg _ .tryQuit => 2 ≤ g.sitnum
  | .grabTheBanker, .timer .grabBanker => False
  | .grabTheBanker, .msg _ (.playerMoney _) => False
  | .grabTheBanker, .msg _ (.someOneGrab _ _) => False
  | .waitBet, .timer .bet => False
  | .waitBet, .timer .waitBet => False
  | .waitBet, .msg _ (.someOneBet _) => False
  | .dealPoker, .timer .dealPoker => False
  | .choicePokerType, .timer .choicePoker => False
  | .choicePokerType, .msg _ (.bfPokerType _ _) => False
  | .waitShowResult, .msg _ (.loserGetResult _) => False
  | .waitShowResult, .msg _ (.bankerMoney _) => False
  | .waitShowResult, .timer .waitShowResult => False
  | .showResult, .timer .showResult => False
  | _, _ => True

attribute [local simp] Ignored

/-- What a bet can be while `m` is served: the base bet, or what `m` bids. -/
def Bids (g : Game) (m : Mtype) (x : ℚ) : Prop :=
  x = g.gameconf.basebet ∨ ∃ uid, m = .msg uid (.someOneBet x)

/-- What a report does before the table looks whether it can settle: a loser
that owes is debited and answered, any other loser's call is dropped, the
banker's money is noted. -/
inductive Reported (g : Game) : Mtype → Game → Prop
  | loser (uid : Uid) (money : ℚ) (v : GamePlayer) (lose : ℚ) :
      g.gameplayer.get? uid = some v → v.winmoney = 0 → v.totaladd < 0 →
      (uid ≠ g.banker → lose = -loserWin (v.totaladd * g.gameconf.basebet) money) →
      Reported g (.msg uid (.loserGetResult money)) { g with
        gameplayer := g.collect uid (loserWin (v.totaladd * g.gameconf.basebet) money)
        outbox := g.outbox ++ [.ret (.lose lose g.tablelog.cardsid)] }
  | dropped (uid : Uid) (money : ℚ) : g.owes uid = false →
      Reported g (.msg uid (.loserGetResult money)) g
  | banker (uid : Uid) (money : ℚ) :
      Reported g (.msg uid (.bankerMoney money)) { g with bankermoney := money }

/-- What a client's choice does before the table looks whether all have chosen. -/
inductive Chosen (env : Env) (g : Game) (uid : Uid) (t : ℤ) (cards : List Card) : Game → Prop
  | reject (o : List Out) : direct o = [] →
      Chosen env g uid t cards { g with outbox := g.outbox ++ o }
  | accept (v : GamePlayer) (r : ℕ) (o : List Out) : g.gameplayer.get? uid = some v →
      checkChoice env v t cards = 0 → direct o = [] → Chosen env g uid t cards { g with
        gameplayer := g.gameplayer.modify uid fun v =>
          { v with pokertype := t, choicecards := cards, havechoice := true }
        seater := g.seater.modify uid fun s => { s with timeouttimes := 0 }
        needgrabbanker := g.needgrabbanker || decide (t ≥ types.PT_BULL_BULL)
        grabresontype := r
        outbox := g.outbox ++ o }

theorem Chosen.same {env : Env} {g t : Game} {uid : Uid} {ty : ℤ} {cards : List Card}
    (h : Chosen env g uid ty cards t) :
    t.curstate = g.curstate ∧ t.timers = g.timers ∧ t.calls = g.calls := by
  cases h with
  | reject o ho => exact ⟨rfl, rfl, rfl⟩
  | accept v r o hv hcheck ho => exact ⟨rfl, rfl, rfl⟩

theorem Reported.same {g t : Game} {m : Mtype} (h : Reported g m t) :
    t.curstate = g.curstate ∧ t.timers = g.timers ∧ t.calls = g.calls := by
  cases h with
  | loser uid money v lose hv hw ha hl => exact ⟨rfl, rfl, rfl⟩
  | dropped uid money hno => exact ⟨rfl, rfl, rfl⟩
  | banker uid money => exact ⟨rfl, rfl, rfl⟩

/-- The settlement of a table whose banker has record `b`. -/
inductive Settled (g : Game) : Game → Prop
  | mk (b : GamePlayer) (gp : Table Uid GamePlayer) (lr : List BfResult) (o : List Out) (r p : ℕ) :
      g.gameplayer.get? g.banker = some b →
      Table.Updated (SettledTo g (g.bankermoney + b.winmoney) g.gameplayer.pairs)
        g.gameplayer gp → rets o = [] → credited o = b.winmoney →
      Settled g { g with
        calls := g.calls ++ [.getLastResult]
        gameplayer := gp
        bankermoney := g.bankermoney + g.bankerWin b
        needgrabbanker := g.needgrabbanker ||
          decide (g.bankermoney + g.bankerWin b < (g.gameconf.basebet : ℚ) * 30)
        grabresontype := r
        playcount := p
        havegetresult := true
        lastresult := lr
        outbox := g.outbox ++ o }

theorem Settled.same {g t : Game} (h : Settled g t) :
    t.curstate = g.curstate ∧ t.timers = g.timers ∧ t.calls = g.calls ++ [.getLastResult] := by
  cases h with
  | mk b gp lr o r p hb hgp ho hcred => exact ⟨rfl, rfl, rfl⟩

/-- The comparison of a table all of whose players have chosen. -/
inductive Compared (g : Game) : Game → Prop
  | mk (gp : Table Uid GamePlayer) (losers : List Uid) :
      Table.Updated (ComparedTo g g.gameplayer.keys losers) g.gameplayer gp →
      losers.Sublist g.gameplayer.keys → g.banker ∉ losers →
      Compared g { g with
        gameplayer := gp
        bankermoney := 0
        outbox := g.outbox ++ (g.loserNotices losers ++
          [.send (g.playerOf g.banker) .getBankerMoney]) }

theorem Compared.same {g t : Game} (h : Compared g t) :
    t.curstate = g.curstate ∧ t.timers = g.timers ∧ t.calls = g.calls := by
  cases h with
  | mk gp losers hgp hsub hnb => exact ⟨rfl, rfl, rfl⟩

/-- The end of a round: the table is reset, then waits for the next round or for
players. -/
inductive Closed (env : Env) (g : Game) : Game → Prop
  | mk (n : Bool) (r p : ℕ) (conf : GameConf) (o : List Out) (again : Bool) :
      (g.needgrabbanker = true → n = true) → rets o = [] → (again = true → 2 ≤ g.sitnum) →
      Closed env g { g with
        calls := g.calls ++ [.resertGame]
        timers := if again then g.timers.removeAll.start .waitStart (conf.waitstarttime * 100)
          else g.timers.removeAll
        pos := 1
        gameplayer := .empty
        lastresult := []
        forcequitplayer := .empty
        havegetresult := false
        bankermoney := 0
        starttime := 0
        topupling := 1
        playcount := p
        needgrabbanker := n
        grabresontype := r
        banker := if n then 0 else g.banker
        tablelog := .start
        gameconf := conf
        updateconf := none
        curstate := if again then .waitStartGame else .waitPlayer
        outbox := g.outbox ++ o }

/-- The moves of a table. -/
inductive Move (env : Env) (g : Game) : Mtype → Game → Prop
  | ignore (m : Mtype) : Ignored env g m → Move env g m g
  | arm (uid : Uid) : g.curstate = .waitPlayer → 2 ≤ g.sitnum → env.serverClose = false →
      Move env g (.msg uid .someOneSit) { g with
        timers := g.timers.start .waitStart (g.gameconf.waitstarttime * 100)
        curstate := .waitStartGame }
  | disarm (m : Mtype) : g.curstate = .waitStartGame → g.sitnum < 2 → Move env g m { g with
      timers := g.timers.remove .waitStart
      curstate := .waitPlayer }
  | startRound (log : TableLog) (o : List Out) (t : Game) : g.curstate = .waitStartGame →
      rets o = [] → Opening env { g with
        gameplayer := g.seater.mapVal fun _ v => GamePlayer.new v.uid
        tablelog := log
        outbox := g.outbox ++ o } t → Move env g (.timer .waitStart) t
  | grab (uid : Uid) (m : Msg) (gp : Table Uid GamePlayer) (o : List Out) :
      g.curstate = .grabTheBanker → direct o = [] →
      Table.Updated (fun _ => OnlyGrab) g.gameplayer gp →
      Move env g (.msg uid m) { g with gameplayer := gp, outbox := g.outbox ++ o }
  | chooseBanker (m : Mtype) (uid : Uid) (source : ℕ) (money : ℚ) (gp : Table Uid GamePlayer)
      (o : List Out) (t : Game) : g.curstate = .grabTheBanker → uid ∈ g.gameplayer →
      direct o = [] → Table.Updated (fun _ => OnlyGrab) g.gameplayer gp → Opening env { g with
        banker := uid
        bankersourcetype := source
        needgrabbanker := false
        grabresontype := 0
        playcount := 0
        bankermoney := money
        gameplayer := gp
        outbox := g.outbox ++ o } t → Move env g m t
  | bet (uid : Uid) (betmoney : ℚ) (gp : Table Uid GamePlayer) (o : List Out) :
      g.curstate = .waitBet → (g.someOneBet uid betmoney).isAllHaveBet = false → direct o = [] →
      Table.Updated (fun _ => OnlyBet (Bids g (.msg uid (.someOneBet betmoney)))) g.gameplayer gp →
      Move env g (.msg uid (.someOneBet betmoney)) { g with
        gameplayer := gp
        outbox := g.outbox ++ o }
  | notify (o : List Out) : g.curstate = .waitBet → direct o = g.feeEvents →
      Move env g (.timer .waitBet) { g with
        calls := g.calls ++ [.notifyBet, .takeFee]
        curstate := .waitBet
        timers := g.timers.start .bet (g.gameconf.bettime * 100)
        starttime := env.now
        outbox := g.outbox ++ o
        bankermoney := g.moneyAfterFee
        playcount := g.playcount + 1
        topupling := topUpling env.upling
          ⌊g.moneyAfterFee / ((g.gameplayer.size : ℚ) * g.gameconf.basebet)⌋ g.topupling }
  | deal (m : Mtype) (bets gp : Table Uid GamePlayer) (poker : List Card) (pos : ℕ)
      (o : List Out) : g.curstate = .waitBet →
      (m = .timer .bet ∨ ∃ uid betmoney, m = .msg uid (.someOneBet betmoney) ∧
        (g.someOneBet uid betmoney).isAllHaveBet = true) → direct o = [] →
      Table.Updated (fun _ => OnlyBet (Bids g m)) g.gameplayer bets → AllBet g.banker bets →
      Table.Updated (fun _ => Dealt) bets gp → Move env g m { g with
        gameplayer := gp
        poker := poker
        pos := pos
        curstate := .dealPoker
        timers := g.timers.start .dealPoker (g.gameconf.dealpokertime * 100)
        outbox := g.outbox ++ o }
  | deckOut (m : Mtype) (bets gp : Table Uid GamePlayer) (poker : List Card) (pos : ℕ)
      (o : List Out) : g.curstate = .waitBet →
      (m = .timer .bet ∨ ∃ uid betmoney, m = .msg uid (.someOneBet betmoney) ∧
        (g.someOneBet uid betmoney).isAllHaveBet = true) → direct o = [] →
      Table.Updated (fun _ => OnlyBet (Bids g m)) g.gameplayer bets → AllBet g.banker bets →
      Table.Updated (fun _ => OnlyCards) bets gp → Move env g m { g with
        gameplayer := gp
        poker := poker
        pos := pos
        curstate := .dealPoker
        outbox := g.outbox ++ o }
  | choose (o : List Out) : g.curstate = .dealPoker → direct o = [] →
      Move env g (.timer .dealPoker) { g with
        curstate := .choicePokerType
        timers := g.timers.start .choicePoker (g.gameconf.choicepokertime * 100)
        starttime := env.now
        outbox := g.outbox ++ o }
  | choice (uid : Uid) (t : ℤ) (cards : List Card) (g₁ : Game) :
      g.curstate = .choicePokerType → Chosen env g uid t cards g₁ →
      g₁.isAllPlayerChoiced = false → Move env g (.msg uid (.bfPokerType t cards)) g₁
  | compare (uid : Uid) (t : ℤ) (cards : List Card) (g₁ g₂ : Game) :
      g.curstate = .choicePokerType → Chosen env g uid t cards g₁ →
      g₁.isAllPlayerChoiced = true → Compared g₁ g₂ →
      Move env g (.msg uid (.bfPokerType t cards)) { g₂ with
        timers := (g₂.timers.start .waitShowResult (g₂.gameconf.waitshowresulttime * 100)).remove
          .choicePoker
        curstate := .waitShowResult }
  | timeUp (gp : Table Uid GamePlayer) (st : Table Uid Seater) (n : Bool) (r : ℕ) (o : List Out)
      (t : Game) : g.curstate = .choicePokerType → direct o = [] →
      (g.needgrabbanker = true → n = true) →
      Table.Updated (fun _ v w => w = { v with havechoice := true }) g.gameplayer gp →
      Table.Updated (fun _ (x y : Seater) => y.uid = x.uid) g.seater st → Compared { g with
        gameplayer := gp
        seater := st
        needgrabbanker := n
        grabresontype := r
        outbox := g.outbox ++ o } t → Move env g (.timer .choicePoker) { t with
          timers := t.timers.start .waitShowResult (t.gameconf.waitshowresulttime * 100)
          curstate := .waitShowResult }
  | report (m : Mtype) (g₁ : Game) : g.curstate = .waitShowResult → Reported g m g₁ →
      g₁.canGetLastResult = false → Move env g m g₁
  | settle (m : Mtype) (g₁ t : Game) : g.curstate = .waitShowResult → Reported g m g₁ →
      g₁.canGetLastResult = true → Settled g₁ t → Move env g m t
  | reveal (o : List Out) : g.curstate = .waitShowResult → direct o = [] →
      Move env g (.timer .waitShowResult) { g with
        curstate := .showResult
        timers := g.timers.start .showResult (g.gameconf.showresulttime * 100)
        outbox := g.outbox ++ o }
  | close (t : Game) : g.curstate = .showResult → Closed env g t →
      Move env g (.timer .showResult) t

/-! ## The handlers make these moves -/

/-- What the handlers rely on when they are called for `m`. -/
structure Sound (g : Game) (m : Mtype) : Prop where
  seated : Seated g
  money : MoneyNonneg g
  force : g.forcequitplayer = .empty
  nonempty : g.curstate = .grabTheBanker → 0 < g.gameplayer.size
  banker : g.curstate = .choicePokerType ∨ g.curstate = .waitShowResult → g.banker ∈ g.gameplayer
  undealt : g.curstate = .waitBet → NoChoice g
  hands : g.curstate = .choicePokerType → Hands g.gameplayer
  reported : ∀ uid x money, m = .msg uid x → x.reported = some money → 0 ≤ money

/-- `r` is a move of the table, or the move to a table whose deck ran out. -/
def Moves (env : Env) (g : Game) (m : Mtype) (r : Result) : Prop :=
  ∃ t, Move env g m t ∧ (r = .ok t ∨ r = .error (.assertion, t))

variable {env : Env} {g : Game} {m : Mtype}

theorem Moves.ok {t : Game} {r : Result} (h : Move env g m t) (hr : r = .ok t) :
    Moves env g m r := ⟨t, h, .inl hr⟩

private theorem moves_ignore {r : Result} (h : Ignored env g m) (hr : r = .ok g) :
    Moves env g m r := .ok (.ignore m h) hr

private theorem waitPlayer_moves (hs : g.curstate = .waitPlayer) :
    Moves env g m (g.waitPlayer env m) := by
  cases m with
  | timer t => exact moves_ignore (by simp [Ignored, hs]) rfl
  | msg uid x =>
    cases x with
    | someOneSit =>
      by_cases hgo : g.sitnum ≥ 2 ∧ ¬ env.serverClose = true
      · exact .ok (.arm uid hs hgo.1 (by simpa using hgo.2)) (if_pos hgo)
      · exact moves_ignore (by simpa [Ignored, hs] using hgo) (if_neg hgo)
    | _ => exact moves_ignore (by simp [Ignored, hs]) rfl

/-- The fresh round is sound for `CheckStartGame`. -/
theorem seated_fresh (h : Seated g) (log : TableLog) (o : List Out) : Seated { g with
    gameplayer := g.seater.mapVal fun _ v => GamePlayer.new v.uid
    tablelog := log
    outbox := g.outbox ++ o } := by
  refine ⟨h.1, h.2, fun k v hv => ?_, h.4, fun k hk => Table.mem_mapVal.mp hk⟩
  rw [Table.get?_mapVal, Option.map_eq_some_iff] at hv
  obtain ⟨s, hs, rfl⟩ := hv
  exact h.seater_uid k s hs

/-- A fresh round, announced if it has two players. -/
private theorem announced_fresh (env : Env) (g : Game) : ∃ o, rets o = [] ∧
    (if (g.addPlayerToGame env).2 ≥ 2 then (g.addPlayerToGame env).1.announceGame
      else (g.addPlayerToGame env).1) = { g with
        gameplayer := g.seater.mapVal fun _ v => GamePlayer.new v.uid
        tablelog := (g.addPlayerToGame env).1.tablelog
        outbox := g.outbox ++ o } := by
  have hdirect := direct_broadcastOut (g.addPlayerToGame env).1 none
    (.bfGameStart (g.addPlayerToGame env).1.getPlayerNumInGame.1
      (g.addPlayerToGame env).1.getPlayerNumInGame.2)
  by_cases hnum : (g.addPlayerToGame env).2 ≥ 2
  · refine ⟨(g.addPlayerToGame env).1.broadcastOut none
      (.bfGameStart (g.addPlayerToGame env).1.getPlayerNumInGame.1
        (g.addPlayerToGame env).1.getPlayerNumInGame.2) ++ [.recordGameNum g.gameconf.roomtype],
      ?_, (if_pos hnum).trans ?_⟩
    · rw [rets_append, rets_of_direct_nil hdirect]
      rfl
    · rw [← List.append_assoc]
      rfl
  · exact ⟨[], rfl, (if_neg hnum).trans (by rw [List.append_nil]; rfl)⟩

private theorem waitStartGame_moves (h : Sound g m) (hs : g.curstate = .waitStartGame) :
    Moves env g m (g.waitStartGame env m) := by
  unfold waitStartGame
  rw [if_pos g.gameconf.bullfight]
  have hleave : ∀ (hm : 2 ≤ g.sitnum → Ignored env g m), Moves env g m
      (if g.sitnum < 2 then return (g.removeTimer (some .waitStart)).changeState .waitPlayer
        else return g) := by
    intro hm
    by_cases hsit : g.sitnum < 2
    · exact .ok (.disarm m hs hsit) (if_pos hsit)
    · exact moves_ignore (hm (by omega)) (if_neg hsit)
  cases m with
  | timer t =>
    cases t with
    | waitStart =>
      obtain ⟨o, ho, hfresh⟩ := announced_fresh env g
      obtain ⟨t, ht, hopen⟩ := checkStartGame_spec env
        (seated_fresh h.seated (g.addPlayerToGame env).1.tablelog o)
      rw [← hfresh] at ht
      exact .ok (.startRound _ o t hs ho hopen) ht
    | _ => exact moves_ignore (by simp [Ignored, hs]) rfl
  | msg uid x =>
    cases x with
    | tryStand => exact hleave fun hsit => by simpa [Ignored, hs] using hsit
    | tryQuit => exact hleave fun hsit => by simpa [Ignored, hs] using hsit
    | _ => exact moves_ignore (by simp [Ignored, hs]) rfl

/-- The end of the grab, whatever was grabbed before it in the same dispatch. -/
private theorem notifyTheGrab_moves (h : Sound g m) (hs : g.curstate = .grabTheBanker)
    {gp : Table Uid GamePlayer} {o : List Out} (hgp : Table.Updated (fun _ => OnlyGrab) g.gameplayer gp)
    (ho : direct o = []) :
    Moves env g m
      ({ g with gameplayer := gp, outbox := g.outbox ++ o }.forResPlayerGrab.notifyTheGrab env) := by
  obtain ⟨o₁, ho₁, hres⟩ :=
    forResPlayerGrab_spec { g with gameplayer := gp, outbox := g.outbox ++ o }
  have hseated : Seated { g with gameplayer := gp, outbox := g.outbox ++ o ++ o₁ } := by
    refine ⟨h.seated.1, h.seated.2, fun k v hv => ?_, h.seated.4,
      fun k hk => h.seated.5 k (hgp.mem.mp hk)⟩
    obtain ⟨u, hu, hsame⟩ := hgp.get?_of_new hv
    exact hsame.uid.trans (h.seated.gameplayer_uid k u hu)
  have hmoney : MoneyNonneg { g with gameplayer := gp, outbox := g.outbox ++ o ++ o₁ } := by
    intro k v hv
    obtain ⟨u, hu, hsame⟩ := hgp.get?_of_new hv
    exact hsame.2 (h.money k u hu)
  have hne : 0 < gp.size := by
    rw [hgp.size]
    exact h.nonempty hs
  obtain ⟨uid, source, money, gp', o₂, t, huid, ho₂, hgp', ht, hopen⟩ :=
    notifyTheGrab_spec env hseated hmoney hne
  have hout : g.outbox ++ o ++ o₁ ++ o₂ = g.outbox ++ (o ++ o₁ ++ o₂) := by
    simp only [List.append_assoc]
  rw [hres]
  refine .ok (.chooseBanker m uid source money gp' (o ++ o₁ ++ o₂) t hs (hgp.mem.mp huid)
    (by rw [direct_append, direct_append, ho, ho₁, ho₂]; rfl)
    (hgp.trans hgp' fun _ _ _ _ => OnlyGrab.trans) ?_) ht
  rw [← hout]
  exact hopen

private theorem grabTheBanker_moves (h : Sound g m) (hs : g.curstate = .grabTheBanker) :
    Moves env g m (g.grabTheBanker env m) := by
  have hrefl : Table.Updated (fun _ => OnlyGrab) g.gameplayer g.gameplayer :=
    Table.Updated.refl fun _ v _ => OnlyGrab.refl v
  cases m with
  | timer t =>
    cases t with
    | grabBanker =>
      have hmoves : Moves env g (.timer .grabBanker) _ :=
        notifyTheGrab_moves h hs (o := []) hrefl rfl
      rw [List.append_nil] at hmoves
      exact hmoves
    | _ => exact moves_ignore (by simp [Ignored, hs]) rfl
  | msg uid x =>
    cases x with
    | playerMoney money =>
      have hm : 0 ≤ money := h.reported uid _ money rfl rfl
      refine .ok (.grab uid _ (g.gameplayer.modify uid fun v => { v with money := money }) []
        hs rfl (Table.updated_modify (fun _ v => OnlyGrab.refl v)
          fun v _ => ⟨rfl, fun _ => hm⟩)) ?_
      rw [List.append_nil]
      rfl
    | someOneGrab sign money =>
      have hm : 0 ≤ money := h.reported uid _ money rfl rfl
      obtain ⟨gp, o, ho, hgp, hgrab⟩ := someOneGrab_spec g uid sign hm
      obtain ⟨gp', b, hgp', hall⟩ := allHaveGrabed_spec (g.someOneGrab uid sign money)
      rw [hgrab] at hgp'
      have hboth := hgp.trans hgp' fun _ _ _ _ => OnlyGrab.trans
      have hsplit : g.grabTheBanker env (.msg uid (.someOneGrab sign money))
          = if b then { g with gameplayer := gp', outbox := g.outbox ++ o
              }.forResPlayerGrab.notifyTheGrab env
            else .ok { g with gameplayer := gp', outbox := g.outbox ++ o } := by
        have hstep : g.grabTheBanker env (.msg uid (.someOneGrab sign money))
            = if (g.someOneGrab uid sign money).allHaveGrabed.2 = true then
                (g.someOneGrab uid sign money).allHaveGrabed.1.forResPlayerGrab.notifyTheGrab env
              else .ok (g.someOneGrab uid sign money).allHaveGrabed.1 := rfl
        rw [hstep, hall, hgrab]
      rw [hsplit]
      cases b with
      | true => exact notifyTheGrab_moves h hs hboth ho
      | false => exact .ok (.grab uid _ gp' o hs ho hboth) rfl
    | _ => exact moves_ignore (by simp [Ignored, hs]) rfl

/-- The end of betting deals, or runs out of cards. -/
private theorem endBet_moves (h : Sound g m) (hs : g.curstate = .waitBet)
    (hm : m = .timer .bet ∨ ∃ uid betmoney, m = .msg uid (.someOneBet betmoney) ∧
      (g.someOneBet uid betmoney).isAllHaveBet = true)
    {bets : Table Uid GamePlayer} {o : List Out}
    (hbets : Table.Updated (fun _ => OnlyBet (Bids g m)) g.gameplayer bets)
    (hall : AllBet g.banker bets) (ho : direct o = []) :
    Moves env g m ({ g with gameplayer := bets, outbox := g.outbox ++ o }.endBet env) := by
  have hch : NoChoice ({ g with gameplayer := bets, outbox := g.outbox ++ o }.changeState
      .dealPoker) := by
    intro k v hv
    obtain ⟨u, hu, hsame⟩ := hbets.get?_of_new hv
    rw [hsame.1]
    exact h.undealt hs k u hu
  unfold endBet
  obtain ⟨gp, poker, pos, o', ho', ⟨hgp, hok⟩ | ⟨hgp, herr⟩⟩ := dealPoker_spec env hch
  · refine .ok (.deal m bets gp poker pos (o ++ o') hs hm
      (by rw [direct_append, ho, ho']; rfl) hbets hall hgp) ?_
    rw [← List.append_assoc]
    exact Handler.bind_of_ok hok _
  · refine ⟨_, .deckOut m bets gp poker pos (o ++ o') hs hm
      (by rw [direct_append, ho, ho']; rfl) hbets hall hgp, .inr ?_⟩
    rw [← List.append_assoc]
    exact Handler.bind_of_error herr _

private theorem waitBet_moves (h : Sound g m) (hs : g.curstate = .waitBet) :
    Moves env g m (g.waitBet env m) := by
  cases m with
  | timer t =>
    cases t with
    | bet =>
      unfold waitBet
      by_cases hall : ¬ g.isAllHaveBet = true
      · obtain ⟨bets, o, ho, hbets, hdone, hres⟩ := betForResPlayer_spec g
        rw [if_pos hall, hres]
        exact endBet_moves h hs (.inl rfl)
          (hbets.mono fun _ _ _ hv => hv.mono fun _ => .inl) hdone ho
      · have hmoves : Moves env g (.timer .bet) _ := endBet_moves h hs (.inl rfl) (o := [])
          (Table.Updated.refl fun _ v _ => OnlyBet.refl _ v)
          (isAllHaveBet_iff.mp (not_not.mp hall)) rfl
        rw [if_neg hall]
        rw [List.append_nil] at hmoves
        exact hmoves
    | waitBet =>
      obtain ⟨o, ho, hok⟩ := notifyBet_spec env h.seated
      exact .ok (.notify o hs ho) hok
    | _ => exact moves_ignore (by simp [Ignored, hs]) rfl
  | msg uid x =>
    cases x with
    | someOneBet betmoney =>
      obtain ⟨gp, o, ho, hbid, hbet⟩ := someOneBet_spec g uid betmoney
      have hgp : Table.Updated (fun _ => OnlyBet (Bids g (.msg uid (.someOneBet betmoney))))
          g.gameplayer gp := by
        refine hbid.mono fun _ _ _ hv => hv.mono fun x hx => .inr ⟨uid, ?_⟩
        rw [hx]
      cases hall : (g.someOneBet uid betmoney).isAllHaveBet with
      | true =>
        have hmoves : Moves env g (.msg uid (.someOneBet betmoney)) _ :=
          endBet_moves h hs (.inr ⟨uid, betmoney, rfl, hall⟩) hgp
            (isAllHaveBet_iff.mp (by rw [hbet] at hall; exact hall)) ho
        rw [← hbet] at hmoves
        unfold waitBet
        simp only [hall, if_true]
        exact hmoves
      | false =>
        refine .ok (.bet uid betmoney gp o hs hall ho hgp) ?_
        rw [← hbet]
        exact if_neg (by rw [hall]; exact Bool.false_ne_true)
    | _ => exact moves_ignore (by simp [Ignored, hs]) rfl

private theorem dealPokerState_moves (hs : g.curstate = .dealPoker) :
    Moves env g m (g.dealPokerState env m) := by
  unfold dealPokerState
  rw [if_pos g.gameconf.bullfight]
  cases m with
  | timer t =>
    cases t with
    | dealPoker => exact .ok (.choose _ hs (direct_broadcastOut g none (.choicePoker 0))) rfl
    | _ => exact moves_ignore (by simp [Ignored, hs]) rfl
  | msg uid x => exact moves_ignore (by simp [Ignored, hs]) rfl

/-- Records whose keys hold the same players keep the table seated. -/
theorem seated_updated (h : Seated g) {gp : Table Uid GamePlayer} {st : Table Uid Seater}
    {R : Uid → GamePlayer → GamePlayer → Prop} (hgp : Table.Updated R g.gameplayer gp)
    (hR : ∀ k v w, R k v w → w.uid = v.uid)
    (hst : Table.Updated (fun _ (x y : Seater) => y.uid = x.uid) g.seater st)
    (n : Bool) (r : ℕ) (o : List Out) : Seated { g with
      gameplayer := gp, seater := st, needgrabbanker := n, grabresontype := r
      outbox := g.outbox ++ o } := by
  refine ⟨h.1, fun k s hs => ?_, fun k v hv => ?_, fun k hk => h.4 k (hst.mem.mp hk),
    fun k hk => hst.mem.mpr (h.5 k (hgp.mem.mp hk))⟩
  · obtain ⟨x, hx, hsame⟩ := hst.get?_of_new hs
    exact hsame.trans (h.seater_uid k x hx)
  · obtain ⟨u, hu, hsame⟩ := hgp.get?_of_new hv
    exact (hR k u v hsame).trans (h.gameplayer_uid k u hu)

private theorem timeUp_moves (h : Sound g (.timer .choicePoker))
    (hs : g.curstate = .choicePokerType) :
    Moves env g (.timer .choicePoker) (g.choicePokerType env (.timer .choicePoker)) := by
  obtain ⟨gp, st, n, r, o, ho, hn, hgp, hst, hshow⟩ := showResPlayersCPType_spec h.seated
  have hseated := seated_updated h.seated hgp (fun _ _ _ hw => by rw [hw]) hst n r o
  have htyped : Typed gp := by
    intro k v hv
    obtain ⟨u, hu, rfl⟩ := hgp.get?_of_new hv
    exact (h.hands hs).typed k u hu
  have hsized : Sized gp := by
    intro k v hv
    obtain ⟨u, hu, rfl⟩ := hgp.get?_of_new hv
    exact (h.hands hs).sized k u hu
  have hbanker : g.banker ∈ gp := hgp.mem.mpr (h.banker (.inl hs))
  obtain ⟨gp', losers, hgp', hlosers, hnb, hcmp⟩ :=
    getCompareResult_spec env hseated hbanker htyped hsized
  exact .ok (.timeUp gp st n r o _ hs ho hn hgp hst (.mk gp' losers hgp' hlosers hnb))
    ((Handler.bind_of_ok hshow _).trans (Handler.bind_of_ok hcmp _))

/-- The cards a client may choose are its own. -/
theorem checkChoice_ok {v : GamePlayer} {t : ℤ} {cards : List Card}
    (h : checkChoice env v t cards = 0) (hlen : v.cards.length = 5) :
    cards.Perm v.cards ∧ (t = v.pokertype ∨ t = 0) := by
  unfold checkChoice at h
  by_cases h1 : cards.length ≠ 5
  · rw [if_pos h1] at h
    exact absurd h (by decide)
  rw [if_neg h1] at h
  by_cases h2 : Poker.hasCards env.sort v.cards cards = false
  · rw [if_pos h2] at h
    exact absurd h (by decide)
  rw [if_neg h2] at h
  by_cases h3 : t = v.pokertype ∨ t = 0
  · exact ⟨Poker.hasCards_perm (by simpa using h2) (by omega), h3⟩
  · rw [if_neg h3] at h
    exact absurd h (by decide)

theorem chosen_sound (h : Sound g m) (hs : g.curstate = .choicePokerType) {uid : Uid}
    {t : ℤ} {cards : List Card} {g₁ : Game} (hch : Chosen env g uid t cards g₁) :
    Seated g₁ ∧ g₁.banker ∈ g₁.gameplayer ∧ Typed g₁.gameplayer ∧ Sized g₁.gameplayer := by
  cases hch with
  | reject o ho =>
    exact ⟨⟨h.seated.1, h.seated.2, h.seated.3, h.seated.4, h.seated.5⟩, h.banker (.inl hs),
      (h.hands hs).typed, (h.hands hs).sized⟩
  | accept v r o hv hcheck ho =>
    have hgp : Table.Updated (fun k (x y : GamePlayer) => y.uid = x.uid ∧
          (y.pokertype = x.pokertype ∧ y.choicecards = x.choicecards ∨
            k = uid ∧ y.pokertype = t ∧ y.choicecards = cards)) g.gameplayer
        (g.gameplayer.modify uid fun v =>
          { v with pokertype := t, choicecards := cards, havechoice := true }) :=
      Table.updated_modify (fun _ _ => ⟨rfl, .inl ⟨rfl, rfl⟩⟩)
        fun _ _ => ⟨rfl, .inr ⟨rfl, rfl, rfl⟩⟩
    have hst : Table.Updated (fun _ (x y : Seater) => y.uid = x.uid) g.seater
        (g.seater.modify uid fun s => { s with timeouttimes := 0 }) :=
      Table.updated_modify (fun _ _ => rfl) fun _ _ => rfl
    refine ⟨seated_updated h.seated hgp (fun _ _ _ hw => hw.1) hst _ r o,
      hgp.mem.mpr (h.banker (.inl hs)), fun k w hw => ?_, fun k w hw => ?_⟩
    · obtain ⟨u, hu, -, ⟨hsame, -⟩ | ⟨rfl, hnew, -⟩⟩ := hgp.get?_of_new hw
      · rw [hsame]
        exact (h.hands hs).typed k u hu
      · have hlen := ((h.hands hs) _ v hv).size
        obtain ⟨-, rfl | rfl⟩ := checkChoice_ok hcheck hlen
        · rw [hnew]
          exact (h.hands hs).typed _ v hv
        · rw [hnew]
          omega
    · obtain ⟨u, hu, -, ⟨-, hsame⟩ | ⟨rfl, -, hnew⟩⟩ := hgp.get?_of_new hw
      · rw [hsame]
        exact (h.hands hs).sized k u hu
      · have hlen := ((h.hands hs) _ v hv).size
        rw [hnew, (checkChoice_ok hcheck hlen).1.length_eq, hlen]
        decide

private theorem choice_moves (h : Sound g m) (hs : g.curstate = .choicePokerType) (uid : Uid)
    (t : ℤ) (cards : List Card) (hm : m = .msg uid (.bfPokerType t cards)) :
    Moves env g m (g.choicePokerType env m) := by
  subst hm
  obtain ⟨g₁, hg₁, hch⟩ : ∃ g₁, g.someOneChoicePoker env uid t cards = .ok g₁ ∧
      Chosen env g uid t cards g₁ := by
    obtain ⟨o, ho, hrej | ⟨v, hv, hcheck, hacc⟩⟩ := someOneChoicePoker_spec env h.seated uid t cards
    · exact ⟨_, hrej, .reject o ho⟩
    · exact ⟨_, hacc, .accept v _ o hv hcheck ho⟩
  obtain ⟨hseated, hbanker, htyped, hsized⟩ := chosen_sound h hs hch
  cases hall : g₁.isAllPlayerChoiced with
  | false =>
    exact .ok (.choice uid t cards g₁ hs hch hall)
      ((Handler.bind_of_ok hg₁ _).trans (if_neg (by rw [hall]; exact Bool.false_ne_true)))
  | true =>
    obtain ⟨gp, losers, hgp, hlosers, hnb, hcmp⟩ :=
      getCompareResult_spec env hseated hbanker htyped hsized
    exact .ok (.compare uid t cards g₁ _ hs hch hall (.mk gp losers hgp hlosers hnb))
      ((Handler.bind_of_ok hg₁ _).trans ((if_pos hall).trans (Handler.bind_of_ok hcmp _)))

private theorem choicePokerType_moves (h : Sound g m) (hs : g.curstate = .choicePokerType) :
    Moves env g m (g.choicePokerType env m) := by
  cases m with
  | timer t =>
    cases t with
    | choicePoker => exact timeUp_moves h hs
    | _ => exact moves_ignore (by simp [Ignored, hs]) rfl
  | msg uid x =>
    cases x with
    | bfPokerType t cards => exact choice_moves h hs uid t cards rfl
    | _ => exact moves_ignore (by simp [Ignored, hs]) rfl

theorem owes_iff {uid : Uid} : g.owes uid = true ↔
    ∃ v, g.gameplayer.get? uid = some v ∧ v.winmoney = 0 ∧ v.totaladd < 0 := by
  unfold owes
  cases hv : g.gameplayer.get? uid with
  | none => simp
  | some v => simp

/-- After a report the table settles if nothing is missing. -/
private theorem reported_moves (h : Sound g m) (hs : g.curstate = .waitShowResult) {g₁ : Game}
    (hrep : Reported g m g₁) :
    Moves env g m (if g₁.canGetLastResult then g₁.getLastResult else return g₁) := by
  have hseated : Seated g₁ ∧ g₁.forcequitplayer = .empty ∧ g₁.banker ∈ g₁.gameplayer := by
    cases hrep with
    | loser uid money v lose hv hw ha hl =>
      set win := loserWin (v.totaladd * g.gameconf.basebet) money
      have hgp := updated_collect g uid win
      exact ⟨seated_updated h.seated hgp (fun _ _ _ hw => by rw [hw])
        (Table.Updated.refl fun _ _ _ => rfl) g.needgrabbanker g.grabresontype _, h.force,
        hgp.mem.mpr (h.banker (.inr hs))⟩
    | dropped uid money hno => exact ⟨h.seated, h.force, h.banker (.inr hs)⟩
    | banker uid money =>
      exact ⟨⟨h.seated.1, h.seated.2, h.seated.3, h.seated.4, h.seated.5⟩, h.force,
        h.banker (.inr hs)⟩
  obtain ⟨hseat, hforce, hbanker⟩ := hseated
  cases hcan : g₁.canGetLastResult with
  | false => exact .ok (.report m g₁ hs hrep hcan) (if_neg Bool.false_ne_true)
  | true =>
    obtain ⟨b, hb⟩ := Table.mem_iff_get?.mp hbanker
    obtain ⟨gp, lr, o, hgp, ho, hcred, hres⟩ := getLastResult_spec hseat hforce hb
    exact .ok (.settle m g₁ _ hs hrep hcan (.mk b gp lr o _ _ hb hgp ho hcred))
      ((if_pos rfl).trans hres)

private theorem waitShowResult_moves (h : Sound g m) (hs : g.curstate = .waitShowResult) :
    Moves env g m (g.waitShowResult env m) := by
  cases m with
  | timer t =>
    cases t with
    | waitShowResult =>
      exact .ok (.reveal _ hs (direct_broadcastOut g none (.bfShowResult g.lastresult))) rfl
    | _ => exact moves_ignore (by simp [Ignored, hs]) rfl
  | msg uid x =>
    cases x with
    | loserGetResult money =>
      obtain ⟨g₁, hg₁, hrep⟩ : ∃ g₁, g.loserGetResult uid money = .ok g₁ ∧
          Reported g (.msg uid (.loserGetResult money)) g₁ := by
        cases howes : g.owes uid with
        | false => exact ⟨g, loserGetResult_ignored howes money, .dropped uid money howes⟩
        | true =>
          obtain ⟨v, hv, hw, ha⟩ := owes_iff.mp howes
          obtain ⟨lose, hlose, hres⟩ :=
            loserGetResult_answered hv hw ha (h.banker (.inr hs)) money
          exact ⟨_, hres, .loser uid money v lose hv hw ha hlose⟩
      rw [show g.waitShowResult env (.msg uid (.loserGetResult money))
        = if g₁.canGetLastResult then g₁.getLastResult else return g₁ from
          Handler.bind_of_ok hg₁ _]
      exact reported_moves h hs hrep
    | bankerMoney money => exact reported_moves h hs (.banker uid money)
    | _ => exact moves_ignore (by simp [Ignored, hs]) rfl

private theorem showResult_close (hs : g.curstate = .showResult) :
    Moves env g (.timer .showResult) (g.showResult env (.timer .showResult)) := by
  obtain ⟨n, r, p, conf, o, hn, ho, hres⟩ := resertGame_spec (g.gameOver.changeState .waitPlayer)
  have hover : rets (g.broadcastOut none .gameOver ++ [.sqlTableLog g.tablelog]) = [] := by
    rw [rets_append, rets_of_direct_nil (direct_broadcastOut g none .gameOver)]
    rfl
  have hout : rets (g.broadcastOut none .gameOver ++ [.sqlTableLog g.tablelog] ++ o) = [] := by
    rw [rets_append, hover, ho]
    rfl
  have hstep : g.showResult env (.timer .showResult)
      = if g.sitnum ≥ 2 ∧ ¬ env.serverClose then
          .ok (((g.gameOver.changeState .waitPlayer).resertGame.changeState .waitStartGame).addTimer
            .waitStart (g.gameOver.changeState .waitPlayer).resertGame.gameconf.waitstarttime)
        else if env.serverClose ∧ ¬ env.otherGameStart then
          .ok ((g.gameOver.changeState .waitPlayer).resertGame.emit [.shutDown])
        else .ok (g.gameOver.changeState .waitPlayer).resertGame := by
    have hsit : (g.gameOver.changeState .waitPlayer).resertGame.sitnum = g.sitnum := by
      rw [hres]
      rfl
    rw [← hsit]
    rfl
  rw [hstep, hres]
  by_cases hagain : g.sitnum ≥ 2 ∧ ¬ env.serverClose = true
  · refine .ok (.close _ hs (.mk n r p conf _ true hn hout fun _ => hagain.1))
      ((if_pos hagain).trans ?_)
    simp only [← List.append_assoc]
    rfl
  · rw [if_neg hagain]
    by_cases hshut : env.serverClose = true ∧ ¬ env.otherGameStart = true
    · have hout' : rets (g.broadcastOut none .gameOver ++ [.sqlTableLog g.tablelog] ++ o
          ++ [.shutDown]) = [] := by
        rw [rets_append, hout]
        rfl
      refine .ok (.close _ hs (.mk n r p conf _ false hn hout' fun h => absurd h Bool.false_ne_true))
        ((if_pos hshut).trans ?_)
      simp only [← List.append_assoc]
      rfl
    · refine .ok (.close _ hs (.mk n r p conf _ false hn hout fun h => absurd h Bool.false_ne_true))
        ((if_neg hshut).trans ?_)
      simp only [← List.append_assoc]
      rfl

private theorem showResult_moves (hs : g.curstate = .showResult) :
    Moves env g m (g.showResult env m) := by
  cases m with
  | timer t =>
    cases t with
    | showResult =>
      exact showResult_close hs
    | _ => exact moves_ignore (by simp [Ignored, hs]) rfl
  | msg uid x => exact moves_ignore (by simp [Ignored, hs]) rfl

/-- The handlers of the source make the moves of the table. -/
theorem command_moves (h : Sound g m) : Moves env g m (g.command env m) := by
  unfold command
  cases hs : g.curstate with
  | waitPlayer => exact waitPlayer_moves hs
  | waitStartGame => exact waitStartGame_moves h hs
  | grabTheBanker => exact grabTheBanker_moves h hs
  | waitBet => exact waitBet_moves h hs
  | dealPoker => exact dealPokerState_moves hs
  | choicePokerType => exact choicePokerType_moves h hs
  | waitShowResult => exact waitShowResult_moves h hs
  | showResult => exact showResult_moves hs

end Game

end DnServer.Bullfight
