import DnServer.Bullfight.Game.State

/-!
# The game service: behaviour

The procedures and handlers of `bfgame.lua`, in the order of the source. A loop
over `pairs` reads each entry as it was when the loop began; no loop of the
source changes what it reads of an entry it has yet to visit, except the
banker's record, which is looked up again in every round.
-/

namespace DnServer.Bullfight

open DnServer.Lib

namespace Game

/-! ## Dealing players into a round -/

/-- `playersid` after one more player. -/
def joinUid (playersid : Option String) (uid : Uid) : Option String :=
  match playersid with
  | none => some (toString uid)
  | some ids => some (ids ++ "," ++ toString uid)

/-- Every seated player gets a fresh record; returns their number. -/
def addPlayerToGame (env : Env) (g : Game) : Game × ℕ :=
  let num := g.seater.size
  ({ g with
      gameplayer := g.seater.mapVal fun _ v => GamePlayer.new v.uid
      tablelog :=
        { cardsid := some (toString g.id ++ toString env.now)
          count := num
          playersid := g.seater.pairs.foldl (fun ids p => joinUid ids p.2.uid) g.tablelog.playersid
          time := some env.now } }, num)

def getPlayerNumInGame (g : Game) : ℕ × List Uid :=
  (g.gameplayer.size, g.gameplayer.pairs.map fun p => p.2.uid)

/-! ## Comparing and settling -/

/-- One round of the loop of `GetCompareResult`. -/
def compareWithBanker (env : Env) (g : Game) (k : Uid) (v : GamePlayer) : Result := do
  let banker ← Handler.index g .nilIndex (g.gameplayer.get? g.banker)
  if k ≠ banker.uid then
    let add := ⌊v.betmoney / g.gameconf.basebet⌋
    let cmp := Poker.bfCompare env.sort v.choicecards v.pokertype
      banker.choicecards banker.pokertype
    let g := (g.setPlayer k fun v => { v with choicecards := cmp.1.1 }).setPlayer g.banker
      fun b => { b with choicecards := cmp.1.2 }
    let better ← Handler.index g .nilIndex cmp.2
    if better then
      let m ← Handler.index g .nilArith (types.bulladd v.pokertype)
      return (g.setPlayer k fun v => { v with totaladd := v.totaladd + add * m }).setPlayer
        g.banker fun b => { b with totaladd := b.totaladd - add * m }
    else
      let m ← Handler.index g .nilArith (types.bulladd banker.pokertype)
      let g := (g.setPlayer k fun v => { v with totaladd := v.totaladd - add * m }).setPlayer
        g.banker fun b => { b with totaladd := b.totaladd + add * m }
      g.sendAgent v.uid .notifyLoserGetResult
  else return g

def getCompareResult (env : Env) (g : Game) : Result := do
  let g ← g.gameplayer.pairs.foldlM (fun g p => compareWithBanker env g p.1 p.2) g
  let g := { g with bankermoney := 0 }
  let banker ← Handler.index g .nilIndex (g.gameplayer.get? g.banker)
  g.sendAgent banker.uid .getBankerMoney

def notifyPlayerChoicePoker (g : Game) : Game := g.broadcast none (.choicePoker 0)

/-- What the winners are owed together. -/
def bankerLose (g : Game) : ℤ :=
  g.gameplayer.pairs.foldl (fun bankerlose p =>
    if p.2.uid ≠ g.banker ∧ p.2.totaladd > 0 then bankerlose + p.2.totaladd * g.gameconf.basebet
    else bankerlose) 0

/-- What a winner is paid out of `bankermoney` when all are owed `bankerlose`. -/
def winnerMoney (basebet : ℕ) (bankermoney : ℚ) (bankerlose : ℤ) (totaladd : ℤ) : ℤ :=
  if bankermoney ≥ bankerlose then totaladd * basebet
  else ⌊((totaladd * basebet : ℤ) : ℚ) / bankerlose * bankermoney⌋

/-- One round of the loop over `forcequitplayer` in `GetLastResult`. -/
def settleForceQuit (g : Game) (k : Uid) (v : ℚ) : Game :=
  { g.setPlayer g.banker fun b => { b with winmoney := b.winmoney - v } with
    lastresult := g.lastresult ++ [⟨k, 0, v, 0, []⟩] }

def settleForceQuits (g : Game) : Game :=
  g.forcequitplayer.pairs.foldl (fun g p => g.settleForceQuit p.1 p.2) g

/-- Does the second loop of `GetLastResult` pay this player? -/
def isWinner (g : Game) (v : GamePlayer) : Prop := v.totaladd > 0 ∧ v.uid ≠ g.banker

instance (g : Game) (v : GamePlayer) : Decidable (g.isWinner v) :=
  inferInstanceAs (Decidable (_ ∧ _))

/-- The payment of a winner in the second loop of `GetLastResult`. -/
def payWinner (g : Game) (k : Uid) (v : GamePlayer) (win : ℚ) : Game :=
  ((g.setPlayer k fun v => { v with winmoney := win }).setPlayer g.banker
    fun b => { b with winmoney := b.winmoney - win }).addMoney v.uid win

/-- One round of the second loop of `GetLastResult`. -/
def settlePlayer (bankermoney : ℚ) (bankerlose : ℤ) (g : Game) (k : Uid) (v : GamePlayer) :
    Result := do
  let win := winnerMoney g.gameconf.basebet bankermoney bankerlose v.totaladd
  let g' := if g.isWinner v then g.payWinner k v win else g
  if v.uid ≠ g.banker then
    let winmoney := if g.isWinner v then (win : ℚ) else v.winmoney
    let g' ← g'.sendAgent v.uid (.playOneMatch v.totaladd v.choicecards v.pokertype)
    return { g' with
      lastresult := g'.lastresult ++ [⟨v.uid, v.totaladd, winmoney, v.pokertype, v.choicecards⟩] }
  else return g'

/-- A banker who cannot cover thirty base bets is not banker again. -/
def dismissBanker (g : Game) : Game :=
  if g.bankermoney < (g.gameconf.basebet : ℚ) * 30 then
    { g with needgrabbanker := true, grabresontype := 1, playcount := 0 }
  else g

/-- The end of `GetLastResult`: the banker's own result. -/
def settleBanker (g : Game) : Result := do
  let banker ← Handler.index g .nilIndex (g.gameplayer.get? g.banker)
  let g ← (g.addMoney banker.uid banker.winmoney).sendAgent banker.uid
    (.playOneMatch banker.totaladd banker.choicecards banker.pokertype)
  let g := { g with bankermoney := g.bankermoney + banker.winmoney }.dismissBanker
  return { g with
    havegetresult := true
    lastresult := g.lastresult ++
      [⟨banker.uid, banker.totaladd, banker.winmoney, banker.pokertype, banker.choicecards⟩] }

def getLastResult (g : Game) : Result := do
  let g := g.enter .getLastResult
  let bankerlose := g.bankerLose
  let _ ← Handler.index g .nilIndex (g.gameplayer.get? g.banker)
  let g := g.settleForceQuits
  let banker ← Handler.index g .nilIndex (g.gameplayer.get? g.banker)
  let bankermoney := g.bankermoney + banker.winmoney
  let g ← g.gameplayer.pairs.foldlM
    (fun g p => settlePlayer bankermoney bankerlose g p.1 p.2) g
  g.settleBanker

/-! ## The end of a round -/

def gameOver (g : Game) : Game :=
  (g.broadcast none .gameOver).emit [.sqlTableLog g.tablelog]

/-- Did the player let two choices time out? -/
def timeouted (g : Game) (uid : Uid) : Bool :=
  match g.seater.get? uid with
  | some seater => seater.timeouttimes ≥ 2
  | none => false

/-- What `ResertGame` sends: who let two choices time out is kicked. -/
def kickEvents (g : Game) : List Out :=
  g.players.pairs.map fun p => .send p.2 (.kickForGameOver (g.timeouted p.2.uid))

/-- A banker of three rounds is not banker again. -/
def retireBanker (g : Game) : Game :=
  if g.playcount ≥ 3 then { g with playcount := 0, needgrabbanker := true, grabresontype := 3 }
  else g

def unseatBanker (g : Game) : Game := if g.needgrabbanker then { g with banker := 0 } else g

/-- The assignments of `ResertGame`. -/
def clearRound (g : Game) : Game :=
  { g with
    pos := 1, gameplayer := .empty, lastresult := [], forcequitplayer := .empty
    havegetresult := false, bankermoney := 0, starttime := 0, topupling := 1 }

def resertGame (g : Game) : Game :=
  let g := ((g.enter .resertGame).emit g.kickEvents).removeTimer none
  let g := g.clearRound.retireBanker.unseatBanker
  updateGameconf { g with tablelog := .start }

/-! ## The start of a round -/

/-- The fee of the player with key `k`. -/
def feeOf (g : Game) (k : Uid) : ℤ :=
  if k = g.banker then ⌊g.gameconf.bankerticket * g.gameconf.basebet + 1 / 2⌋
  else ⌊g.gameconf.ticket * g.gameconf.basebet + 1 / 2⌋

/-- One round of the loop of `TakeFee`. -/
def takeFeeFrom (g : Game) (k : Uid) (v : GamePlayer) : Result :=
  g.sendAgent v.uid (.takeFee (g.feeOf k)
    { money := g.feeOf k, gametype := g.gameconf.gametype, roomtype := g.gameconf.roomtype,
      moneytype := g.gameconf.basebet })

/-- `fee` after the loop of `TakeFee`: that of its last round, whoever it was. -/
def lastFee (g : Game) : ℤ := (g.gameplayer.keys.getLast?.map g.feeOf).getD 0

def takeFee (g : Game) : Result := do
  let g := g.enter .takeFee
  if g.gameconf.ticket ≠ 0 then
    let g ← g.gameplayer.pairs.foldlM (fun g p => takeFeeFrom g p.1 p.2) g
    let g := g.broadcast none (.takeFee g.gameplayer.keys
      ⌊g.gameconf.ticket * g.gameconf.basebet + 1 / 2⌋
      ⌊g.gameconf.bankerticket * g.gameconf.basebet + 1 / 2⌋)
    return { g with bankermoney := g.bankermoney - g.lastFee }
  else return g

def shufflePoker (env : Env) (g : Game) : Game :=
  { g with poker := Poker.shuffle env.rnd g.poker, pos := 1 }

/-- One round of the first loop of `DealPoker`. -/
def dealTo (g : Game) (k : Uid) (v : GamePlayer) : Result := do
  let cards := (Poker.popCards g.poker 5 g.pos).1
  let g := { g.setPlayer k fun v => { v with cards := cards } with
    pos := (Poker.popCards g.poker 5 g.pos).2 }
  let bf ← Handler.index g .assertion (Poker.getBFType cards v.choicecards)
  let g := g.setPlayer k fun v => { v with pokertype := bf.1, choicecards := bf.2 }
  return g.sendTo k (.dealPoker cards bf.1)

def dealPoker (env : Env) (g : Game) : Result := do
  let g := g.shufflePoker env
  let g ← g.gameplayer.pairs.foldlM (fun g p => dealTo g p.1 p.2) g
  return g.players.pairs.foldl (fun g p =>
    if p.1 ∈ g.gameplayer then g else g.sendTo p.1 (.dealPoker [] 0)) g

/-- The bet cap for a banker who can cover `curup` base bets a player. -/
def topUpling (upling : List ℕ) (curup : ℤ) (topupling : ℕ) : ℕ :=
  if curup ≥ types.uplingTop then types.uplingTop
  else (upling.find? fun v : ℕ => decide (curup < (v : ℤ))).getD topupling

def notifyBet (env : Env) (g : Game) : Result := do
  let g := g.enter .notifyBet
  let num := g.getPlayerNumInGame.1
  let g := (g.changeState .waitBet).addTimer .bet g.gameconf.bettime
  let g := { g with starttime := env.now }
  let g ← g.takeFee
  let g := g.broadcast none (.notifyBet g.gameconf.bettime)
  let g := { g with playcount := g.playcount + 1 }
  let curup := ⌊g.bankermoney / ((num : ℚ) * g.gameconf.basebet)⌋
  return { g with topupling := topUpling env.upling curup g.topupling }

/-- Betting opens after the choice of the banker was shown, or at once. -/
def openBet (env : Env) (g : Game) : Result :=
  if g.bankersourcetype = 1 ∨ g.bankersourcetype = 2 then
    return g.addTimer .waitBet g.gameconf.waitbettime
  else g.notifyBet env

def checkStartGame (env : Env) (g : Game) : Result := do
  if g.sitnum ≥ 2 then
    if ¬ g.needgrabbanker then
      let g ← (g.changeState .waitBet).openBet env
      return { g with bankersourcetype := 0 }
    else
      let g := (g.changeState .grabTheBanker).addTimer .grabBanker g.gameconf.grabbankertime
      let g ← g.gameplayer.pairs.foldlM (fun g p => g.sendAgent p.2.uid .getMoney) g
      return g.broadcast none (.grabBanker g.gameconf.grabbankertime g.grabresontype)
  else
    return { g.removeTimer none with gameplayer := .empty }.changeState .waitPlayer

/-! ## Leaving the seat and the table -/

/-- What `PlayerTryStand` and `PlayerTryQuit` do to a seated player. -/
def leaveSeat (g : Game) (uid : Uid) : Game :=
  if uid ∈ g.seater then
    let g := { g with seater := g.seater.erase uid, sitnum := g.sitnum - 1 }
    if uid = g.banker ∨ g.sitnum < 2 then
      { g with
        grabresontype := if uid = g.banker ∧ g.sitnum ≥ 2 then 4 else 0
        banker := 0
        playcount := 0
        needgrabbanker := true }
    else g
  else g

def playerTryStand (g : Game) (uid : Uid) : Game × ℤ :=
  if uid ∈ g.gameplayer ∧ g.isGameStart then (g, errorcode.GAME_HAVE_STARTED)
  else
    let g := g.leaveSeat uid
    ({ g with gameplayer := g.gameplayer.erase uid }, 0)

def playerTryQuit (g : Game) (uid : Uid) : Game × ℤ :=
  if uid ∈ g.gameplayer ∧ g.isGameStart then (g, errorcode.GAME_HAVE_STARTED)
  else
    let g := g.leaveSeat uid
    ({ g with players := g.players.erase uid, gameplayer := g.gameplayer.erase uid }, 0)

/-- What a returning player is told about one player of the round. -/
def usersState (g : Game) (uid : Uid) (v : GamePlayer) : BfUsersState where
  uid := v.uid
  state := g.curstate
  pokertype := if v.havechoice then v.pokertype else -1
  cards := if v.havechoice then v.choicecards else if uid = v.uid then v.cards else []
  grabsign := v.grabbanker
  betmoney := v.betmoney

def resumeGame (env : Env) (g : Game) (uid : Uid) : Game :=
  let users := if g.isGameStart then g.gameplayer.pairs.map fun p => g.usersState uid p.2 else []
  let lefttime : ℤ :=
    match g.curstate with
    | .waitBet => g.starttime + g.gameconf.bettime - env.now
    | .choicePokerType => g.starttime + g.gameconf.choicepokertime - env.now
    | .showResult => g.starttime + g.gameconf.showresulttime - env.now
    | _ => 0
  g.sendTo uid (.bfResumeGame users lefttime g.banker)

/-! ## Choosing cards -/

/-- The checks on a client's choice: the error code, 0 if it is accepted. -/
def checkChoice (env : Env) (player : GamePlayer) (t : ℤ) (cards : List Card) : ℤ :=
  if cards.length ≠ 5 then errorcode.CARDS_SIZE_ERROR
  else if Poker.hasCards env.sort player.cards cards = false then errorcode.NOT_THE_SAME_CARDS
  else if t = player.pokertype ∨ t = 0 then 0
  else errorcode.CARDS_TYPE_ERROR

def someOneChoicePoker (env : Env) (g : Game) (uid : Uid) (t : ℤ) (cards : List Card) :
    Result := do
  match g.gameplayer.get? uid with
  | none => return g
  | some player =>
    let errcode := checkChoice env player t cards
    if errcode = 0 then
      let g := g.setPlayer uid fun v =>
        { v with pokertype := t, choicecards := Poker.copyCards cards v.choicecards }
      let _ ← Handler.index g .nilIndex (g.seater.get? uid)
      let g := { g with seater := g.seater.modify uid fun s => { s with timeouttimes := 0 } }
      let g :=
        if t ≥ types.PT_BULL_BULL then { g with needgrabbanker := true, grabresontype := 2 }
        else g
      let g := g.broadcast none (.bfSomeOneChoice uid true t cards)
      return g.setPlayer uid fun v => { v with havechoice := true }
    else return g.sendTo uid (.bfSomeOneChoice uid false errcode [])

/-- One round of the loop of `ShowResPlayersCPType`. -/
def showResPlayer (g : Game) (k : Uid) (v : GamePlayer) : Result := do
  if ¬ v.havechoice then
    let g :=
      if v.pokertype ≥ types.PT_BULL_BULL then
        { g with needgrabbanker := true, grabresontype := 2 }
      else g
    let g := g.broadcast none (.bfSomeOneChoice v.uid true v.pokertype v.choicecards)
    let _ ← Handler.index g .nilIndex (g.seater.get? v.uid)
    let g := { g with
      seater := g.seater.modify v.uid fun s => { s with timeouttimes := s.timeouttimes + 1 } }
    return g.setPlayer k fun v => { v with havechoice := true }
  else return g

def showResPlayersCPType (g : Game) : Result :=
  g.gameplayer.pairs.foldlM (fun g p => showResPlayer g p.1 p.2) g

def isAllPlayerChoiced (g : Game) : Bool := g.gameplayer.pairs.all fun p => p.2.havechoice

/-! ## Grabbing the bank -/

def someOneGrab (g : Game) (uid : Uid) (sign : ℤ) (money : ℚ) : Game :=
  match g.gameplayer.get? uid with
  | some plr =>
    if plr.grabbanker = 0 then
      (g.setPlayer uid fun v => { v with money := money, grabbanker := sign }).broadcast none
        (.someOneGrabBanker uid sign)
    else g
  | none => g

/-- The loop of `AllHaveGrabed`: players who cannot be banker grab no longer, up
to the first who has not answered. -/
def allHaveGrabedFrom (basemoney : ℚ) : List (Uid × GamePlayer) → Game → Game × Bool
  | [], g => (g, true)
  | (k, v) :: rest, g =>
    if v.money ≠ 0 ∧ v.money < basemoney then
      allHaveGrabedFrom basemoney rest (g.setPlayer k fun v => { v with grabbanker := 2 })
    else if v.grabbanker = 0 then (g, false)
    else allHaveGrabedFrom basemoney rest g

def allHaveGrabed (g : Game) : Game × Bool :=
  allHaveGrabedFrom (g.gameconf.basebet * 30) g.gameplayer.pairs g

def forResPlayerGrab (g : Game) : Game :=
  g.gameplayer.pairs.foldl (fun g p =>
    if p.2.grabbanker = 0 ∨ p.2.grabbanker = 2 then
      g.broadcast none (.someOneGrabBanker p.2.uid 2)
    else g) g

/-- Who has most money and how much: the last of the richest, `(0, 0)` at first. -/
def topMoney (g : Game) : Uid × ℚ :=
  g.gameplayer.pairs.foldl (fun top p => if p.2.money ≥ top.2 then (p.2.uid, p.2.money) else top)
    (0, 0)

/-- The players who want the bank. -/
def grabers (g : Game) : List Uid :=
  g.gameplayer.pairs.filterMap fun p => if p.2.grabbanker = 1 then some p.2.uid else none

/-- The choice of the banker in `NotifyTheGrab`. -/
def chooseBanker (env : Env) (g : Game) : Game :=
  match g.grabers with
  | [] => { g with banker := g.topMoney.1, bankersourcetype := 1 }
  | [uid] => { g with banker := uid }
  | uid :: uids =>
    { g with
      banker := (uid :: uids).getD (env.rnd 0 % (uid :: uids).length) uid
      bankersourcetype := 2 }

def notifyTheGrab (env : Env) (g : Game) : Result := do
  let g := g.chooseBanker env
  let g := { g with needgrabbanker := false, grabresontype := 0, playcount := 0 }
  let banker ← Handler.index g .nilIndex (g.gameplayer.get? g.banker)
  let g := { g with bankermoney := banker.money }
  let g := g.broadcast none (.notifyTheBanker g.banker g.bankersourcetype)
  let g := { g with gameplayer := g.gameplayer.mapVal fun _ v => { v with grabbanker := 0 } }
  g.checkStartGame env

/-! ## Betting -/

def isAllHaveBet (g : Game) : Bool :=
  g.gameplayer.pairs.all fun p => ¬ (p.2.betmoney = 0 ∧ p.2.uid ≠ g.banker)

def betForResPlayer (g : Game) : Game :=
  g.gameplayer.pairs.foldl (fun g p =>
    if p.2.betmoney = 0 ∧ p.2.uid ≠ g.banker then
      (g.setPlayer p.1 fun v => { v with betmoney := g.gameconf.basebet }).broadcast none
        (.someOneBet p.2.uid g.gameconf.basebet 0)
    else g) g

def someOneBet (g : Game) (uid : Uid) (betmoney : ℚ) : Game :=
  if uid ∈ g.gameplayer then
    if betmoney > g.topupling * g.gameconf.basebet then
      g.sendTo uid (.someOneBet uid 0 errorcode.BET_MONEY_ERROR)
    else
      (g.setPlayer uid fun v => { v with betmoney := betmoney }).broadcast none
        (.someOneBet uid betmoney 0)
  else g

/-! ## Collecting from the losers -/

/-- Does the guard of `LoserGetResult` let the caller through? -/
def owes (g : Game) (uid : Uid) : Bool :=
  match g.gameplayer.get? uid with
  | some player => player.winmoney = 0 ∧ player.totaladd < 0
  | none => false

/-- What a loser with `playermoney` loses, as a negative win. -/
def loserWin (needlose playermoney : ℚ) : ℚ :=
  if playermoney ≥ -needlose then needlose else -playermoney

def loserGetResult (g : Game) (uid : Uid) (playermoney : ℚ) : Result := do
  match g.gameplayer.get? uid with
  | none => return g
  | some player =>
    if player.winmoney = 0 ∧ player.totaladd < 0 then
      let win := loserWin (player.totaladd * g.gameconf.basebet) playermoney
      let g := g.setPlayer uid fun v => { v with winmoney := win }
      let _ ← Handler.index g .nilIndex (g.gameplayer.get? g.banker)
      let g := g.setPlayer g.banker fun b => { b with winmoney := b.winmoney - win }
      -- read back, for the caller may itself be the banker
      let player ← Handler.index g .nilIndex (g.gameplayer.get? uid)
      return g.emit [.ret (.lose (-player.winmoney) g.tablelog.cardsid)]
    else return g

def canGetLastResult (g : Game) : Bool :=
  g.bankermoney ≠ 0 ∧
    g.gameplayer.pairs.all fun p =>
      ¬ (p.2.uid ≠ g.banker ∧ p.2.winmoney = 0 ∧ p.2.totaladd < 0)

/-! ## The handlers of the states -/

def waitPlayer (env : Env) (g : Game) : Mtype → Result
  | .msg _ .someOneSit =>
    if g.sitnum ≥ 2 ∧ ¬ env.serverClose then
      return (g.addTimer .waitStart g.gameconf.waitstarttime).changeState .waitStartGame
    else return g
  | _ => return g

/-- The messages that announce a round of at least two players. -/
def announceGame (g : Game) : Game :=
  (g.broadcast none (.bfGameStart g.getPlayerNumInGame.1 g.getPlayerNumInGame.2)).emit
    [.recordGameNum g.gameconf.roomtype]

def waitStartGame (env : Env) (g : Game) (mtype : Mtype) : Result := do
  if g.gameconf.gametype = types.GAME_TYPE_BULLFIGHT then
    match mtype with
    | .timer .waitStart =>
      let num := (g.addPlayerToGame env).2
      let g := (g.addPlayerToGame env).1
      (if num ≥ 2 then g.announceGame else g).checkStartGame env
    | .msg _ .tryStand | .msg _ .tryQuit =>
      if g.sitnum < 2 then return (g.removeTimer (some .waitStart)).changeState .waitPlayer
      else return g
    | _ => return g
  else return g

def grabTheBanker (env : Env) (g : Game) : Mtype → Result
  | .timer .grabBanker => g.forResPlayerGrab.notifyTheGrab env
  | .msg uid (.playerMoney money) =>
    return g.setPlayer uid fun v => { v with money := money }
  | .msg uid (.someOneGrab sign money) =>
    let all := (g.someOneGrab uid sign money).allHaveGrabed
    if all.2 then all.1.forResPlayerGrab.notifyTheGrab env else return all.1
  | _ => return g

/-- The end of betting: deal and wait. -/
def endBet (env : Env) (g : Game) : Result := do
  let g ← (g.changeState .dealPoker).dealPoker env
  return g.addTimer .dealPoker g.gameconf.dealpokertime

def waitBet (env : Env) (g : Game) : Mtype → Result
  | .timer .bet => (if ¬ g.isAllHaveBet then g.betForResPlayer else g).endBet env
  | .timer .waitBet => g.notifyBet env
  | .msg uid (.someOneBet betmoney) =>
    let g := g.someOneBet uid betmoney
    if g.isAllHaveBet then g.endBet env else return g
  | _ => return g

def dealPokerState (env : Env) (g : Game) (mtype : Mtype) : Result :=
  if g.gameconf.gametype = types.GAME_TYPE_BULLFIGHT then
    match mtype with
    | .timer .dealPoker =>
      return { (g.notifyPlayerChoicePoker.changeState .choicePokerType).addTimer .choicePoker
        g.gameconf.choicepokertime with starttime := env.now }
    | _ => return g
  else return g

def choicePokerType (env : Env) (g : Game) : Mtype → Result
  | .timer .choicePoker => do
    let g ← g.showResPlayersCPType
    let g ← g.getCompareResult env
    return (g.addTimer .waitShowResult g.gameconf.waitshowresulttime).changeState
      .waitShowResult
  | .msg uid (.bfPokerType t cards) => do
    let g ← g.someOneChoicePoker env uid t cards
    if g.isAllPlayerChoiced then
      let g ← g.getCompareResult env
      let g := g.addTimer .waitShowResult g.gameconf.waitshowresulttime
      return (g.removeTimer (some .choicePoker)).changeState .waitShowResult
    else return g
  | _ => return g

def waitShowResult (_env : Env) (g : Game) : Mtype → Result
  | .msg uid (.loserGetResult money) => do
    let g ← g.loserGetResult uid money
    if g.canGetLastResult then g.getLastResult else return g
  | .msg _ (.bankerMoney money) =>
    let g := { g with bankermoney := money }
    if g.canGetLastResult then g.getLastResult else return g
  | .timer .waitShowResult =>
    let g := g.changeState .showResult
    return (g.broadcast none (.bfShowResult g.lastresult)).addTimer .showResult
      g.gameconf.showresulttime
  | _ => return g

def showResult (env : Env) (g : Game) : Mtype → Result
  | .timer .showResult =>
    let g := (g.gameOver.changeState .waitPlayer).resertGame
    if g.sitnum ≥ 2 ∧ ¬ env.serverClose then
      return (g.changeState .waitStartGame).addTimer .waitStart g.gameconf.waitstarttime
    else if env.serverClose ∧ ¬ env.otherGameStart then return g.emit [.shutDown]
    else return g
  | _ => return g

/-- `command[game.curstate](game, mtype, ...)`. -/
def command (env : Env) (g : Game) (mtype : Mtype) : Result :=
  match g.curstate with
  | .waitPlayer => g.waitPlayer env mtype
  | .waitStartGame => g.waitStartGame env mtype
  | .grabTheBanker => g.grabTheBanker env mtype
  | .waitBet => g.waitBet env mtype
  | .dealPoker => g.dealPokerState env mtype
  | .choicePokerType => g.choicePokerType env mtype
  | .waitShowResult => g.waitShowResult env mtype
  | .showResult => g.showResult env mtype

/-! ## Messages and timers -/

/-- Entering the table, also again from another address. -/
def enterTable (env : Env) (g : Game) (uid : Uid) (address : Address) : Game :=
  resumeGame env { g with
    players :=
      if uid ∈ g.players then g.players.modify uid fun p => { p with address := address }
      else g.players.set uid ⟨uid, address⟩ } uid

def sit (g : Game) (uid : Uid) : Game :=
  { g with
    sitnum := if uid ∈ g.seater then g.sitnum else g.sitnum + 1
    seater := g.seater.set uid ⟨uid, 0⟩ }

def pretreat (env : Env) (g : Game) (uid : Uid) (address : Address) : Msg → Game
  | .someOneEnter => g.enterTable env uid address
  | .someOneSit => g.sit uid
  | .tryStand => (g.playerTryStand uid).1.emit [.ret (.code (g.playerTryStand uid).2)]
  | .tryQuit => (g.playerTryQuit uid).1.emit [.ret (.code (g.playerTryQuit uid).2)]
  | _ => g

/-- The table as a dispatch finds it: nothing sent yet. -/
def begin (g : Game) : Game := { g with outbox := [], calls := [] }

/-- Dispatch of one message of the `game` protocol. -/
def dispatch (env : Env) (g : Game) (uid : Uid) (address : Address) (m : Msg) : Result :=
  (g.begin.pretreat env uid address m).command env (.msg uid m)

/-- `TimerCB`. -/
def timerCB (env : Env) (g : Game) (t : TimerId) : Result := g.begin.command env (.timer t)

/-- Timeout number `n` comes due; a timer removed since it was started does
nothing. -/
def fire (env : Env) (g : Game) (n : ℕ) : Result :=
  match g.timers.pending[n]? with
  | some p =>
    let g' := { g with timers := g.timers.pop n }
    if g.timers.isLive p then g'.timerCB env p.timerid else return g'.begin
  | none => return g.begin

/-- `NeedUpdateGameconf` for a table that exists. -/
def needUpdateGameconf (g : Game) (conf : GameConf) : Game :=
  let g := { g.begin with updateconf := some conf }
  if ¬ g.isGameStart then g.updateGameconf else g

end Game

end DnServer.Bullfight
