import DnServer.Lib.Handler
import DnServer.Bullfight.Poker
import DnServer.Bullfight.Timer

/-!
# The game service: data

The state of one table of `bfgame.lua`, the messages it receives and the
messages it sends. Money is rational; the order in which `pairs` visits a table
is the order of the `Table`.
-/

namespace DnServer.Bullfight

open DnServer.Lib

namespace Game

/-! ## Configuration -/

/-- The states of a table. -/
inductive CurState
  | waitPlayer | waitStartGame | grabTheBanker | waitBet | dealPoker | choicePokerType
  | waitShowResult | showResult
deriving DecidableEq, Repr

inductive TimerId
  | waitStart | grabBanker | bet | dealPoker | choicePoker | waitShowResult | showResult
  | checkLoster | showBrankerReson | waitBet
deriving DecidableEq, Repr

/-- A game's configuration. Configurations reach this service because their
game type is its own, and a room's base bet is positive. -/
structure GameConf where
  roomid : ℕ
  gametype : ℕ
  roomtype : ℕ
  basebet : ℕ
  ticket : ℚ
  bankerticket : ℚ
  waitstarttime : ℕ
  grabbankertime : ℕ
  bettime : ℕ
  waitbettime : ℕ
  dealpokertime : ℕ
  choicepokertime : ℕ
  waitshowresulttime : ℕ
  showresulttime : ℕ
  bullfight : gametype = types.GAME_TYPE_BULLFIGHT
  basebet_pos : 0 < basebet
deriving DecidableEq

/-! ## Players -/

structure Player where
  uid : Uid
  address : Address
deriving DecidableEq, Repr

structure Seater where
  uid : Uid
  timeouttimes : ℕ
deriving DecidableEq, Repr

/-- A player's record in the running round. -/
structure GamePlayer where
  uid : Uid
  cards : List Card
  choicecards : List Card
  pokertype : ℤ
  money : ℚ
  winmoney : ℚ
  totaladd : ℤ
  betmoney : ℚ
  grabbanker : ℤ
  havechoice : Bool
deriving DecidableEq

/-- A record at the start of a round. -/
def GamePlayer.new (uid : Uid) : GamePlayer where
  uid := uid
  cards := []
  choicecards := []
  pokertype := -1
  money := 0
  winmoney := 0
  totaladd := 0
  betmoney := 0
  grabbanker := 0
  havechoice := false

/-! ## Messages -/

/-- An entry of the result list. -/
structure BfResult where
  uid : Uid
  totaladd : ℤ
  winmoney : ℚ
  pokertype : ℤ
  cards : List Card
deriving DecidableEq

/-- An entry of the list a returning player is sent. -/
structure BfUsersState where
  uid : Uid
  state : CurState
  pokertype : ℤ
  cards : List Card
  grabsign : ℤ
  betmoney : ℚ
deriving DecidableEq

/-- Packets relayed to a player's client. -/
inductive Smsg
  | bfGameStart (num : ℕ) (uids : List Uid)
  | takeFee (uids : List Uid) (playerfee bankerfee : ℤ)
  | dealPoker (cards : List Card) (pokertype : ℤ)
  | notifyBet (bettime : ℕ)
  | grabBanker (grabbankertime grabresontype : ℕ)
  | choicePoker (n : ℕ)
  | bfSomeOneChoice (uid : Uid) (succ : Bool) (pokertype : ℤ) (cards : List Card)
  | someOneGrabBanker (uid : Uid) (grabbanker : ℤ)
  | notifyTheBanker (banker : Uid) (bankersourcetype : ℕ)
  | someOneBet (uid : Uid) (betmoney : ℚ) (errcode : ℤ)
  | bfShowResult (results : List BfResult)
  | gameOver
  | bfResumeGame (users : List BfUsersState) (lefttime : ℤ) (banker : Uid)
deriving DecidableEq

structure BackConf where
  money : ℤ
  gametype : ℕ
  roomtype : ℕ
  moneytype : ℕ
deriving DecidableEq, Repr

/-- Events sent to a player's agent. -/
inductive AgentEvent
  | updateGameconf (conf : GameConf)
  | addMoney (money : ℚ) (cardsid : Option String)
  | notifyLoserGetResult
  | getBankerMoney
  | playOneMatch (totaladd : ℤ) (choicecards : List Card) (pokertype : ℤ)
  | kickForGameOver (timeouted : Bool)
  | takeFee (fee : ℤ) (backconf : BackConf)
  | getMoney
deriving DecidableEq

/-- The record of a round for the log table. -/
structure TableLog where
  cardsid : Option String
  count : ℕ
  playersid : Option String
  time : Option ℕ
deriving DecidableEq, Repr

def TableLog.start : TableLog := ⟨none, 0, none, none⟩

/-- What `skynet.ret` packs. -/
inductive Reply
  | code (errcode : ℤ)
  | lose (money : ℚ) (cardsid : Option String)
deriving DecidableEq

/-- Everything the service sends. -/
inductive Out
  | relay (player : Player) (msg : Smsg)
  | send (player : Player) (event : AgentEvent)
  | ret (reply : Reply)
  | sqlTableLog (log : TableLog)
  | recordGameNum (roomtype : ℕ)
  | shutDown
deriving DecidableEq

/-- Messages of the `game` protocol, with what follows the message type. -/
inductive Msg
  | someOneEnter
  | someOneSit
  | tryStand
  | tryQuit
  | playerMoney (money : ℚ)
  | someOneGrab (sign : ℤ) (money : ℚ)
  | someOneBet (betmoney : ℚ)
  | bfPokerType (pokertype : ℤ) (cards : List Card)
  | loserGetResult (money : ℚ)
  | bankerMoney (money : ℚ)
deriving DecidableEq

/-- What a state's handler is called for: a timer, or a player's message. -/
inductive Mtype
  | timer (t : TimerId)
  | msg (uid : Uid) (m : Msg)
deriving DecidableEq

/-- The procedures that open, charge, settle and close a round. -/
inductive Proc
  | notifyBet | takeFee | getLastResult | resertGame
deriving DecidableEq, Repr

/-- Ways a handler ends in a Lua error. -/
inductive LuaError
  | nilIndex
  | nilArith
  | assertion
deriving DecidableEq, Repr

end Game

/-! ## The table -/

open Game in
/-- A table. `outbox` holds what the current dispatch has sent, and `calls`,
which the source does not keep, the procedures it has entered; both are empty
when a dispatch begins. -/
structure Game where
  id : ℕ
  seater : Table Uid Seater
  gameplayer : Table Uid GamePlayer
  forcequitplayer : Table Uid ℚ
  players : Table Uid Player
  sitnum : ℤ
  timers : Timers TimerId
  poker : List Card
  pos : ℕ
  curstate : CurState
  updateconf : Option GameConf
  gameconf : GameConf
  havegetresult : Bool
  needgrabbanker : Bool
  topupling : ℕ
  banker : Uid
  bankermoney : ℚ
  playcount : ℕ
  grabresontype : ℕ
  starttime : ℕ
  bankersourcetype : ℕ
  lastresult : List BfResult
  tablelog : TableLog
  outbox : List Out
  calls : List Proc

namespace Game

/-- What a dispatch reads from outside the table: the clock, the random draws,
the library sort, the order in which `pairs` visits `types.upling`, and the
service's own flags (`serverClose`; whether another table's game has started). -/
structure Env where
  now : ℕ
  rnd : ℕ → ℕ
  sort : KeySort Card
  upling : List ℕ
  upling_perm : upling.Perm types.upling
  serverClose : Bool
  otherGameStart : Bool

/-- A handler's result: an error carries the table as the handler left it. -/
abbrev Result := Except (LuaError × Game) Game

/-! ## Building blocks -/

def emit (g : Game) (outs : List Out) : Game := { g with outbox := g.outbox ++ outs }

def enter (g : Game) (p : Proc) : Game := { g with calls := g.calls ++ [p] }

def changeState (g : Game) (s : CurState) : Game := { g with curstate := s }

def addTimer (g : Game) (t : TimerId) (waittime : ℕ) : Game :=
  { g with timers := g.timers.start t (waittime * 100) }

def removeTimer (g : Game) : Option TimerId → Game
  | some t => { g with timers := g.timers.remove t }
  | none => { g with timers := g.timers.removeAll }

def initPoker (poker : List Card) : List Card :=
  Poker.disCard (Poker.disCard (Poker.initPoker poker) ⟨15, 5⟩) ⟨16, 5⟩

/-- `CreatGame` for a room that has none yet. -/
def creatGame (gameconf : GameConf) : Game where
  id := gameconf.roomid
  seater := .empty
  gameplayer := .empty
  forcequitplayer := .empty
  players := .empty
  sitnum := 0
  timers := .new
  poker := initPoker []
  pos := 1
  curstate := .waitPlayer
  updateconf := none
  gameconf := gameconf
  havegetresult := false
  needgrabbanker := true
  topupling := 1
  banker := 0
  bankermoney := 0
  playcount := 0
  grabresontype := 0
  starttime := 0
  bankersourcetype := 0
  lastresult := []
  tablelog := .start
  outbox := []
  calls := []

def sendTo (g : Game) (uid : Uid) (msg : Smsg) : Game :=
  match g.players.get? uid with
  | some player => g.emit [.relay player msg]
  | none => g

/-- The packets of a broadcast: one for each player at the table. -/
def broadcastOut (g : Game) (exceptid : Option Uid) (msg : Smsg) : List Out :=
  g.players.pairs.filterMap fun p =>
    if exceptid = some p.2.uid then none else some (.relay p.2 msg)

def broadcast (g : Game) (exceptid : Option Uid) (msg : Smsg) : Game :=
  g.emit (g.broadcastOut exceptid msg)

/-- `pcall(skynet.send, game.players[uid].address, "lua", event)`: a missing
player raises, for the address is looked up outside the protected call. -/
def sendAgent (g : Game) (uid : Uid) (event : AgentEvent) : Result := do
  let player ← Handler.index g .nilIndex (g.players.get? uid)
  return g.emit [.send player event]

def addMoney (g : Game) (uid : Uid) (money : ℚ) : Game :=
  match g.players.get? uid with
  | some player => g.emit [.send player (.addMoney money g.tablelog.cardsid)]
  | none => g

/-- Assign to fields of a player's record. -/
def setPlayer (g : Game) (uid : Uid) (f : GamePlayer → GamePlayer) : Game :=
  { g with gameplayer := g.gameplayer.modify uid f }

def updateGameconf (g : Game) : Game :=
  match g.updateconf with
  | some conf =>
    let g := { g with gameconf := conf, updateconf := none }
    g.emit (g.players.pairs.map fun p => .send p.2 (.updateGameconf conf))
  | none => g

def isGameStart (g : Game) : Bool :=
  g.curstate = .dealPoker ∨ g.curstate = .grabTheBanker ∨ g.curstate = .waitBet ∨
    g.curstate = .choicePokerType ∨ g.curstate = .waitShowResult

end Game

end DnServer.Bullfight
