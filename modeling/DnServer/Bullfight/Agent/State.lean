import DnServer.Lib.Coroutine
import DnServer.Lib.Table
import DnServer.Bullfight.Room.State

/-!
# The agent

A player's own service (`agent.lua`). Every message starts a handler; a handler waits
in `skynet.call` while the others go on, and holds the service up in
`skynet.blockcall`.
-/

namespace DnServer.Bullfight

open DnServer.Lib

namespace Agent

open RoomService (Uplose RoomConf)

/-- `cur_state`. -/
inductive AgentState
  | connected | login_in | login_succ | enter_room | at_room | sit_down | be_seated | stand_up
  | quit_room | login_out | disconnect
deriving DecidableEq

structure SafeBox where
  money : ℚ
  upmoney : ℚ
  login : Bool
deriving DecidableEq

structure Tool where
  kind : ℕ
  endtime : ℤ
  vip : ℕ
deriving DecidableEq

structure State where
  address : Address
  sessionid : ℕ
  uid : Option Uid
  login : Bool
  connected : Bool
  cur_state : AgentState
  lock : Bool
  lockmoney : Bool
  taskmoneylock : Bool
  money : ℚ
  upmoney : ℚ
  /-- Whether another delta than `upmoney` is set. -/
  updeltas : Bool
  dateflag : Bool
  roomid : Option RoomId
  seatid : Option ℤ
  /-- `none` where the table is empty. -/
  roomconf : Option RoomConf
  uplose : Uplose
  sumlose : ℚ
  /-- How often each of these tasks has been done today. -/
  protect : ℕ
  demand : ℕ
  redpacket : ℕ
  redpackettime : ℤ
  redstarttime : ℤ
  safebox : Option SafeBox
  vip : ℕ
  viptime : ℤ
  /-- `tools`, in the order of `pairs`. -/
  tools : List Tool
  kickid : ℕ
  info : String
  IP : Option String
  roomtype_li : Option ℤ
deriving DecidableEq

/-- An agent before the login. -/
def State.start (address : Address) (sessionid : ℕ) : State where
  address := address
  sessionid := sessionid
  uid := none
  login := false
  connected := true
  cur_state := .connected
  lock := false
  lockmoney := false
  taskmoneylock := false
  money := 0
  upmoney := 0
  updeltas := false
  dateflag := false
  roomid := none
  seatid := none
  roomconf := none
  uplose := Table.empty
  sumlose := 0
  protect := 0
  demand := 0
  redpacket := 0
  redpackettime := 0
  redstarttime := 0
  safebox := none
  vip := 0
  viptime := 0
  tools := []
  kickid := 0
  info := ""
  IP := none
  roomtype_li := none

/-- What an agent sends to the database and to the game. -/
inductive Message
  | SQL_UPDATE_PLAYERCONF (upmoney : ℚ)
  | SQL_UPDATE_SAFE_BOX (money upmoney : ℚ)
  | SQL_SEND_MONEY (uid : Uid) (upmoney : ℚ)
  | EVENT_SOME_ONE_ENTER
  | EVENT_SOME_ONE_SIT
deriving DecidableEq

/-- What an agent asks other services. -/
inductive Request
  | room (c : RoomService.Command)
  /-- `CMSG_TRY_STAND` and `CMSG_TRY_QUIT` to the game. -/
  | CMSG_TRY_STAND
  | CMSG_TRY_QUIT
  | EVENT_LOSER_GET_RESULT (money : ℚ)
  | EVENT_LOCK
  | EVENT_UNLOCK
  | EVENT_LOGIN_OUT
  | SQL_COMPLETE_TASK (taskid : ℕ)
  /-- The same, where the `sign` of the answer is used. -/
  | SQL_COMPLETE_TASK_sign (taskid : ℕ)
  | SQL_TASK_NEW_PLAYER
  /-- `os.time()`. -/
  | time
  /-- `math.random(m, n)`. -/
  | random (m n : ℤ)
  /-- A question whose answer the rest of the handler does not use. -/
  | other
deriving DecidableEq

/-- What it is answered; `nil` is `none`. -/
abbrev Request.answer : Request → Type
  | .room _ => RoomService.Reply
  | .CMSG_TRY_STAND => Option ℤ
  | .CMSG_TRY_QUIT => Option ℤ
  | .EVENT_LOSER_GET_RESULT _ => ℚ
  | .EVENT_LOCK => Bool
  | .EVENT_UNLOCK => Bool
  | .EVENT_LOGIN_OUT => Bool
  | .SQL_COMPLETE_TASK _ => Bool
  | .SQL_COMPLETE_TASK_sign _ => Bool × ℕ
  | .SQL_TASK_NEW_PLAYER => Bool
  | .time => ℤ
  | .random m n => { x : ℤ // m ≤ x ∧ x ≤ n }
  | .other => Unit

/-- A handler of the agent. -/
abbrev Handler (α : Type) := Co State Message Request Request.answer α

/-! ## Money -/

def minmoney_fastenter : ℚ := 600

/-- `money_log` ids the agent's handlers name. -/
inductive MoneyId
  | table_win | ticket | escape | safe_box | face | new_player
  | task (id : ℕ)
deriving DecidableEq

/-- Whether money with this id counts for the day's loss. -/
def MoneyId.counts (id : MoneyId) : Bool := id == .table_win || id == .ticket

/-- `uplose[uid][roomid].lose` with the entries made where they are missing. -/
def State.noteLose (s : State) (uid : Uid) (roomid : RoomId) (money : ℚ) : State :=
  let mine := (s.uplose.get? uid).getD Table.empty
  let lose := (mine.get? roomid).getD 0
  { s with
    uplose := s.uplose.set uid (mine.set roomid (lose + money))
    sumlose := s.sumlose + money }

/-- The part of `LoseMoney` and `AddMoney` about the day's loss. -/
def countLose (money : ℚ) (id : MoneyId) : Handler Unit := do
  if id.counts then
    let s ← Co.read
    let uid ← Co.need s.uid
    let roomid ← Co.need s.roomid
    Co.write fun s => s.noteLose uid roomid money

/-- Who has enough money gets no red packet. -/
def State.restRedpacket (s : State) : State :=
  if s.money > minmoney_fastenter then { s with redpackettime := 0, redstarttime := 0 } else s

@[simp] theorem restRedpacket_money (s : State) : s.restRedpacket.money = s.money := by
  unfold State.restRedpacket
  split <;> rfl

def LoseMoney (losemoney : ℚ) (loseid : MoneyId) : Handler Unit := do
  countLose (-losemoney) loseid
  let s ← Co.read
  if losemoney > s.money then pure ()
  else
    Co.write fun s =>
      State.restRedpacket { s with money := s.money - losemoney, upmoney := s.upmoney - losemoney }

def AddMoney (money : ℚ) (addid : MoneyId) : Handler Unit := do
  countLose money addid
  Co.write fun s => State.restRedpacket { s with money := s.money + money, upmoney := s.upmoney + money }

/-! ## Writing back -/

def UpdateToDB : Handler Unit := do
  let s ← Co.read
  if s.login ∧ (s.upmoney ≠ 0 ∨ s.updeltas ∨ s.dateflag) then
    Co.tell (.SQL_UPDATE_PLAYERCONF s.upmoney)
    Co.write fun s => { s with upmoney := 0, updeltas := false }

def UpdateSafeBoxToDB : Handler Unit := do
  let s ← Co.read
  match s.safebox with
  | none => pure ()
  | some box =>
    Co.tell (.SQL_UPDATE_SAFE_BOX box.money box.upmoney)
    Co.write fun s => { s with safebox := some { box with upmoney := 0 } }

end Agent

end DnServer.Bullfight
