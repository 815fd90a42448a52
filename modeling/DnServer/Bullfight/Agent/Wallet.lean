import DnServer.Bullfight.Agent.Lock
import DnServer.Bullfight.Agent.RedPacket
import DnServer.Bullfight.Agent.SafeBox

/-!
# What changes a player's money

The handlers of the agent that write `money`, those of the rooms, the safe box and the red
packets apart. What the agent keeps for its tasks and for the day's games decides only
which of them pay; it comes with the message. Cow dung and the points are left out.
-/

namespace DnServer.Bullfight

open DnServer.Lib

namespace Agent

/-! ## Rewards -/

namespace task

abbrev learn_course : ℕ := 1026
abbrev day_login : ℕ := 1027
abbrev qq_vip : ℕ := 1028
abbrev qq_year_vip : ℕ := 1029
abbrev qq_vip_course : ℕ := 1033
abbrev scratch : ℕ := 1402

/-- `task.reward_money[task.id.day_login]`. -/
def dayLoginRewards : List ℚ :=
  [1000, 1500, 2000, 2500, 3000, 3500, 4000, 2500, 800, 1000, 1200, 1500, 1800, 2000, 2500, 1500]

/-- `task.reward_money[task.id.qq_vip]`. -/
def qqVipRewards : List ℚ := [100, 200, 250, 300, 350, 400, 450, 500]

/-- Entry `signid` of a list of rewards, 0 where there is none. -/
def rewardAt (rewards : List ℚ) (signid : ℕ) : ℚ :=
  if signid = 0 then 0 else (rewards[signid - 1]?).getD 0

/-- The money of `taskconf.GetReward` for the tasks the agent pays with it. -/
def GetReward (taskid signid : ℕ) : ℚ :=
  if taskid = learn_course then 500
  else if taskid = day_login then rewardAt dayLoginRewards signid
  else if taskid = qq_vip then rewardAt qqVipRewards signid
  else if taskid = qq_year_vip then 200
  else if taskid = qq_vip_course then 500
  else 0

/-- `task.reward_money[id][1]` of the tasks for a day's games, from 1201 on. -/
def dayPlayRewards : List ℚ := [400, 500, 700, 400, 500, 700, 800, 800, 800, 1200, 1200, 1500]

/-- `task.reward_money[id][4]`. -/
def dayPlayTalker : List ℚ := [100, 300, 500, 200, 400, 600, 500, 500, 500, 1000, 1000, 1000]

end task

/-- The money of the player's cards on the first login of a day, in the order of `pairs`. -/
def payCards : List (ℕ × ℚ) → Handler Unit
  | [] => pure ()
  | (typeid, dmoney) :: rest => do
    AddMoney dmoney (.task typeid)
    payCards rest

/-- `LoginSucc`, after `GetSelfGameConf` has taken the player's row. -/
def LoginSucc (cards : List (ℕ × ℚ)) : Handler Unit := do
  callOther
  payCards cards
  Co.write fun s => { s with login := true }

/-- `AddDtmoney`, as far as it makes `UpdateToDB` send. -/
def AddDtmoney : Handler Unit := Co.write fun s => { s with updeltas := true }

/-- `DayPlayTask` of the task `1201 + i`. -/
def DayPlayTask (i : ℕ) (talker : Bool) : Handler Unit := do
  let ret ← callCompleteTask (1201 + i)
  let s ← Co.read
  if ret ∧ ¬s.lockmoney then
    Co.write fun s => { s with taskmoneylock := true }
    AddDtmoney
    AddMoney (((if talker then task.dayPlayTalker else task.dayPlayRewards)[i]?).getD 0)
      (.task (1201 + i))
    Co.write fun s => { s with taskmoneylock := false }

/-- `DayHonorTask`. -/
def DayHonorTask (taskid : ℕ) : Handler Unit := do
  let ret ← callCompleteTask taskid
  let s ← Co.read
  if ret ∧ ¬s.lockmoney then AddDtmoney

/-- `PlayOneMatch`: `dayplay` and `honor` are the tasks that have come to their number. -/
def PlayOneMatch (dayplay honor : Option ℕ) (talker : Bool) : Handler Unit := do
  callOther
  Co.write fun s => { s with updeltas := true }
  match dayplay with
  | some i => DayPlayTask i talker
  | none => pure ()
  match honor with
  | some taskid => DayHonorTask taskid
  | none => pure ()
  UpdateToDB

/-- The coins of a scratch card. -/
def scratchMoney (talker : Bool) (sign : ℕ) : Handler ℚ :=
  let draw (m n : ℤ) : Handler ℚ := do
    let x ← (Co.hold (Request.random m n) : Handler { x : ℤ // m ≤ x ∧ x ≤ n })
    pure x.1
  match talker, sign with
  | true, 1 => draw 200 400
  | true, 2 => draw 100 200
  | true, 3 => draw 400 600
  | true, 5 => draw 600 900
  | false, 1 => draw 400 500
  | false, 2 => draw 200 300
  | false, 3 => draw 600 800
  | false, 5 => draw 1000 1200
  | _, _ => pure 0

def GetScratchReward (talker : Bool) : Handler Unit := do
  let answer ← (Co.await (Request.SQL_COMPLETE_TASK_sign task.scratch) : Handler (Bool × ℕ))
  let s ← Co.read
  if answer.1 ∧ ¬s.lockmoney then
    let money ← scratchMoney talker answer.2
    if answer.2 = 4 ∨ answer.2 = 6 then AddDtmoney else AddMoney money (.task task.scratch)

/-- `Scratch`: `due` says whether the player has played long enough. -/
def Scratch (due talker : Bool) : Handler Unit := do
  let _ ← osTime
  if due then GetScratchReward talker

def TaskNewPlayer : Handler Unit := do
  let result ← (Co.await Request.SQL_TASK_NEW_PLAYER : Handler Bool)
  if result then AddMoney (task.GetReward task.learn_course 0) (.task task.learn_course)

/-- Whether `GetTaskReward` asks for the task. -/
def TaskOpen (taskid qq_vip : ℕ) : Prop :=
  taskid = task.qq_vip ∧ qq_vip ≠ 0 ∨ taskid = task.qq_vip_course ∧ qq_vip ≠ 0 ∨
    taskid = task.qq_year_vip ∧ qq_vip > 10 ∨ taskid = task.learn_course ∨ taskid = task.day_login

instance (taskid qq_vip : ℕ) : Decidable (TaskOpen taskid qq_vip) :=
  inferInstanceAs (Decidable (_ ∨ _))

/-- `GetTaskReward`; `qq_vip` and `loginnum` are those of the login. -/
def GetTaskReward (taskid qq_vip loginnum : ℕ) : Handler Unit := do
  if TaskOpen taskid qq_vip then
    let answer ← (Co.await (Request.SQL_COMPLETE_TASK_sign taskid) : Handler (Bool × ℕ))
    let sign :=
      if taskid = task.qq_vip ∨ taskid = task.qq_year_vip then qq_vip % 10
      else if taskid = task.day_login then loginnum
      else answer.2
    if answer.1 then
      let money := task.GetReward taskid sign
      if money ≠ 0 then AddMoney money (.task taskid)

/-! ## Faces -/

/-- `serverconf.face_cost`. -/
abbrev face_cost : ℚ := 1 / 50

/-- `GetFaceCost`; `free` says whether the player's card for free faces is still good. -/
def GetFaceCost (free : Bool) : Handler ℚ := do
  let now ← osTime
  Co.write (GetSelfVip now)
  let s ← Co.read
  if s.vip ≠ 0 ∨ free then pure 0
  else
    match s.roomconf with
    | none => pure 0
    | some conf => pure ⌊conf.basebet * face_cost⌋

def SendFace (free : Bool) : Handler Unit := do
  let s ← Co.read
  if s.seatid.isSome ∧ ¬s.lockmoney then
    let cost ← GetFaceCost free
    if cost ≠ 0 then
      let s ← Co.read
      let conf ← Co.need s.roomconf
      if ¬s.lockmoney ∧ cost < s.money - conf.minmoney then LoseMoney cost .face

/-! ## The game -/

def EventAddMoney (money : ℚ) : Handler Unit := AddMoney money .table_win

def TakeFee (money : ℚ) : Handler Unit := LoseMoney money .ticket

/-- `LoserGetResult`; without a game there is no result to lose, after the day's loss has its
entries. -/
def LoserGetResult : Handler Unit := do
  Co.write fun s => { s with lockmoney := true }
  let s ← Co.read
  let losemoney ← askGame (do
    let losemoney ← (Co.await (Request.EVENT_LOSER_GET_RESULT s.money) : Handler ℚ)
    pure (some losemoney))
  match losemoney with
  | none =>
    let s ← Co.read
    ensureLose s.uid s.roomid
    Co.raise
  | some losemoney =>
    LoseMoney losemoney .table_win
    Co.write fun s => { s with lockmoney := false }

/-! ## Administrators, friends and the shop -/

def AdminAddMoney (addid : MoneyId) (money : ℚ) : Handler Unit := do
  if money ≥ 0 then AddMoney money addid
  else
    let s ← Co.read
    if ¬s.lockmoney then
      if s.money ≥ -money then AddMoney money addid

/-- No lock keeps `GetSelfDataAgain` out. -/
def State.open (s : State) : Prop :=
  s.lockmoney = false ∧ s.lock = false ∧ s.taskmoneylock = false

instance (s : State) : Decidable s.open := inferInstanceAs (Decidable (_ ∧ _))

def GetSelfDataAgain : Handler Unit := do
  let s ← Co.read
  if s.open then
    Co.write fun s => State.restRedpacket { s with money := s.money + task.reward }

/-- `InitSelfTools(false)`, with the tools the database and the shop have for the player. -/
def InitSelfTools (tools : List Tool) : Handler Unit := do
  callOther
  Co.write fun s => { s with vip := 0, viptime := 0 }
  callOther
  let now ← osTime
  Co.write fun s => tools.foldl (State.vipOf now) { s with tools := tools }

/-- `GetShopResult`. -/
def GetShopResult (money : ℚ) (todb : Bool) (tools : List Tool) : Handler Unit := do
  if money ≠ 0 then
    Co.write fun s => State.restRedpacket { s with money := s.money + money }
  if todb then InitSelfTools tools

end Agent

end DnServer.Bullfight
