import DnServer.Bullfight.Agent.State

/-!
# Rooms and seats

The handlers of the agent that enter and leave rooms, sit down and stand up, and end the
agent. Notes to the clients and the times for the scratch card are left out.
-/

namespace DnServer.Bullfight

open DnServer.Lib

namespace Agent

open RoomService (RoomConf EnterConf)

/-! ## Tasks -/

namespace task

abbrev protect : ℕ := 1100
abbrev friend_send : ℕ := 1101
abbrev redpacket : ℕ := 1102

/-- `task.count` of these tasks. -/
def count : ℕ → ℕ
  | 1100 => 2
  | 1101 => 4
  | _ => 20

/-- `task.reward_money` of the first two. -/
abbrev reward : ℚ := 1000

/-- `task.reward_money[task.id.redpacket][2]`. -/
abbrev redpacketTime : ℤ := 600

end task

/-! ## Small steps -/

def ChangeState (state : AgentState) : Handler Unit := Co.write fun s => { s with cur_state := state }

def setLock (b : Bool) : Handler Unit := Co.write fun s => { s with lock := b }

/-- A game has a service only if the room's configuration is there. -/
def State.gameServed (s : State) : Bool := s.roomconf.any fun conf => types.gameServer conf.gametype

/-- A question to the game; `nil` where there is none. -/
def askGame {β : Type} (ask : Handler (Option β)) : Handler (Option β) := do
  let s ← Co.read
  if s.gameServed then ask else pure none

/-- `BlockCall` with `CMSG_TRY_STAND`. -/
def blockTryStand : Handler (Option ℤ) := askGame (Co.hold Request.CMSG_TRY_STAND)

/-- `Call` with `CMSG_TRY_STAND`. -/
def callTryStand : Handler (Option ℤ) := askGame (Co.await Request.CMSG_TRY_STAND)

/-- `BlockCall` with `CMSG_TRY_QUIT`. -/
def blockTryQuit : Handler (Option ℤ) := askGame (Co.hold Request.CMSG_TRY_QUIT)

/-- `Call` to the room service. -/
def callRoom (c : RoomService.Command) : Handler RoomService.Reply := Co.await (Request.room c)

/-- `Call` with `SQL_COMPLETE_TASK`. -/
def callCompleteTask (taskid : ℕ) : Handler Bool := Co.await (Request.SQL_COMPLETE_TASK taskid)

/-- A `Call` whose answer is not used. -/
def callOther : Handler Unit := Co.await Request.other

/-- `os.time()`. -/
def osTime : Handler ℤ := Co.hold Request.time

/-- `Send` to the game. -/
def sendGame (m : Message) : Handler Unit := do
  let s ← Co.read
  if s.gameServed then Co.tell m else pure ()

/-- `CMSG_STAND` to the room service; without a room or a seat it names none. -/
def callStand : Handler Unit := do
  let s ← Co.read
  match s.uid, s.roomid, s.seatid with
  | some uid, some roomid, some seatid =>
    let _ ← callRoom (.stand uid roomid seatid)
    pure ()
  | _, _, _ => callOther

/-- `uplose[uid][roomid]` is there. -/
def ensureLose (uid : Option Uid) (roomid : Option RoomId) : Handler Unit := do
  let uid ← Co.need uid
  let roomid ← Co.need roomid
  Co.write fun s =>
    let mine := (s.uplose.get? uid).getD Table.empty
    { s with uplose := s.uplose.set uid (mine.set roomid ((mine.get? roomid).getD 0)) }

/-- `uplose[self.uid][self.roomid].lose`. -/
def State.lose (s : State) : ℚ :=
  (s.uid.bind fun uid => s.roomid.bind fun roomid => (s.uplose.get? uid).bind fun mine =>
    mine.get? roomid).getD 0

def CheckRedPacketTime : Handler Unit := Co.write fun s =>
  { s with
    redpackettime :=
      if s.redpacket ≥ task.count task.redpacket then task.redpacketTime
      else min s.redpackettime task.redpacketTime }

def RedPacketTask : Handler Unit := do
  CheckRedPacketTime
  let now ← osTime
  Co.write fun s => { s with redstarttime := now }

def DemandWindown : Handler Unit := do
  let _ ← callCompleteTask task.friend_send
  let s ← Co.read
  if s.protect ≥ task.count task.protect ∧ s.demand < task.count task.friend_send then
    Co.write fun s => { s with demand := s.demand + 1 }

/-- `BreakProtect`: whether the player got the money. -/
def BreakProtect : Handler Bool := do
  let s ← Co.read
  if s.money ≥ task.reward then pure false
  else
    let rich ← (match s.safebox with
      | none => pure false
      | some box => do
        let conf ← Co.need s.roomconf
        pure (decide (box.money + s.money > conf.minmoney)) : Handler Bool)
    if rich then pure false
    else
      let ret ← callCompleteTask task.protect
      let s ← Co.read
      if ret ∧ ¬s.lockmoney ∧ ¬s.taskmoneylock then
        AddMoney task.reward (.task task.protect)
        Co.write fun s => { s with protect := s.protect + 1 }
        pure true
      else pure false

/-! ## Leaving -/

def QuitSucc : Handler Unit := do
  let s ← Co.read
  match s.roomid with
  | none => pure ()
  | some roomid =>
    let uid ← Co.need s.uid
    let reply ← callRoom (.quit uid roomid)
    if reply.ret = 0 then
      ChangeState .login_succ
      let s ← Co.read
      let _ ← Co.need s.roomid
    Co.write fun s => { s with seatid := none, roomid := none, roomconf := none }

def StandSucc : Handler Unit := do
  let s ← Co.read
  if s.seatid.isSome then
    callStand
    ChangeState .at_room
    Co.write fun s => { s with seatid := none }

/-- `StandFailed`; a `nil` code cannot be written to the log. -/
def StandFailed (errcode : Option ℤ) : Handler Unit := do
  ChangeState .be_seated
  let _ ← Co.need errcode

/-- What an answer to `CMSG_TRY_STAND` leads to. -/
def standAnswered (ret : Option ℤ) : Handler Unit :=
  if ret = some 0 then StandSucc else StandFailed ret

def PlayerTryStand : Handler (Option ℤ) := do
  ChangeState .stand_up
  let ret ← blockTryStand
  standAnswered ret
  pure ret

def PlayerTryQuit : Handler (Option ℤ) := do
  let ret ← blockTryQuit
  if ret = some 0 then QuitSucc
  else
    let s ← Co.read
    ChangeState (if s.seatid.isSome then .be_seated else .at_room)
    let _ ← Co.need ret
  pure ret

/-- `TryQuit`; `nil` where it returns nothing. -/
def TryQuit : Handler (Option Bool) := do
  let s ← Co.read
  if s.lock then pure none
  else
    ChangeState .quit_room
    if s.roomid.isSome then
      let ret ← PlayerTryQuit
      setLock false
      pure (some (decide (ret = some 0)))
    else pure none

/-- The part of `Exit` in the room: whether the game lets the player go. -/
def exitRoom : Handler Bool := do
  let s ← Co.read
  if s.roomid.isSome then
    let ret ← blockTryQuit
    if ret = some 0 then
      QuitSucc
      pure true
    else
      Co.write fun s => { s with login := true }
      let _ ← (Co.await Request.EVENT_UNLOCK : Handler Bool)
      pure false
  else pure true

/-- The red packet's time is written back. -/
def exitRedpacket : Handler Unit := do
  let s ← Co.read
  if s.redstarttime ≠ 0 then
    let now ← osTime
    Co.write fun s => { s with redpackettime := s.redpackettime + now - s.redstarttime }
  Co.write fun s => { s with redpackettime := min s.redpackettime task.redpacketTime }

/-- The part of `Exit` for a player that is known: `ret` at its end. -/
def exitPlayer : Handler Bool := do
  let locked ← (Co.await Request.EVENT_LOCK : Handler Bool)
  if locked then
    Co.write fun s => { s with login := false }
    let ret ← exitRoom
    if ret then
      UpdateSafeBoxToDB
      exitRedpacket
      (Co.hold Request.EVENT_LOGIN_OUT : Handler Bool)
    else pure false
  else pure false

def Exit : Handler Unit := do
  let s ← Co.read
  if s.lock then pure ()
  else
    setLock true
    ChangeState .disconnect
    UpdateToDB
    let ret ← (if s.uid.isSome then exitPlayer else pure true : Handler Bool)
    let s ← Co.read
    if ret ∧ ¬s.login then Co.exit
    setLock false

def BeKicked : Handler Unit := do
  let s ← Co.read
  if s.kickid = 1 then
    if s.roomid.isSome then
      let _ ← TryQuit
    Co.write fun s => { s with connected := false }
    Exit

/-! ## Entering -/

def EnterResp (resp : ℤ) : Handler Unit := do
  if resp ≠ 0 ∧ resp ≠ -1 then ChangeState .login_succ
  else
    let s ← Co.read
    ChangeState (if s.seatid.isSome then .be_seated else .at_room)
    callOther
    sendGame .EVENT_SOME_ONE_ENTER
    let s ← Co.read
    let _ ← Co.need s.roomid

def SitResp (ret : ℤ) (seatid : Option ℤ) : Handler Unit := do
  if ret ≠ 0 then
    ChangeState .at_room
    let s ← Co.read
    if ret = errorcode.HAVE_NO_ENOUGH_MONEY ∧ s.roomconf.any fun conf => conf.roomtype = 1 then
      DemandWindown
  else
    ChangeState .be_seated
    Co.write fun s => { s with seatid := seatid }
    sendGame .EVENT_SOME_ONE_SIT
    let _ ← Co.need seatid

/-- The type of the rooms with this id. -/
def roomtypeOf (roomid : RoomId) : Option ℤ :=
  if (24 ≤ roomid ∧ roomid ≤ 73) ∨ (119 ≤ roomid ∧ roomid ≤ 128) ∨ (147 ≤ roomid ∧ roomid ≤ 156) ∨
      (157 ≤ roomid ∧ roomid ≤ 166) then some 1
  else if (1 ≤ roomid ∧ roomid ≤ 5) ∨ (74 ≤ roomid ∧ roomid ≤ 118) ∨
      (129 ≤ roomid ∧ roomid ≤ 138) then some 2
  else if (6 ≤ roomid ∧ roomid ≤ 13) ∨ (139 ≤ roomid ∧ roomid ≤ 146) ∨
      (167 ≤ roomid ∧ roomid ≤ 180) then some 3
  else none

/-- `EnterRoom` after the lock is taken. -/
def enterLocked (roomid : RoomId) : Handler Unit := do
  ChangeState .enter_room
  let s ← Co.read
  let roomid := s.roomid.getD roomid
  ensureLose s.uid (some roomid)
  Co.write fun s => { s with roomtype_li := (roomtypeOf roomid).or s.roomtype_li }
  let s ← Co.read
  let uid ← Co.need s.uid
  let reply ← callRoom
    (.enter s.address uid roomid s.info s.uplose s.sumlose s.roomtype_li)
  if reply.ret = 0 ∨ reply.ret = -1 then
    Co.write fun s => { s with roomid := some roomid, roomconf := reply.roomconf }
  EnterResp reply.ret

def EnterRoom (roomid : RoomId) : Handler Unit := do
  let s ← Co.read
  if s.lock then pure ()
  else
    setLock true
    enterLocked roomid
    setLock false

/-- The seat is given back right after a fast enter. -/
def standAtOnce : Handler Unit := do
  callStand
  Co.write fun s => { s with seatid := none }

/-- `FastEnter` after the room service has given a seat. -/
def fastEntered (enterconf : EnterConf) (reply : RoomService.Reply) : Handler Unit := do
  ChangeState .sit_down
  let poor ← (if reply.isprotect = some true then (do
      let given ← BreakProtect
      pure !given)
    else pure false : Handler Bool)
  let s ← Co.read
  if poor then
    if s.roomid.isSome ∧ s.seatid.isSome then
      standAtOnce
      let s ← Co.read
      if s.roomconf.any fun conf => conf.roomtype = 1 then DemandWindown
      ChangeState .at_room
  else if enterconf.roomtype ≠ some 1 ∧ reply.in_nosit = some true then
    if s.roomid.isSome ∧ s.seatid.isSome then
      standAtOnce
      ChangeState .at_room
  else
    let conf ← Co.need s.roomconf
    if s.money > conf.maxmoney then
      standAtOnce
      ChangeState .at_room
    else if s.seatid.isSome then SitResp reply.ret s.seatid

/-- `FastEnter` after the lock is taken. -/
def fastLocked (enterconf : EnterConf) : Handler Unit := do
  ChangeState .enter_room
  let enterconf := { enterconf with protectmoney := some task.reward }
  let s ← Co.read
  let reply ← callRoom (.fastEnter s.address enterconf s.uplose s.sumlose)
  if reply.ret = 0 then
    let rconf ← Co.need reply.roomconf
    Co.write fun s =>
      { s with roomid := some rconf.roomid, roomconf := some rconf, seatid := reply.seatid }
  EnterResp reply.ret
  if reply.ret = 0 then fastEntered enterconf reply

def FastEnter (enterconf : EnterConf) : Handler Unit := do
  let s ← Co.read
  if s.lock then pure ()
  else
    setLock true
    fastLocked enterconf
    setLock false

/-- `PlayerFastEnter`. -/
def PlayerFastEnter (roomtype gametype : Option ℤ) : Handler Unit := do
  let s ← Co.read
  let uid ← Co.need s.uid
  FastEnter
    { roomtype := roomtype, gametype := gametype, uid := uid, basebet := none, money := s.money,
      protectmoney := none, roomid := none, info := s.info, IP := s.IP }

/-- `Sit` after the lock is taken: `ret` and `seatid` before `SitResp`. -/
def trySit (seatid : ℤ) : Handler (ℤ × Option ℤ) := do
  let s ← Co.read
  let conf ← Co.need s.roomconf
  if s.money < conf.minmoney ∧ conf.roomtype = 1 ∧ s.protect < task.count task.protect then
    let _ ← BreakProtect
  let s ← Co.read
  ensureLose s.uid s.roomid
  let s ← Co.read
  let conf ← Co.need s.roomconf
  if s.money < conf.minmoney then pure (errorcode.HAVE_NO_ENOUGH_MONEY, some seatid)
  else if s.lose < serverconf.uplosemoneySum then pure (errorcode.OVER_SUMLOSE_LIMIT, some seatid)
  else
    let limit ← Co.need (serverconf.uplosemoney conf.roomtype)
    if s.lose < limit then pure (errorcode.OVER_LOSE_LIMIT, some seatid)
    else
      let uid ← Co.need s.uid
      let roomid ← Co.need s.roomid
      let reply ← callRoom (.sit uid roomid seatid s.IP)
      pure (reply.ret, reply.seatid)

def Sit (seatid : ℤ) : Handler Unit := do
  let s ← Co.read
  if s.lock then pure ()
  else
    setLock true
    ChangeState .sit_down
    let (ret, seatid) ← trySit seatid
    SitResp ret seatid
    setLock false

/-! ## Standing up -/

def TryStand : Handler Unit := do
  let s ← Co.read
  if s.lock then pure ()
  else
    setLock true
    if s.roomid.isSome ∧ s.seatid.isSome then
      let _ ← PlayerTryStand
      setLock false

def ChangeRoom : Handler Unit := do
  let s ← Co.read
  if s.lock then pure ()
  else
    if s.roomid.isSome then
      let conf ← Co.need s.roomconf
      let uid ← Co.need s.uid
      let enterconf : EnterConf :=
        { roomtype := some conf.roomtype, gametype := some conf.gametype, uid := uid,
          basebet := some conf.basebet, money := s.money, protectmoney := none, roomid := s.roomid,
          info := s.info, IP := s.IP }
      if s.money < conf.minmoney ∧ conf.roomtype = 1 then
        ChangeState .at_room
        DemandWindown
      else
        let gone ← TryQuit
        if gone = some true then FastEnter enterconf
    setLock false

/-- `Kick`. Its `kickid` is a local name for the message's; `BeKicked` reads the
module's. -/
def Kick : Handler Unit := do
  let s ← Co.read
  if s.lock then pure ()
  else
    setLock true
    if s.seatid.isSome then
      setLock true
      let ret ← callTryStand
      setLock false
      if ret = some 0 then BeKicked
    else BeKicked

/-- The player is made to stand up at the end of a round. -/
def kickUp : Handler Unit := do
  setLock true
  let ret ← callTryStand
  standAnswered ret
  setLock false

/-- `KickForGameOver` for a player without enough money. -/
def kickPoor : Handler Unit := do
  let s ← Co.read
  let conf ← Co.need s.roomconf
  if conf.roomtype = 1 ∧ s.protect < task.count task.protect then
    let _ ← BreakProtect
  let s ← Co.read
  if s.seatid.isSome then
    let conf ← Co.need s.roomconf
    if s.money < conf.minmoney then
      if conf.roomtype = 1 then
        DemandWindown
        RedPacketTask
      let s ← Co.read
      if s.seatid.isSome then kickUp

/-- `KickForGameOver` for a seated player. -/
def kickSeated (bekicked : Bool) : Handler Unit := do
  let s ← Co.read
  let conf ← Co.need s.roomconf
  let limit ← Co.need (serverconf.uplosemoney conf.roomtype)
  if s.lose ≤ limit ∨ s.sumlose ≤ serverconf.uplosemoneySum then kickUp
  else if bekicked then kickUp
  else if s.money < conf.minmoney then kickPoor
  else if s.money > conf.maxmoney then kickUp

def KickForGameOver (bekicked : Bool) : Handler Unit := do
  let s ← Co.read
  if s.lock then pure ()
  else
    ensureLose s.uid s.roomid
    if s.connected then
      if s.seatid.isSome then kickSeated bekicked
    else Exit
    BeKicked

/-! ## Ending -/

def LoginOut : Handler Unit := do
  Co.write fun s => { s with connected := false }
  Exit

def ShutDown : Handler Unit := do
  let s ← Co.read
  if s.lock then pure ()
  else
    if s.roomid.isSome then
      setLock true
      let ret ← blockTryQuit
      setLock false
      if ret.isSome then
        Co.write fun s => { s with connected := false }
        Exit
    else
      Co.write fun s => { s with connected := false }
      Exit

/-! ## Money for a friend -/

/-- `SendMoney`. -/
def SendMoney (touid : Uid) (money : ℚ) : Handler Unit := do
  Co.tell (.SQL_SEND_MONEY touid money)
  callOther

/-- `Reply1`. -/
def Reply1 (num : ℤ) (tuid : Uid) : Handler Unit := do
  let s ← Co.read
  if s.lock then pure ()
  else
    setLock true
    if num = 1 ∧ ¬s.lockmoney then
      if s.money ≥ 3000 then
        LoseMoney task.reward (.task task.friend_send)
        SendMoney tuid task.reward
    setLock false

end Agent

end DnServer.Bullfight
