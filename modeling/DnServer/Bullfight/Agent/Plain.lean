import DnServer.Lib.Within
import DnServer.Bullfight.Agent.Lock

/-!
# Handlers that leave money and kick id alone

Most of what the agent's handlers are written with writes neither `money`, `upmoney` nor the
`kickid` of the module, sends the database no money and asks the game for no loser's result. It
is shown once here; the ledgers of the agent take it over, each under its own rules.
-/

namespace DnServer.Bullfight

open DnServer.Lib

namespace Agent

/-- What the agent has sent off. -/
def Message.flushed : Message → ℚ
  | .SQL_UPDATE_PLAYERCONF upmoney => upmoney
  | _ => 0

/-- Any question but the one for a loser's result. -/
def Request.Plain : Request → Prop
  | .EVENT_LOSER_GET_RESULT _ => False
  | _ => True

/-- Neither money nor the kick id changes, no money is sent, no loser's result asked for. -/
def plain : Co.Rules State Message Request where
  write s t := t.money = s.money ∧ t.upmoney = s.upmoney ∧ t.kickid = s.kickid
  send m := m.flushed = 0
  ask := Request.Plain

/-- The handler keeps to that. -/
abbrev Plainly {α : Type} (c : Handler α) (s : State) : Prop := c.Within plain (fun _ _ => True) s

section Plain

variable {s : State}

@[simp] theorem plain_write {s t : State} : plain.write s t ↔
    t.money = s.money ∧ t.upmoney = s.upmoney ∧ t.kickid = s.kickid := Iff.rfl

@[simp] theorem plain_send (m : Message) : plain.send m ↔ m.flushed = 0 := Iff.rfl

@[simp] theorem plain_ask (i : Request) : plain.ask i ↔ i.Plain := Iff.rfl

@[simp] theorem plain_room (c : RoomService.Command) : (Request.room c).Plain := trivial
@[simp] theorem plain_CMSG_TRY_STAND : Request.CMSG_TRY_STAND.Plain := trivial
@[simp] theorem plain_CMSG_TRY_QUIT : Request.CMSG_TRY_QUIT.Plain := trivial
@[simp] theorem plain_EVENT_LOCK : Request.EVENT_LOCK.Plain := trivial
@[simp] theorem plain_EVENT_UNLOCK : Request.EVENT_UNLOCK.Plain := trivial
@[simp] theorem plain_EVENT_LOGIN_OUT : Request.EVENT_LOGIN_OUT.Plain := trivial
@[simp] theorem plain_SQL_COMPLETE_TASK (taskid : ℕ) :
    (Request.SQL_COMPLETE_TASK taskid).Plain := trivial
@[simp] theorem plain_SQL_COMPLETE_TASK_sign (taskid : ℕ) :
    (Request.SQL_COMPLETE_TASK_sign taskid).Plain := trivial
@[simp] theorem plain_SQL_TASK_NEW_PLAYER : Request.SQL_TASK_NEW_PLAYER.Plain := trivial
@[simp] theorem plain_time : Request.time.Plain := trivial
@[simp] theorem plain_random (m n : ℤ) : (Request.random m n).Plain := trivial
@[simp] theorem plain_other : Request.other.Plain := trivial

@[simp] theorem flushed_EVENT_SOME_ONE_ENTER : Message.EVENT_SOME_ONE_ENTER.flushed = 0 := rfl
@[simp] theorem flushed_EVENT_SOME_ONE_SIT : Message.EVENT_SOME_ONE_SIT.flushed = 0 := rfl
@[simp] theorem flushed_SQL_SEND_MONEY (uid : Uid) (upmoney : ℚ) :
    (Message.SQL_SEND_MONEY uid upmoney).flushed = 0 := rfl
@[simp] theorem flushed_SQL_UPDATE_SAFE_BOX (money upmoney : ℚ) :
    (Message.SQL_UPDATE_SAFE_BOX money upmoney).flushed = 0 := rfl

@[simp] theorem plainly_ChangeState (state : AgentState) : Plainly (ChangeState state) s := by
  simp [ChangeState]

@[simp] theorem plainly_setLock (b : Bool) : Plainly (setLock b) s := by simp [setLock]

@[simp] theorem plainly_blockTryStand : Plainly blockTryStand s := by simp [blockTryStand, askGame]

@[simp] theorem plainly_callTryStand : Plainly callTryStand s := by simp [callTryStand, askGame]

@[simp] theorem plainly_blockTryQuit : Plainly blockTryQuit s := by simp [blockTryQuit, askGame]

@[simp] theorem plainly_callRoom (c : RoomService.Command) : Plainly (callRoom c) s := by
  simp [callRoom]

@[simp] theorem plainly_callCompleteTask (taskid : ℕ) : Plainly (callCompleteTask taskid) s := by
  simp [callCompleteTask]

@[simp] theorem plainly_callOther : Plainly callOther s := by simp [callOther]

@[simp] theorem plainly_osTime : Plainly osTime s := by simp [osTime]

@[simp] theorem plainly_sendEnter : Plainly (sendGame .EVENT_SOME_ONE_ENTER) s := by
  simp [sendGame]

@[simp] theorem plainly_sendSit : Plainly (sendGame .EVENT_SOME_ONE_SIT) s := by simp [sendGame]

@[simp] theorem plainly_callStand : Plainly callStand s := by
  simp only [callStand, Co.within_bind, Co.within_read]
  split <;> simp

@[simp] theorem plainly_ensureLose (uid : Option Uid) (roomid : Option RoomId) :
    Plainly (ensureLose uid roomid) s := by simp [ensureLose]

@[simp] theorem plainly_countLose (money : ℚ) (id : MoneyId) : Plainly (countLose money id) s := by
  simp [countLose, State.noteLose]

@[simp] theorem plainly_DemandWindown : Plainly DemandWindown s := by simp [DemandWindown]

@[simp] theorem plainly_CheckRedPacketTime : Plainly CheckRedPacketTime s := by
  simp [CheckRedPacketTime]

@[simp] theorem plainly_RedPacketTask : Plainly RedPacketTask s := by simp [RedPacketTask]

@[simp] theorem plainly_QuitSucc : Plainly QuitSucc s := by
  simp only [QuitSucc, Co.within_bind, Co.within_read]
  split <;> simp

@[simp] theorem plainly_StandSucc : Plainly StandSucc s := by simp [StandSucc]

@[simp] theorem plainly_standAnswered (ret : Option ℤ) : Plainly (standAnswered ret) s := by
  simp [standAnswered, StandFailed]

@[simp] theorem plainly_PlayerTryStand : Plainly PlayerTryStand s := by simp [PlayerTryStand]

@[simp] theorem plainly_PlayerTryQuit : Plainly PlayerTryQuit s := by simp [PlayerTryQuit]

@[simp] theorem plainly_TryQuit : Plainly TryQuit s := by simp [TryQuit]

@[simp] theorem plainly_TryStand : Plainly TryStand s := by simp [TryStand]

@[simp] theorem plainly_UpdateSafeBoxToDB : Plainly UpdateSafeBoxToDB s := by
  simp only [UpdateSafeBoxToDB, Co.within_bind, Co.within_read]
  split <;> simp

@[simp] theorem plainly_exitRoom : Plainly exitRoom s := by simp [exitRoom]

@[simp] theorem plainly_exitRedpacket : Plainly exitRedpacket s := by simp [exitRedpacket]

@[simp] theorem plainly_exitPlayer : Plainly exitPlayer s := by simp [exitPlayer]

@[simp] theorem plainly_EnterResp (resp : ℤ) : Plainly (EnterResp resp) s := by simp [EnterResp]

@[simp] theorem plainly_SitResp (ret : ℤ) (seatid : Option ℤ) : Plainly (SitResp ret seatid) s := by
  simp [SitResp]

@[simp] theorem plainly_EnterRoom (roomid : RoomId) : Plainly (EnterRoom roomid) s := by
  simp [EnterRoom, enterLocked]

end Plain

end Agent

end DnServer.Bullfight
