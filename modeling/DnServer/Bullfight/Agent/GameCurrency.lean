import DnServer.Lib.WriteBehind
import DnServer.Bullfight.Agent.Plain
import DnServer.Bullfight.Agent.Wallet

/-!
# Memory and database

The agent answers from `money` and tells the database later: what `gamecurrency` does
not have yet stands in `upmoney`, and `UpdateToDB` sends it off. `LoseMoney` and
`AddMoney` write both at once. `GetSelfDataAgain` credits `money` alone, at a word of
the client's, and so does `GetShopResult` for what the shop has written to the database
itself.

* `balanced_handle`: the handlers of seats and rooms and the flush keep the sum of what
  is in memory, on the way and in the database; `accounts_handle` says so of all
  messages up to `WalletMessage.extra`.
* `accounted_iff_booked`: a step moves the gap between the two sides by its extra and by
  what a flush cuts off behind the point, which is 0 just when the step is booked
  (`deed_eq_zero_iff`).
-/

namespace DnServer.Bullfight

open DnServer.Lib

namespace Agent

/-! ## The messages -/

/-- The messages whose handlers write `money` or `upmoney`. -/
inductive WalletMessage
  | LoginSucc (cards : List (ℕ × ℚ))
  /-- Rooms, seats, friends and the end of the agent. -/
  | seat (m : LockMessage)
  | CMSG_COIN_SAFE_BOX (now t money : ℤ)
  | CMSG_GET_REDPACKET_REWARD
  | CMSG_GET_SCRATCH_REWARD (due talker : Bool)
  | CMSG_TASK_NEW_PLAYER
  | CMSG_GET_TASK_REWARD (taskid qq_vip loginnum : ℕ)
  | CMSG_FACE (free : Bool)
  | CMSG_GET_FRIEND_MONEY_SUCC
  | EVENT_ADD_MONEY (money : ℚ)
  | EVENT_TAKE_FEE (money : ℚ)
  | EVENT_NOTIFY_LOSER_GET_RESULT
  | EVENT_PLAY_ONE_MATCH (dayplay honor : Option ℕ) (talker : Bool)
  | EVENT_ADMIN_ADD_MONEY (addid : MoneyId) (money : ℚ)
  | EVENT_SHOP (money : ℚ) (todb : Bool) (tools : List Tool)

def WalletMessage.handle : WalletMessage → Handler Unit
  | .LoginSucc cards => Agent.LoginSucc cards
  | .seat m => Agent.handle m
  | .CMSG_COIN_SAFE_BOX now t money => DealSafeBoxCoin now t money
  | .CMSG_GET_REDPACKET_REWARD => RedPacket
  | .CMSG_GET_SCRATCH_REWARD due talker => Scratch due talker
  | .CMSG_TASK_NEW_PLAYER => TaskNewPlayer
  | .CMSG_GET_TASK_REWARD taskid qq_vip loginnum => GetTaskReward taskid qq_vip loginnum
  | .CMSG_FACE free => SendFace free
  | .CMSG_GET_FRIEND_MONEY_SUCC => GetSelfDataAgain
  | .EVENT_ADD_MONEY money => EventAddMoney money
  | .EVENT_TAKE_FEE money => TakeFee money
  | .EVENT_NOTIFY_LOSER_GET_RESULT => LoserGetResult
  | .EVENT_PLAY_ONE_MATCH dayplay honor talker => PlayOneMatch dayplay honor talker
  | .EVENT_ADMIN_ADD_MONEY addid money => AdminAddMoney addid money
  | .EVENT_SHOP money todb tools => GetShopResult money todb tools

/-! ## The database -/

/-- `"%d"` of a number: its part before the point. -/
def percentD (x : ℚ) : ℤ := x.num.tdiv x.den

/-- What the database keeps of players' money. -/
structure GameTables where
  /-- `gamecurrency` of the player's row of `dt_member_game%d`. -/
  gamecurrency : ℤ
  /-- The table `dt_member_game`, the one without a number. -/
  dt_member_game : Table Uid ℤ

/-- `SQL_UPDATE_PLAYERCONF` and `SQL_SEND_MONEY`; the other messages are for other tables and
other services. -/
def GameTables.take (db : GameTables) : Message → GameTables
  | .SQL_UPDATE_PLAYERCONF upmoney =>
    { db with gamecurrency := db.gamecurrency + percentD upmoney }
  | .SQL_SEND_MONEY uid upmoney =>
    match db.dt_member_game.get? uid with
    | some money =>
      { db with dt_member_game := db.dt_member_game.set uid (money + percentD upmoney) }
    | none => db
  | _ => db

/-- `money` less `upmoney` against `gamecurrency`. -/
def currency : Books State Message GameTables ℤ ℚ where
  settled s := s.money - s.upmoney
  posted := Message.flushed
  kept db := db.gamecurrency
  apply := GameTables.take
  enter db x := { db with gamecurrency := db.gamecurrency + x }

/-- The agent, its mail to the database, and the tables. -/
abbrev Account := WriteBehind State Message Request GameTables Request.answer

/-- What the agent has in memory is what the database has and is yet to be told: `upmoney`,
and what is on its way. -/
def Accounted (W : Account) : Prop :=
  W.service.state.money =
    W.store.gamecurrency + (W.service.state.upmoney + currency.total W.mail)

/-- `GetSelfGameConf` has taken the player's row: nothing waits, nothing is on its way. -/
structure LoggingIn (W : Account) : Prop where
  money : W.service.state.money = W.store.gamecurrency
  upmoney : W.service.state.upmoney = 0
  waiting : W.service.waiting = []
  holding : W.service.holding = none
  mail : W.mail = []

/-- The handlers that write neither `money` nor `upmoney` may do anything else. -/
def SameMoney (s t : State) : Prop := t.money = s.money ∧ t.upmoney = s.upmoney

/-- The agent with its database; other services may change the player's row. -/
def account : TSys Account (WriteBehind.Event WalletMessage ℤ) :=
  WriteBehind.system currency WalletMessage.handle SameMoney LoggingIn

/-! ## What balances -/

section Quiet

variable {s : State}

@[simp] theorem currency_settled (s : State) : currency.settled s = s.money - s.upmoney := rfl

@[simp] theorem currency_posted (m : Message) : currency.posted m = m.flushed := rfl

/-- The handler moves nothing between the two. -/
abbrev Quiet {α : Type} (c : Handler α) (s : State) : Prop :=
  c.Within (.quiet currency) (fun _ _ => True) s

theorem plain_under_quiet : plain.Under (.quiet currency) where
  write t u h := by
    show u.money - u.upmoney = t.money - t.upmoney
    rw [(plain_write.mp h).1, (plain_write.mp h).2.1]
  send _ h := h
  ask _ _ := trivial

@[simp low] theorem quiet_of_plainly {α : Type} {c : Handler α} (h : Plainly c s) : Quiet c s :=
  h.imp plain_under_quiet fun _ _ _ => trivial

theorem balanced_of_plainly {α : Type} {c : Handler α} (h : ∀ s, Plainly c s) :
    c.Balanced currency := .of_quiet fun s => quiet_of_plainly (h s)

/-- Both sums move together. -/
@[simp] theorem quiet_AddMoney (money : ℚ) (id : MoneyId) :
    Quiet (AddMoney money id) s := by simp [AddMoney]

@[simp] theorem quiet_LoseMoney (money : ℚ) (id : MoneyId) :
    Quiet (LoseMoney money id) s := by simp [LoseMoney]

@[simp] theorem quiet_BreakProtect : Quiet BreakProtect s := by
  simp only [BreakProtect, Co.within_bind, Co.within_read, Co.within_ite, Co.within_pure]
  refine ⟨fun _ => trivial, fun _ => ?_⟩
  split <;> simp

@[simp] theorem quiet_FastEnter (enterconf : RoomService.EnterConf) :
    Quiet (FastEnter enterconf) s := by
  simp [FastEnter, fastLocked, fastEntered, standAtOnce]

@[simp] theorem quiet_PlayerFastEnter (roomtype gametype : Option ℤ) :
    Quiet (PlayerFastEnter roomtype gametype) s := by
  simp [PlayerFastEnter]

@[simp] theorem quiet_Sit (seatid : ℤ) : Quiet (Sit seatid) s := by simp [Sit, trySit]

@[simp] theorem quiet_ChangeRoom : Quiet ChangeRoom s := by simp [ChangeRoom]

@[simp] theorem quiet_kickSeated (bekicked : Bool) : Quiet (kickSeated bekicked) s := by
  simp [kickSeated, kickPoor, kickUp]

/-- The friend's money leaves by `LoseMoney`, and arrives in another table. -/
@[simp] theorem quiet_Reply1 (num : ℤ) (tuid : Uid) : Quiet (Reply1 num tuid) s := by
  simp [Reply1, SendMoney]

/-! ## Safe box, red packets and tasks -/

theorem foldl_vipOf_sameMoney (now : ℤ) (tools : List Tool) (s : State) :
    SameMoney s (tools.foldl (State.vipOf now) s) := by
  induction tools generalizing s with
  | nil => exact ⟨rfl, rfl⟩
  | cons v rest ih =>
    have hone : SameMoney s (s.vipOf now v) := by
      unfold State.vipOf
      split <;> exact ⟨rfl, rfl⟩
    exact ⟨(ih _).1.trans hone.1, (ih _).2.trans hone.2⟩

theorem GetSelfVip_sameMoney (now : ℤ) (s : State) : SameMoney s (GetSelfVip now s) := by
  unfold GetSelfVip
  split
  · exact foldl_vipOf_sameMoney now s.tools _
  · exact ⟨rfl, rfl⟩

/-- A write that leaves both alone. -/
theorem SameMoney.settled {s t : State} (h : SameMoney s t) :
    currency.settled t = currency.settled s := by
  rw [currency_settled, currency_settled, h.1, h.2]

@[simp] theorem quiet_depositPart (fits : ℚ → ℚ → Bool) (amount : ℚ → ℚ → ℚ) (p : ℚ × Bool) :
    Quiet (depositPart fits amount p) s := by
  simp [depositPart, State.putInBox]

@[simp] theorem quiet_moveCoins (box : SafeBox) (t money : ℤ) :
    Quiet (moveCoins box t money) s := by
  simp [moveCoins, State.putInBox]

@[simp] theorem quiet_DealSafeBoxCoin (now t money : ℤ) :
    Quiet (DealSafeBoxCoin now t money) s := by
  simp only [DealSafeBoxCoin, Co.within_bind, Co.within_write, Co.within_read]
  refine ⟨(GetSelfVip_sameMoney now s).settled, ?_⟩
  split <;> simp

@[simp] theorem quiet_RedPacket : Quiet RedPacket s := by
  simp [RedPacket, GetRedPacketReward, rewardAnswered, waitAgain]

@[simp] theorem quiet_payCards (cards : List (ℕ × ℚ)) : Quiet (payCards cards) s := by
  induction cards generalizing s with
  | nil => exact trivial
  | cons card rest ih =>
    obtain ⟨typeid, dmoney⟩ := card
    simp [payCards, ih]

@[simp] theorem quiet_LoginSucc (cards : List (ℕ × ℚ)) :
    Quiet (LoginSucc cards) s := by simp [LoginSucc]

@[simp] theorem quiet_AddDtmoney : Quiet AddDtmoney s := by simp [AddDtmoney]

@[simp] theorem quiet_DayPlayTask (i : ℕ) (talker : Bool) :
    Quiet (DayPlayTask i talker) s := by simp [DayPlayTask]

@[simp] theorem quiet_DayHonorTask (taskid : ℕ) :
    Quiet (DayHonorTask taskid) s := by simp [DayHonorTask]

@[simp] theorem quiet_scratchMoney (talker : Bool) (sign : ℕ) :
    Quiet (scratchMoney talker sign) s := by
  unfold scratchMoney
  split <;> simp

@[simp] theorem quiet_Scratch (due talker : Bool) : Quiet (Scratch due talker) s := by
  simp [Scratch, GetScratchReward]

@[simp] theorem quiet_TaskNewPlayer : Quiet TaskNewPlayer s := by simp [TaskNewPlayer]

@[simp] theorem quiet_GetTaskReward (taskid qq_vip loginnum : ℕ) :
    Quiet (GetTaskReward taskid qq_vip loginnum) s := by
  simp [GetTaskReward]

@[simp] theorem quiet_GetFaceCost (free : Bool) : Quiet (GetFaceCost free) s := by
  simp only [GetFaceCost, osTime, Co.within_bind, Co.within_hold, Co.within_write, Co.within_read,
    Co.within_ite]
  refine ⟨trivial, fun now => ⟨(GetSelfVip_sameMoney now s).settled, fun _ => trivial, fun _ => ?_⟩⟩
  split <;> exact trivial

@[simp] theorem quiet_SendFace (free : Bool) : Quiet (SendFace free) s := by simp [SendFace]

@[simp] theorem quiet_LoserGetResult : Quiet LoserGetResult s := by simp [LoserGetResult, askGame]

@[simp] theorem quiet_AdminAddMoney (addid : MoneyId) (money : ℚ) :
    Quiet (AdminAddMoney addid money) s := by simp [AdminAddMoney]

@[simp] theorem quiet_InitSelfTools (tools : List Tool) : Quiet (InitSelfTools tools) s := by
  have hwrite : ∀ now t, (Co.write fun s : State => tools.foldl (State.vipOf now)
      { s with tools := tools } : Handler Unit).Within (.quiet currency) (fun _ _ => True) t :=
    fun now t => ⟨(foldl_vipOf_sameMoney now tools { t with tools := tools }).settled, trivial⟩
  simp only [InitSelfTools, Co.within_bind, Co.within_write, hwrite]
  simp

end Quiet

/-! ## The flush -/

/-- What `UpdateToDB` clears it has sent. -/
theorem balanced_UpdateToDB : UpdateToDB.Balanced currency := by
  intro s
  by_cases hsend : s.login ∧ (s.upmoney ≠ 0 ∨ s.updeltas ∨ s.dateflag)
  · have hrun : UpdateToDB.Accounts currency (fun _ d _ => d = 0) 0 s =
        ((do Co.tell (.SQL_UPDATE_PLAYERCONF s.upmoney)
             Co.write fun s => { s with upmoney := 0, updeltas := false } : Handler Unit).Accounts
          currency (fun _ d _ => d = 0) 0 s) := by
      show (if _ then _ else _ : Handler Unit).Accounts currency _ _ _ = _
      rw [if_pos hsend]
    rw [hrun]
    show 0 - s.upmoney + (s.money - 0 - (s.money - s.upmoney)) = 0
    ring
  · show (if _ then _ else _ : Handler Unit).Accounts currency _ _ _
    rw [if_neg hsend]
    rfl

theorem balanced_Exit : Exit.Balanced currency := by
  unfold Exit
  refine .read fun s => .ite (fun _ => .pure ()) fun _ => ?_
  refine .bind (balanced_of_plainly fun _ => plainly_setLock true) fun _ => ?_
  refine .bind (balanced_of_plainly fun _ => plainly_ChangeState _) fun _ => ?_
  refine .bind balanced_UpdateToDB fun _ => .of_quiet fun t => ?_
  simp

theorem balanced_leave : (do
    Co.write fun s => { s with connected := false }
    Exit : Handler Unit).Balanced currency := by
  refine .bind (.of_quiet fun s => ?_) fun _ => balanced_Exit
  simp

theorem balanced_BeKicked : BeKicked.Balanced currency := by
  unfold BeKicked
  refine .read fun s => .ite (fun _ => ?_) fun _ => .pure ()
  refine .ite (fun _ => ?_) fun _ => balanced_leave
  exact .bind (balanced_of_plainly fun _ => plainly_TryQuit) fun _ => balanced_leave

theorem balanced_Kick : Kick.Balanced currency := by
  unfold Kick
  refine .read fun s => .ite (fun _ => .pure ()) fun _ => ?_
  refine .bind (balanced_of_plainly fun _ => plainly_setLock true) fun _ => ?_
  refine .ite (fun _ => ?_) fun _ => balanced_BeKicked
  refine .bind (balanced_of_plainly fun _ => plainly_setLock true) fun _ => ?_
  refine .bind (balanced_of_plainly fun _ => plainly_callTryStand) fun ret => ?_
  refine .bind (balanced_of_plainly fun _ => plainly_setLock false) fun _ => ?_
  exact .ite (fun _ => balanced_BeKicked) fun _ => .pure ()

theorem balanced_KickForGameOver (bekicked : Bool) :
    (KickForGameOver bekicked).Balanced currency := by
  unfold KickForGameOver
  refine .read fun s => .ite (fun _ => .pure ()) fun _ => ?_
  refine .bind (balanced_of_plainly fun _ => plainly_ensureLose _ _) fun _ => ?_
  refine .ite (fun _ => ?_) fun _ => .bind balanced_Exit fun _ => balanced_BeKicked
  refine .ite (fun _ => ?_) fun _ => balanced_BeKicked
  exact .bind (.of_quiet fun _ => quiet_kickSeated bekicked) fun _ => balanced_BeKicked

theorem balanced_ShutDown : ShutDown.Balanced currency := by
  unfold ShutDown
  refine .read fun s => .ite (fun _ => .pure ()) fun _ => ?_
  refine .ite (fun _ => ?_) fun _ => balanced_leave
  refine .bind (balanced_of_plainly fun _ => plainly_setLock true) fun _ => ?_
  refine .bind (balanced_of_plainly fun _ => plainly_blockTryQuit) fun ret => ?_
  refine .bind (balanced_of_plainly fun _ => plainly_setLock false) fun _ => ?_
  exact .ite (fun _ => balanced_leave) fun _ => .pure ()

theorem balanced_PlayOneMatch (dayplay honor : Option ℕ) (talker : Bool) :
    (PlayOneMatch dayplay honor talker).Balanced currency := by
  have hday : ∀ i, (DayPlayTask i talker).Balanced currency := fun i =>
    .of_quiet fun _ => quiet_DayPlayTask i talker
  have hhonor : ∀ taskid, (do
      DayHonorTask taskid
      UpdateToDB : Handler Unit).Balanced currency := fun taskid =>
    .bind (.of_quiet fun _ => quiet_DayHonorTask taskid) fun _ => balanced_UpdateToDB
  unfold PlayOneMatch
  refine .bind (balanced_of_plainly fun _ => plainly_callOther) fun _ => ?_
  refine .bind (.of_quiet fun _ => by simp) fun _ => ?_
  cases dayplay with
  | none =>
    cases honor with
    | none => exact balanced_UpdateToDB
    | some taskid => exact hhonor taskid
  | some i =>
    cases honor with
    | none => exact .bind (hday i) fun _ => balanced_UpdateToDB
    | some taskid => exact .bind (hday i) fun _ => hhonor taskid

theorem balanced_handle (m : LockMessage) : (Agent.handle m).Balanced currency := by
  cases m with
  | CMSG_ENTER_ROOM roomid => exact balanced_of_plainly fun _ => plainly_EnterRoom roomid
  | CMSG_FAST_ENTER roomtype gametype => exact .of_quiet fun _ => quiet_PlayerFastEnter _ _
  | CMSG_SIT seatid => exact .of_quiet fun _ => quiet_Sit seatid
  | CMSG_TRY_STAND => exact balanced_of_plainly fun _ => plainly_TryStand
  | CMSG_TRY_QUIT => exact .bind (balanced_of_plainly fun _ => plainly_TryQuit) fun _ => .pure ()
  | CMSG_CHANGE_ROOM => exact .of_quiet fun _ => quiet_ChangeRoom
  | CMSG_REPLY_DEMAND_MONEY num tuid => exact .of_quiet fun _ => quiet_Reply1 num tuid
  | CMSG_LOGIN_OUT => exact balanced_leave
  | EVENT_KICK => exact balanced_Kick
  | EVENT_KICK_FOR_GAME_OVER bekicked => exact balanced_KickForGameOver bekicked
  | EVENT_SHUT_DOWN => exact balanced_ShutDown
  | exit => exact balanced_Exit

/-! ## What does not -/

/-- What a message's handler adds to `money` alone. -/
def WalletMessage.extra : WalletMessage → State → ℚ
  | .CMSG_GET_FRIEND_MONEY_SUCC, s => if s.open then task.reward else 0
  | .EVENT_SHOP money _ _, _ => money
  | _, _ => 0

theorem accounts_GetSelfDataAgain (s : State) : GetSelfDataAgain.Accounts currency
    (fun _ d _ => d = 0) (-(if s.open then task.reward else 0)) s := by
  by_cases hopen : s.open
  · have hrun : GetSelfDataAgain.Accounts currency (fun _ d _ => d = 0) (-task.reward) s =
        ((Co.write fun s => State.restRedpacket { s with money := s.money + task.reward } :
          Handler Unit).Accounts currency (fun _ d _ => d = 0) (-task.reward) s) := by
      show (if _ then _ else _ : Handler Unit).Accounts currency _ _ _ = _
      rw [if_pos hopen]
    rw [if_pos hopen, hrun]
    show -task.reward + (_ - _ - (s.money - s.upmoney)) = 0
    rw [restRedpacket_money, restRedpacket_upmoney]
    ring
  · rw [if_neg hopen, neg_zero]
    show (if _ then _ else _ : Handler Unit).Accounts currency _ _ _
    rw [if_neg hopen]
    rfl

theorem accounts_GetShopResult (money : ℚ) (todb : Bool) (tools : List Tool) (s : State) :
    (GetShopResult money todb tools).Accounts currency (fun _ d _ => d = 0) (-money) s := by
  have hrest : (if todb then InitSelfTools tools else pure () : Handler Unit).Balanced currency :=
    .ite (fun _ => .of_quiet fun _ => quiet_InitSelfTools tools) fun _ => .pure ()
  unfold GetShopResult
  by_cases hmoney : money = 0
  · subst hmoney
    rw [neg_zero, if_neg (by simp)]
    exact hrest s
  · rw [if_pos hmoney, Co.accounts_bind]
    have hpaid : -money + (currency.settled
        (State.restRedpacket { s with money := s.money + money }) - currency.settled s) = 0 := by
      rw [currency_settled, currency_settled, restRedpacket_money, restRedpacket_upmoney]
      ring
    show (if todb then InitSelfTools tools else pure () : Handler Unit).Accounts currency _ _ _
    rw [hpaid]
    exact hrest _

/-- Every handler accounts for what it does, up to `extra`. -/
theorem accounts_handle (m : WalletMessage) (s : State) :
    m.handle.Accounts currency (fun _ d _ => d = 0) (-(m.extra s)) s := by
  have hzero : ∀ {c : Handler Unit}, c.Balanced currency →
      c.Accounts currency (fun _ d _ => d = 0) (-0) s := by
    intro c hc
    rw [neg_zero]
    exact hc s
  cases m with
  | LoginSucc cards => exact hzero (.of_quiet fun _ => quiet_LoginSucc cards)
  | seat m => exact hzero (balanced_handle m)
  | CMSG_COIN_SAFE_BOX now t money => exact hzero (.of_quiet fun _ => quiet_DealSafeBoxCoin _ _ _)
  | CMSG_GET_REDPACKET_REWARD => exact hzero (.of_quiet fun _ => quiet_RedPacket)
  | CMSG_GET_SCRATCH_REWARD due talker => exact hzero (.of_quiet fun _ => quiet_Scratch _ _)
  | CMSG_TASK_NEW_PLAYER => exact hzero (.of_quiet fun _ => quiet_TaskNewPlayer)
  | CMSG_GET_TASK_REWARD taskid qq_vip loginnum =>
    exact hzero (.of_quiet fun _ => quiet_GetTaskReward _ _ _)
  | CMSG_FACE free => exact hzero (.of_quiet fun _ => quiet_SendFace free)
  | CMSG_GET_FRIEND_MONEY_SUCC => exact accounts_GetSelfDataAgain s
  | EVENT_ADD_MONEY money => exact hzero (.of_quiet fun _ => quiet_AddMoney _ _)
  | EVENT_TAKE_FEE money => exact hzero (.of_quiet fun _ => quiet_LoseMoney _ _)
  | EVENT_NOTIFY_LOSER_GET_RESULT => exact hzero (.of_quiet fun _ => quiet_LoserGetResult)
  | EVENT_PLAY_ONE_MATCH dayplay honor talker => exact hzero (balanced_PlayOneMatch _ _ _)
  | EVENT_ADMIN_ADD_MONEY addid money => exact hzero (.of_quiet fun _ => quiet_AdminAddMoney _ _)
  | EVENT_SHOP money todb tools => exact accounts_GetShopResult money todb tools s

/-! ## The ledger -/

theorem gap_eq_zero_iff (W : Account) : WriteBehind.gap currency W = 0 ↔ Accounted W := by
  unfold WriteBehind.gap Accounted
  rw [currency_settled, sub_eq_zero]
  show _ = (W.store.gamecurrency : ℚ) + _ ↔ _
  constructor
  · intro h
    linarith
  · intro h
    linarith

/-- Nothing but `LoseMoney`, `AddMoney` and the flush of whole coins touches the wallet. -/
def Booked (W : Account) : WriteBehind.Event WalletMessage ℤ → Prop
  | .start .CMSG_GET_FRIEND_MONEY_SUCC => ¬W.service.state.open
  | .start (.EVENT_SHOP money _ _) => money = 0
  | .deliver => ∀ upmoney rest, W.mail = .SQL_UPDATE_PLAYERCONF upmoney :: rest → upmoney.den = 1
  | .enter x => x = 0
  | _ => True

/-- `"%d"` gives a number in full if it is whole. -/
theorem percentD_eq_iff (x : ℚ) : (percentD x : ℚ) = x ↔ x.den = 1 := by
  constructor
  · intro h
    rw [← h]
    exact Rat.den_intCast _
  · intro h
    unfold percentD
    rw [h, Nat.cast_one, Int.tdiv_one]
    exact (Rat.den_eq_one_iff x).mp h

@[simp] theorem percentD_zero : percentD 0 = 0 := rfl

/-- What the row gains of a message. -/
theorem take_gamecurrency (db : GameTables) (m : Message) :
    ((db.take m).gamecurrency : ℚ) - db.gamecurrency = percentD m.flushed := by
  cases m with
  | SQL_UPDATE_PLAYERCONF upmoney =>
    show ((db.gamecurrency + percentD upmoney : ℤ) : ℚ) - db.gamecurrency = percentD upmoney
    push_cast
    ring
  | SQL_SEND_MONEY uid upmoney =>
    have hrow : (db.take (.SQL_SEND_MONEY uid upmoney)).gamecurrency = db.gamecurrency := by
      unfold GameTables.take
      dsimp only
      split <;> rfl
    simp [hrow]
  | SQL_UPDATE_SAFE_BOX money upmoney => simp [GameTables.take]
  | EVENT_SOME_ONE_ENTER => simp [GameTables.take]
  | EVENT_SOME_ONE_SIT => simp [GameTables.take]

theorem deed_eq_zero_iff (W : Account) (e : WriteBehind.Event WalletMessage ℤ) :
    WriteBehind.deed currency WalletMessage.extra W e = 0 ↔ Booked W e := by
  cases e with
  | start m =>
    cases m with
    | CMSG_GET_FRIEND_MONEY_SUCC =>
      show (if W.service.state.open then task.reward else 0) = 0 ↔ ¬W.service.state.open
      by_cases hopen : W.service.state.open
      · rw [if_pos hopen]
        exact iff_of_false (by norm_num) (not_not.mpr hopen)
      · rw [if_neg hopen]
        exact iff_of_true rfl hopen
    | EVENT_SHOP money todb tools => exact Iff.rfl
    | _ => exact iff_of_true rfl trivial
  | deliver =>
    simp only [WriteBehind.deed, Booked]
    cases hmail : W.mail with
    | nil => exact iff_of_true rfl fun _ _ h => (List.cons_ne_nil _ _ h.symm).elim
    | cons m rest =>
      show m.flushed - (((W.store.take m).gamecurrency : ℚ) - W.store.gamecurrency) = 0 ↔ _
      rw [take_gamecurrency, sub_eq_zero, eq_comm, percentD_eq_iff]
      constructor
      · rintro h upmoney rest' heq
        obtain ⟨rfl, -⟩ := List.cons.inj heq
        exact h
      · intro h
        cases m with
        | SQL_UPDATE_PLAYERCONF upmoney => exact h upmoney rest rfl
        | _ => rfl
  | enter x =>
    show -(((W.store.gamecurrency + x : ℤ) : ℚ) - W.store.gamecurrency) = 0 ↔ x = 0
    push_cast
    rw [neg_eq_zero, add_sub_cancel_left]
    exact Int.cast_eq_zero
  | _ => exact iff_of_true rfl trivial

theorem even_of_loggingIn (W : Account) (h : LoggingIn W) : WriteBehind.Even currency W := by
  refine ⟨(gap_eq_zero_iff W).mpr ?_, h.waiting, h.holding⟩
  unfold Accounted
  rw [h.money, h.upmoney, h.mail]
  simp [Books.total]

/-- As long as nothing but `LoseMoney`, `AddMoney` and the flush touches the wallet, the money in
memory is what the database has and is yet to be told; and it stays so in the next step exactly
if that one does not either. -/
theorem accounted_iff_booked {W : Account} (hW : (account.restrict Booked).Reachable W) :
    Accounted W ∧ ∀ e W', account.step W e W' → (Accounted W' ↔ Booked W e) := by
  have hdeed : (account.restrict fun W e =>
      WriteBehind.deed currency WalletMessage.extra W e = 0).Reachable W := by
    refine TSys.Reachable.mono (T := account.restrict Booked) (fun _ h0 => by exact h0)
      (fun W e _ hs => ?_) hW
    exact ⟨(deed_eq_zero_iff W e).mpr hs.1, hs.2⟩
  have hothers : ∀ s t, SameMoney s t → currency.settled t = currency.settled s :=
    fun _ _ h => h.settled
  have hgap := WriteBehind.gap_of_restrict accounts_handle hothers even_of_loggingIn hdeed
  refine ⟨(gap_eq_zero_iff W).mp hgap, fun e W' hstep => ?_⟩
  rw [← gap_eq_zero_iff, ← deed_eq_zero_iff]
  exact WriteBehind.gap_step_iff accounts_handle hothers even_of_loggingIn hW.of_restrict hgap hstep

/-- A player with 5000 coins, logged in. -/
def withSavings : Account :=
  { service := .start { State.start 20 1 with uid := some 7, login := true, money := 5000 }
    mail := []
    store := ⟨5000, Table.empty⟩ }

theorem withSavings_loggingIn : account.init withSavings :=
  ⟨by decide +kernel, rfl, rfl, rfl, rfl⟩

/-- A message is handled up to the handler's end or its first call. -/
theorem booked_start {W : Account} (hW : (account.restrict Booked).Reachable W)
    (m : WalletMessage) (hfree : W.service.Free) (hm : Booked W (.start m)) :
    (account.restrict Booked).Reachable (W.run m.handle) :=
  .step hW ⟨hm, .start m hfree⟩

/-- An administrator gives a hundred coins and the service is shut down: the row has them. -/
theorem accounted_iff_booked_shutDown : ∃ W, W.service.state.money = 5100 ∧
    W.store.gamecurrency = 5100 ∧ W.mail = [] ∧
    (Accounted W ∧ ∀ e W', account.step W e W' → (Accounted W' ↔ Booked W e)) := by
  have h0 : (account.restrict Booked).Reachable withSavings := .init withSavings_loggingIn
  have h1 := booked_start h0 (.EVENT_ADMIN_ADD_MONEY (.task 201) 100) ⟨rfl, rfl⟩ trivial
  have h2 := booked_start h1 (.seat .EVENT_SHUT_DOWN) ⟨rfl, rfl⟩ trivial
  have hmail : ((withSavings.run (AdminAddMoney (.task 201) 100)).run ShutDown).mail =
      [.SQL_UPDATE_PLAYERCONF 100] := by decide +kernel
  have h3 : (account.restrict Booked).Reachable _ := .step h2 ⟨?_, .deliver hmail⟩
  · exact ⟨_, by decide +kernel, by decide +kernel, rfl, accounted_iff_booked h3⟩
  · intro upmoney rest h
    obtain ⟨h, -⟩ := List.cons.inj (hmail.symm.trans h)
    rw [← Message.SQL_UPDATE_PLAYERCONF.inj h]
    rfl

/-- The client says that a friend has sent money: the agent has a thousand coins more than the
database ever gets. -/
theorem credit_at_a_word : ∃ W, account.Reachable W ∧ ¬Accounted W ∧ W.service.state.money = 6000 ∧
    W.store.gamecurrency = 5000 ∧ W.service.state.upmoney = 0 ∧ W.mail = [] := by
  have h0 : account.Reachable withSavings := .init withSavings_loggingIn
  have hstep : account.step withSavings (.start .CMSG_GET_FRIEND_MONEY_SUCC)
      (withSavings.run GetSelfDataAgain) :=
    .start WalletMessage.CMSG_GET_FRIEND_MONEY_SUCC ⟨rfl, rfl⟩
  refine ⟨_, h0.step hstep, ?_, by decide +kernel, rfl, by decide +kernel, by decide +kernel⟩
  unfold Accounted
  decide +kernel

end Agent

end DnServer.Bullfight
