import DnServer.Lib.Service
import DnServer.Bullfight.Agent.GameCurrency

/-!
# No handler overdraws

`LoseMoney` refuses what the wallet does not have, so nearly every handler of the agent leaves
`money` at 0 or above, and only `LoserGetResult` asks the game for a result. What credits an
amount unseen is named: the winnings of a round, the cards of a login, what the shop pays, and a
withdrawal from the safe box, all of which may be below zero.
-/

namespace DnServer.Bullfight

open DnServer.Lib

namespace Agent

/-- A wallet that is not in debt stays so. -/
def Solvent (s t : State) : Prop := 0 ≤ s.money → 0 ≤ t.money

@[simp] theorem solvent_iff (s t : State) : Solvent s t ↔ (0 ≤ s.money → 0 ≤ t.money) := Iff.rfl

theorem Solvent.refl (s : State) : Solvent s s := fun h => h

theorem Solvent.trans {s t u : State} (h : Solvent s t) (h' : Solvent t u) : Solvent s u :=
  fun hs => h' (h hs)

/-- The rules of a handler that never overdraws and does not ask for a loser's result. -/
def solvent : Co.Rules State Message Request := ⟨Solvent, fun _ => True, Request.Plain⟩

/-- The handler keeps to them. -/
abbrev Keeps {α : Type} (c : Handler α) (s : State) : Prop :=
  c.Within solvent (fun _ _ => True) s

section Keeps

variable {s : State}

@[simp] theorem solvent_write {s t : State} : solvent.write s t ↔ (0 ≤ s.money → 0 ≤ t.money) :=
  Iff.rfl

@[simp] theorem solvent_send (m : Message) : solvent.send m ↔ True := Iff.rfl

@[simp] theorem solvent_ask (i : Request) : solvent.ask i ↔ i.Plain := Iff.rfl

theorem plain_under_solvent : plain.Under solvent where
  write t u h := by
    show 0 ≤ t.money → 0 ≤ u.money
    rw [(plain_write.mp h).1]
    exact id
  send _ _ := trivial
  ask _ h := h

@[simp low] theorem keeps_of_plainly {α : Type} {c : Handler α} (h : Plainly c s) : Keeps c s :=
  h.imp plain_under_solvent fun _ _ _ => trivial

/-! ## Money -/

/-- The day's loss is another account. -/
theorem within_countLose (money : ℚ) (id : MoneyId) : (countLose money id).Within solvent
    (fun _ t => t.money = s.money) s := by
  simp [countLose, State.noteLose]

/-- A refused debit changes nothing, any other is covered. -/
@[simp] theorem keeps_LoseMoney (money : ℚ) (id : MoneyId) : Keeps (LoseMoney money id) s := by
  have hpaid : ∀ t, Keeps (payOut money) t := by
    intro t
    refine Co.within_ite.mpr ⟨fun _ => trivial, fun hcovered => ⟨fun _ => ?_, trivial⟩⟩
    rw [restRedpacket_money]
    exact sub_nonneg.mpr (not_lt.mp hcovered)
  exact (Co.within_bind _ (fun _ => payOut money) _ s).mpr
    ((within_countLose _ _).mono fun _ t _ => hpaid t)

/-- A credit the wallet can bear. -/
theorem keeps_AddMoney (money : ℚ) (id : MoneyId) (h : 0 ≤ s.money → 0 ≤ s.money + money) :
    Keeps (AddMoney money id) s := by
  refine (Co.within_bind _ _ _ s).mpr ((within_countLose _ _).mono fun _ t ht => ⟨?_, trivial⟩)
  show 0 ≤ t.money → 0 ≤ (State.restRedpacket _).money
  rw [restRedpacket_money, ht]
  exact h

/-- A gift. -/
theorem keeps_AddMoney_nonneg {money : ℚ} (id : MoneyId) (h : 0 ≤ money) :
    Keeps (AddMoney money id) s := keeps_AddMoney money id fun hs => add_nonneg hs h

@[simp] theorem keeps_reward (id : MoneyId) : Keeps (AddMoney task.reward id) s :=
  keeps_AddMoney_nonneg id (by norm_num)

@[simp] theorem keeps_redpacketReward (id : MoneyId) :
    Keeps (AddMoney task.redpacketReward id) s := keeps_AddMoney_nonneg id (by norm_num)

/-! ## Rooms and seats -/

@[simp] theorem keeps_BreakProtect : Keeps BreakProtect s := by
  simp only [BreakProtect, Co.within_bind, Co.within_read, Co.within_ite, Co.within_pure]
  refine ⟨fun _ => trivial, fun _ => ?_⟩
  split <;> simp

@[simp] theorem keeps_UpdateToDB : Keeps UpdateToDB s := by simp [UpdateToDB]

@[simp] theorem keeps_Exit : Keeps Exit s := by simp [Exit]

@[simp] theorem keeps_BeKicked : Keeps BeKicked s := by simp [BeKicked]

@[simp] theorem keeps_FastEnter (enterconf : RoomService.EnterConf) :
    Keeps (FastEnter enterconf) s := by
  simp [FastEnter, fastLocked, fastEntered, standAtOnce]

@[simp] theorem keeps_Sit (seatid : ℤ) : Keeps (Sit seatid) s := by simp [Sit, trySit]

@[simp] theorem keeps_ChangeRoom : Keeps ChangeRoom s := by simp [ChangeRoom]

@[simp] theorem keeps_Kick : Keeps Kick s := by simp [Kick]

@[simp] theorem keeps_KickForGameOver (bekicked : Bool) : Keeps (KickForGameOver bekicked) s := by
  simp [KickForGameOver, kickSeated, kickPoor, kickUp]

@[simp] theorem keeps_ShutDown : Keeps ShutDown s := by simp [ShutDown]

@[simp] theorem keeps_Reply1 (num : ℤ) (tuid : Uid) : Keeps (Reply1 num tuid) s := by
  simp [Reply1, SendMoney]

theorem keeps_handle (m : LockMessage) : Keeps (Agent.handle m) s := by
  cases m <;> simp [Agent.handle, PlayerFastEnter, TryStand, LoginOut]

/-! ## Safe box, red packets and tasks -/

theorem GetSelfVip_solvent (now : ℤ) : Solvent s (GetSelfVip now s) := by
  rw [solvent_iff, (GetSelfVip_sameMoney now s).1]
  exact id

@[simp] theorem keeps_depositPart (fits : ℚ → ℚ → Bool) (amount : ℚ → ℚ → ℚ) (p : ℚ × Bool) :
    Keeps (depositPart fits amount p) s := by
  simp [depositPart, State.putInBox]

/-- A withdrawal of an amount below zero takes it from the wallet. -/
theorem keeps_moveCoins (box : SafeBox) (t money : ℤ) (h : t = 0 → 0 ≤ s.money + money) :
    Keeps (moveCoins box t money) s := by
  have hdraw : t = 0 → Keeps (do
      AddMoney money .safe_box
      Co.write fun s => s.putInBox (-money)
      pure true : Handler Bool) s := fun ht =>
    (Co.within_bind _ _ _ s).mpr ((keeps_AddMoney _ _ fun _ => h ht).mono fun _ u _ => by
      simp [State.putInBox])
  have hput : Keeps (do
      let p ← depositPart (fun sum max => sum < max) (fun money _ => money) (money, false)
      let q ← depositPart (fun sum max => sum ≥ max) (fun _ room => room) p
      pure q.2 : Handler Bool) s := by simp
  refine Co.within_ite.mpr ⟨fun ht => hdraw ht.1, fun _ => ?_⟩
  exact Co.within_ite.mpr ⟨fun _ => hput, fun _ => trivial⟩

theorem keeps_DealSafeBoxCoin (now t money : ℤ) (h : t = 0 → 0 ≤ s.money + money) :
    Keeps (DealSafeBoxCoin now t money) s := by
  have hvip : t = 0 → 0 ≤ (GetSelfVip now s).money + money := by
    rw [(GetSelfVip_sameMoney now s).1]
    exact h
  simp only [DealSafeBoxCoin, Co.within_bind, Co.within_write, Co.within_read]
  refine ⟨GetSelfVip_solvent now, ?_⟩
  split
  · exact trivial
  · rw [Co.within_ite, Co.within_bind]
    exact ⟨fun _ => (keeps_moveCoins _ t money hvip).mono fun _ u _ => by simp, fun _ => trivial⟩

@[simp] theorem keeps_RedPacket : Keeps RedPacket s := by
  simp [RedPacket, GetRedPacketReward, rewardAnswered, waitAgain]

theorem keeps_payCards (cards : List (ℕ × ℚ)) (h : ∀ card ∈ cards, 0 ≤ card.2) :
    Keeps (payCards cards) s := by
  induction cards generalizing s with
  | nil => exact trivial
  | cons card rest ih =>
    obtain ⟨typeid, dmoney⟩ := card
    refine (Co.within_bind _ _ _ s).mpr ?_
    refine (keeps_AddMoney_nonneg _ (h (typeid, dmoney) List.mem_cons_self)).mono fun _ t _ => ?_
    exact ih fun card hcard => h card (List.mem_cons_of_mem _ hcard)

theorem keeps_LoginSucc (cards : List (ℕ × ℚ)) (h : ∀ card ∈ cards, 0 ≤ card.2) :
    Keeps (LoginSucc cards) s := by
  simp only [LoginSucc, Co.within_bind]
  refine (keeps_of_plainly plainly_callOther).mono fun _ t _ => ?_
  refine (keeps_payCards cards h).mono fun _ u _ => ?_
  simp

@[simp] theorem keeps_AddDtmoney : Keeps AddDtmoney s := by simp [AddDtmoney]

theorem dayPlay_nonneg (i : ℕ) (talker : Bool) :
    0 ≤ ((if talker then task.dayPlayTalker else task.dayPlayRewards)[i]?).getD 0 := by
  have hall : ∀ rewards : List ℚ, (∀ x ∈ rewards, 0 ≤ x) → 0 ≤ (rewards[i]?).getD 0 := by
    intro rewards hrewards
    cases hget : rewards[i]? with
    | none => exact le_refl 0
    | some x => exact hrewards x (List.mem_of_getElem? hget)
  apply hall
  cases talker <;> decide

@[simp] theorem keeps_DayPlayTask (i : ℕ) (talker : Bool) : Keeps (DayPlayTask i talker) s := by
  have hpaid : ∀ t, Keeps (do
      AddMoney (((if talker then task.dayPlayTalker else task.dayPlayRewards)[i]?).getD 0)
        (.task (1201 + i))
      Co.write fun s => { s with taskmoneylock := false } : Handler Unit) t := fun t =>
    (Co.within_bind _ _ _ t).mpr
      ((keeps_AddMoney_nonneg _ (dayPlay_nonneg i talker)).mono fun _ u _ => by simp)
  simp only [DayPlayTask, Co.within_bind] at hpaid ⊢
  refine (keeps_of_plainly (plainly_callCompleteTask _)).mono fun ret t _ => ?_
  simp only [Co.within_read, Co.within_ite, Co.within_bind, Co.within_write]
  exact ⟨fun _ => ⟨fun ht => ht, keeps_AddDtmoney.mono fun _ u _ => hpaid u⟩, fun _ => trivial⟩

@[simp] theorem keeps_DayHonorTask (taskid : ℕ) : Keeps (DayHonorTask taskid) s := by
  simp [DayHonorTask]

/-- A scratch card takes nothing. -/
theorem within_scratchMoney (talker : Bool) (sign : ℕ) : (scratchMoney talker sign).Within solvent
    (fun money _ => 0 ≤ money) s := by
  unfold scratchMoney
  split <;> simp
  all_goals omega

@[simp] theorem keeps_GetScratchReward (talker : Bool) : Keeps (GetScratchReward talker) s := by
  simp only [GetScratchReward, Co.within_bind, Co.within_await, Co.within_read, Co.within_ite]
  refine ⟨trivial, fun answer t => ⟨fun _ => ?_, fun _ => trivial⟩⟩
  refine (within_scratchMoney talker answer.2).mono fun money u hmoney => ?_
  exact ⟨fun _ => keeps_AddDtmoney, fun _ => keeps_AddMoney_nonneg _ hmoney⟩

@[simp] theorem keeps_Scratch (due talker : Bool) : Keeps (Scratch due talker) s := by
  simp [Scratch]

/-- The rewards of the tasks are not negative. -/
theorem reward_nonneg (taskid signid : ℕ) : 0 ≤ task.GetReward taskid signid := by
  have hat : ∀ rewards : List ℚ, (∀ x ∈ rewards, 0 ≤ x) → 0 ≤ task.rewardAt rewards signid := by
    intro rewards hrewards
    unfold task.rewardAt
    by_cases hsign : signid = 0
    · rw [if_pos hsign]
    · rw [if_neg hsign]
      cases hget : rewards[signid - 1]? with
      | none => exact le_refl 0
      | some x => exact hrewards x (List.mem_of_getElem? hget)
  have hday : 0 ≤ task.rewardAt task.dayLoginRewards signid := hat _ (by decide)
  have hvip : 0 ≤ task.rewardAt task.qqVipRewards signid := hat _ (by decide)
  unfold task.GetReward
  split_ifs
  · norm_num
  · exact hday
  · exact hvip
  · norm_num
  · norm_num
  · exact le_refl 0

@[simp] theorem keeps_TaskNewPlayer : Keeps TaskNewPlayer s := by
  have hpaid : ∀ t id, Keeps (AddMoney (task.GetReward task.learn_course 0) id) t :=
    fun _ id => keeps_AddMoney_nonneg id (reward_nonneg _ _)
  simp [TaskNewPlayer, hpaid]

@[simp] theorem keeps_GetTaskReward (taskid qq_vip loginnum : ℕ) :
    Keeps (GetTaskReward taskid qq_vip loginnum) s := by
  have hpaid : ∀ t id sign, Keeps (AddMoney (task.GetReward taskid sign) id) t :=
    fun _ id _ => keeps_AddMoney_nonneg id (reward_nonneg _ _)
  simp [GetTaskReward, hpaid]

@[simp] theorem keeps_PlayOneMatch (dayplay honor : Option ℕ) (talker : Bool) :
    Keeps (PlayOneMatch dayplay honor talker) s := by
  have hhonor : ∀ taskid t, Keeps (do
      DayHonorTask taskid
      UpdateToDB : Handler Unit) t := fun taskid t =>
    (Co.within_bind _ _ _ t).mpr ((keeps_DayHonorTask taskid).mono fun _ u _ => keeps_UpdateToDB)
  have hday : ∀ i {c : Handler Unit}, (∀ t, Keeps c t) → ∀ t, Keeps (do
      DayPlayTask i talker
      c : Handler Unit) t := fun i c hc t =>
    (Co.within_bind _ _ _ t).mpr ((keeps_DayPlayTask i talker).mono fun _ u _ => hc u)
  simp only [PlayOneMatch, Co.within_bind, Co.within_write]
  refine (keeps_of_plainly plainly_callOther).mono fun _ t _ => ⟨fun ht => ht, ?_⟩
  cases dayplay with
  | none =>
    cases honor with
    | none => exact keeps_UpdateToDB
    | some taskid => exact hhonor taskid _
  | some i =>
    cases honor with
    | none => exact hday i (fun _ => keeps_UpdateToDB) _
    | some taskid => exact hday i (hhonor taskid) _

/-! ## Faces, friends and the shop -/

@[simp] theorem keeps_GetFaceCost (free : Bool) : Keeps (GetFaceCost free) s := by
  simp only [GetFaceCost, Co.within_bind, Co.within_write, Co.within_read, Co.within_ite]
  refine (keeps_of_plainly plainly_osTime).mono fun now t _ => ?_
  refine ⟨GetSelfVip_solvent now, fun _ => trivial, fun _ => ?_⟩
  split <;> exact trivial

@[simp] theorem keeps_SendFace (free : Bool) : Keeps (SendFace free) s := by
  simp [SendFace]

@[simp] theorem keeps_TakeFee (money : ℚ) : Keeps (TakeFee money) s := by simp [TakeFee]

theorem keeps_EventAddMoney (money : ℚ) (h : 0 ≤ s.money + money) :
    Keeps (EventAddMoney money) s := keeps_AddMoney money _ fun _ => h

/-- An administrator takes no more than there is. -/
@[simp] theorem keeps_AdminAddMoney (addid : MoneyId) (money : ℚ) :
    Keeps (AdminAddMoney addid money) s := by
  refine Co.within_ite.mpr ⟨fun h => keeps_AddMoney_nonneg addid h, fun _ => ?_⟩
  refine Co.within_ite.mpr ⟨fun _ => ?_, fun _ => trivial⟩
  refine Co.within_ite.mpr ⟨fun hcovered => ?_, fun _ => trivial⟩
  refine keeps_AddMoney money addid fun _ => ?_
  linarith

@[simp] theorem keeps_GetSelfDataAgain : Keeps GetSelfDataAgain s := by
  refine Co.within_ite.mpr ⟨fun _ => ⟨fun hs => ?_, trivial⟩, fun _ => trivial⟩
  rw [restRedpacket_money]
  exact add_nonneg hs (by norm_num)

theorem keeps_InitSelfTools (tools : List Tool) : Keeps (InitSelfTools tools) s := by
  have hwrite : ∀ now (t : State), solvent.write t (tools.foldl (State.vipOf now)
      { t with tools := tools }) := by
    intro now t
    rw [solvent_write, (foldl_vipOf_sameMoney now tools { t with tools := tools }).1]
    exact id
  simp only [InitSelfTools, Co.within_bind, Co.within_write, hwrite]
  simp

theorem keeps_GetShopResult (money : ℚ) (todb : Bool) (tools : List Tool)
    (h : 0 ≤ s.money + money) : Keeps (GetShopResult money todb tools) s := by
  have hrest : ∀ t, Keeps (if todb then InitSelfTools tools else pure () : Handler Unit) t :=
    fun _ => Co.within_ite.mpr ⟨fun _ => keeps_InitSelfTools tools, fun _ => trivial⟩
  unfold GetShopResult
  refine Co.within_ite.mpr ⟨fun _ => ⟨fun _ => ?_, hrest _⟩, fun _ => hrest s⟩
  rw [restRedpacket_money]
  exact h

/-! ## The messages -/

/-- What a message credits is covered by the wallet it is sent to. -/
def Bears (s : State) : WalletMessage → Prop
  | .LoginSucc cards => ∀ card ∈ cards, 0 ≤ card.2
  | .CMSG_COIN_SAFE_BOX _ t money => t = 0 → 0 ≤ s.money + money
  | .EVENT_ADD_MONEY money => 0 ≤ s.money + money
  | .EVENT_SHOP money _ _ => 0 ≤ s.money + money
  | _ => True

/-- No handler but `LoserGetResult` asks for a loser's result, and none overdraws a wallet that
bears what the message credits. -/
theorem keeps_message (m : WalletMessage) (hm : m ≠ .EVENT_NOTIFY_LOSER_GET_RESULT)
    (h : Bears s m) : Keeps m.handle s := by
  cases m with
  | LoginSucc cards => exact keeps_LoginSucc cards h
  | seat m => exact keeps_handle m
  | CMSG_COIN_SAFE_BOX now t money => exact keeps_DealSafeBoxCoin now t money h
  | CMSG_GET_REDPACKET_REWARD => exact keeps_RedPacket
  | CMSG_GET_SCRATCH_REWARD due talker => exact keeps_Scratch due talker
  | CMSG_TASK_NEW_PLAYER => exact keeps_TaskNewPlayer
  | CMSG_GET_TASK_REWARD taskid qq_vip loginnum => exact keeps_GetTaskReward _ _ _
  | CMSG_FACE free => exact keeps_SendFace free
  | CMSG_GET_FRIEND_MONEY_SUCC => exact keeps_GetSelfDataAgain
  | EVENT_ADD_MONEY money => exact keeps_EventAddMoney money h
  | EVENT_TAKE_FEE money => exact keeps_TakeFee money
  | EVENT_NOTIFY_LOSER_GET_RESULT => exact absurd rfl hm
  | EVENT_PLAY_ONE_MATCH dayplay honor talker => exact keeps_PlayOneMatch _ _ _
  | EVENT_ADMIN_ADD_MONEY addid money => exact keeps_AdminAddMoney addid money
  | EVENT_SHOP money todb tools => exact keeps_GetShopResult money todb tools h

end Keeps

end Agent

end DnServer.Bullfight
