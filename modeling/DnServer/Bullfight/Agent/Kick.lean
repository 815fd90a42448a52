import DnServer.Lib.Service
import DnServer.Bullfight.Agent.Plain

/-!
# The kick by the administrator

`Kick` reads the kick id of the message into a local variable `kickid`, and where the game
refuses it assigns that variable to itself. `BeKicked` asks the `kickid` of the module, which
nothing ever sets. So whatever state the agent is in, `Kick` ends without a kick, and a kick
the game refuses is not remembered either.

* `keepsKickid_handle`: no handler writes the module's `kickid`, so it is 0 in every
  state (`kickid_zero`).
* `kick_without_effect`: `Kick` run from such a state, with a seat and without; what
  would be a kick is an answer without one.
-/

namespace DnServer.Bullfight

open DnServer.Lib

namespace Agent

open RoomService (EnterConf)

/-! ## Nothing sets the module's `kickid` -/

/-- The `kickid` of the module stays as it is. -/
def SameKickid (s t : State) : Prop := t.kickid = s.kickid

/-- The handler does not write it. -/
abbrev KeepsKickid {α : Type} (c : Handler α) (s : State) : Prop :=
  c.Within (.writes SameKickid) (fun _ _ => True) s

section Keeps

variable {α : Type} {s : State}

@[simp] theorem restRedpacket_kickid (s : State) : s.restRedpacket.kickid = s.kickid := by
  unfold State.restRedpacket
  split <;> rfl

@[simp] theorem sameKickid_iff {s t : State} : SameKickid s t ↔ t.kickid = s.kickid := Iff.rfl

@[simp low] theorem keepsKickid_of_plainly {c : Handler α} (h : Plainly c s) :
    KeepsKickid c s :=
  h.imp ⟨fun _ _ hw => (plain_write.mp hw).2.2, fun _ _ => trivial, fun _ _ => trivial⟩
    fun _ _ _ => trivial

@[simp] theorem keepsKickid_AddMoney (money : ℚ) (id : MoneyId) :
    KeepsKickid (AddMoney money id) s := by simp [AddMoney]

@[simp] theorem keepsKickid_LoseMoney (money : ℚ) (id : MoneyId) :
    KeepsKickid (LoseMoney money id) s := by simp [LoseMoney]

@[simp] theorem keepsKickid_BreakProtect : KeepsKickid BreakProtect s := by
  simp only [BreakProtect, Co.within_bind, Co.within_read, Co.within_ite, Co.within_pure]
  refine ⟨fun _ => trivial, fun _ => ?_⟩
  split <;> simp

@[simp] theorem keepsKickid_UpdateToDB : KeepsKickid UpdateToDB s := by simp [UpdateToDB]

@[simp] theorem keepsKickid_Exit : KeepsKickid Exit s := by simp [Exit]

@[simp] theorem keepsKickid_BeKicked : KeepsKickid BeKicked s := by simp [BeKicked]

@[simp] theorem keepsKickid_FastEnter (enterconf : EnterConf) :
    KeepsKickid (FastEnter enterconf) s := by
  simp [FastEnter, fastLocked, fastEntered, standAtOnce]

@[simp] theorem keepsKickid_Sit (seatid : ℤ) : KeepsKickid (Sit seatid) s := by simp [Sit, trySit]

@[simp] theorem keepsKickid_ChangeRoom : KeepsKickid ChangeRoom s := by simp [ChangeRoom]

@[simp] theorem keepsKickid_Kick : KeepsKickid Kick s := by simp [Kick]

@[simp] theorem keepsKickid_KickForGameOver (bekicked : Bool) :
    KeepsKickid (KickForGameOver bekicked) s := by
  simp [KickForGameOver, kickSeated, kickPoor, kickUp]

@[simp] theorem keepsKickid_ShutDown : KeepsKickid ShutDown s := by simp [ShutDown]

@[simp] theorem keepsKickid_Reply1 (num : ℤ) (tuid : Uid) :
    KeepsKickid (Reply1 num tuid) s := by simp [Reply1, SendMoney]

theorem keepsKickid_handle (m : LockMessage) :
    KeepsKickid (handle m) s := by
  cases m <;> simp [handle, PlayerFastEnter, TryStand, LoginOut]

end Keeps

/-- The agent with the handlers of these messages. The other handlers may change anything but
the module's `kickid`. -/
def system : TSys (Service State Message Request Request.answer) (Service.Event LockMessage) :=
  Service.system handle SameKickid fun s => ∃ address sessionid, s = State.start address sessionid

theorem kickid_zero {S : Service State Message Request Request.answer} (hS : system.Reachable S) :
    S.state.kickid = 0 := by
  obtain ⟨s₀, ⟨address, sessionid, rfl⟩, hkick⟩ := Service.reachable_kept (R := .writes SameKickid)
    (fun _ => rfl) (fun _ _ _ h h' => h'.trans h) (fun m s => keepsKickid_handle m)
    (fun _ _ h => h) hS
  exact hkick

/-! ## What a kick is to do -/

/-- The game and the center let the player go. -/
def Grants : (i : Request) → i.answer → Prop
  | .CMSG_TRY_STAND, ret => ret = some 0
  | .CMSG_TRY_QUIT, ret => ret = some 0
  | .EVENT_LOCK, locked => locked = true
  | .EVENT_LOGIN_OUT, ret => ret = true
  | .room _, reply => reply.ret = 0
  | _, _ => True

/-- The game does not let the player stand up. -/
def Refuses : (i : Request) → i.answer → Prop
  | .CMSG_TRY_STAND, ret => ∃ errcode, ret = some errcode ∧ errcode ≠ 0
  | _, _ => True

/-- The player sits in a game, and the agent takes messages. -/
structure InPlay (s : State) : Prop where
  lock : s.lock = false
  connected : s.connected = true
  uid : s.uid.isSome
  roomid : s.roomid.isSome
  seatid : s.seatid.isSome
  served : s.gameServed = true

/-- The agent has come to its end, with the player in no room. -/
def HasLeft (e : Option Unit) (t : State) : Prop := e = none ∧ t.roomid = none ∧ t.seatid = none

/-- A kick that the agent does not refuse takes effect at once for a player without a seat or
with the game's leave to stand up. -/
def KickTaken (s : State) : Prop :=
  s.lock = false → s.seatid = none ∨ s.gameServed = true →
    ∀ e t, Co.Finishes Grants Kick s e t → HasLeft e t

/-- One that the game refuses takes effect at the end of the round. -/
def KickRemembered (s : State) : Prop :=
  s.lock = false → s.seatid.isSome → s.gameServed = true →
    ∀ e t, Co.Finishes Refuses Kick s e t → ∀ u, SameKickid t u → InPlay u →
      ∀ bekicked e' v, Co.Finishes Grants (KickForGameOver bekicked) u e' v → HasLeft e' v

/-! ## What it does -/

section Runs

variable {s : State}

/-- Without a seat the kick ends with nothing but the lock set. -/
theorem kick_unseated (hkick : s.kickid = 0) (hlock : s.lock = false) (hseat : s.seatid = none) :
    Kick.advance s = (.done (), { s with lock := true }) := by
  simp [Kick, BeKicked, setLock, hkick, hlock, hseat]

/-- What `Kick` does with the game's answer. -/
def kickAnswered (ret : Option ℤ) : Handler Unit := do
  setLock false
  if ret = some 0 then BeKicked

theorem callTryStand_advance (hserved : s.gameServed = true) :
    callTryStand.advance s = (.call .CMSG_TRY_STAND pure, s) := by
  unfold callTryStand askGame
  rw [Co.advance_read_bind, if_pos hserved]
  rfl

theorem kick_seated (hlock : s.lock = false) (hseat : s.seatid.isSome)
    (hserved : s.gameServed = true) :
    Kick.advance s = (.call .CMSG_TRY_STAND kickAnswered, { s with lock := true }) := by
  have hasked : callTryStand.advance { s with lock := true } = (.call .CMSG_TRY_STAND pure, _) :=
    callTryStand_advance hserved
  unfold Kick
  rw [Co.advance_read_bind, if_neg (by rw [hlock]; exact Bool.false_ne_true)]
  show (if s.seatid.isSome = true then _ else _ : Handler Unit).advance { s with lock := true } = _
  rw [if_pos hseat]
  exact Co.advance_bind_of_call hasked _

/-- Whatever the game answers, the lock is cleared and that is all. -/
theorem kickAnswered_advance (hkick : s.kickid = 0) (ret : Option ℤ) :
    (kickAnswered ret).advance s = (.done (), { s with lock := false }) := by
  unfold kickAnswered
  by_cases hret : ret = some 0
  · simp [BeKicked, setLock, hkick, hret]
  · simp [setLock, hret]

/-- A seated player, with money within the room's bounds. -/
def comfortable : State :=
  { State.start 20 1 with
    uid := some 7, login := true, connected := true, cur_state := .be_seated, money := 500,
    roomid := some 24, seatid := some 2, roomconf := some
      { roomid := 24, roomtype := 1, seatnum := 5, maxuser := 20, basebet := 50, minmoney := 100,
        maxmoney := 10000, ticket := 10, fee := 0, choicepokertime := 10, gametype := 11, state := 0,
        bankerticket := 0 } }

/-- At the end of the round the player stays. -/
theorem comfortable_stays :
    (KickForGameOver false).advance comfortable = (.done (), { comfortable with
      uplose := Table.empty.set 7 (Table.empty.set 24 0) }) := by
  rfl

/-- A kick is taken in no state in which it is to be. -/
theorem kickTaken_iff (hkick : s.kickid = 0) :
    KickTaken s ↔ s.lock = true ∨ s.seatid.isSome ∧ s.gameServed = false := by
  constructor
  · intro htaken
    by_contra hnot
    obtain ⟨hlock, hserved⟩ := not_or.mp hnot
    rw [Bool.not_eq_true] at hlock
    cases hseat : s.seatid with
    | none =>
      have hend : Co.Finishes Grants Kick s (some ()) _ :=
        .of_advance_done (kick_unseated hkick hlock hseat)
      cases (htaken hlock (.inl hseat) _ _ hend).1
    | some seatid =>
      have hsome : s.seatid.isSome = true := by rw [hseat]; rfl
      have hserved : s.gameServed = true := by
        by_contra hnone
        exact hserved ⟨hsome, Bool.eq_false_iff.mpr hnone⟩
      have hend : Co.Finishes Grants Kick s (some ()) _ :=
        .of_advance_call (kick_seated hlock hsome hserved) rfl
          (.of_advance_done (kickAnswered_advance hkick (some 0)))
      cases (htaken hlock (.inr hserved) _ _ hend).1
  · rintro (hlock | ⟨hseat, hserved⟩) hlock' hask
    · exact Bool.noConfusion (hlock.symm.trans hlock')
    · rcases hask with hnone | hserved'
      · rw [hnone] at hseat
        cases hseat
      · exact Bool.noConfusion (hserved.symm.trans hserved')

/-- No kick is remembered that is to be. -/
theorem kickRemembered_iff (hkick : s.kickid = 0) :
    KickRemembered s ↔ s.lock = true ∨ ¬(s.seatid.isSome ∧ s.gameServed = true) := by
  constructor
  · intro hremembered
    by_contra hnot
    obtain ⟨hlock, hseat⟩ := not_or.mp hnot
    rw [Bool.not_eq_true] at hlock
    obtain ⟨hseat, hserved⟩ := not_not.mp hseat
    have hend : Co.Finishes Refuses Kick s (some ()) _ :=
      .of_advance_call (kick_seated hlock hseat hserved) (r := some 11) ⟨11, rfl, by decide⟩
        (.of_advance_done (kickAnswered_advance hkick (some 11)))
    -- at the end of the round the player has money within the bounds of the room
    have hstays : Co.Finishes Grants (KickForGameOver false) comfortable (some ()) _ :=
      .of_advance_done comfortable_stays
    cases (hremembered hlock hseat hserved _ _ hend comfortable hkick.symm
      ⟨rfl, rfl, rfl, rfl, rfl, rfl⟩ false _ _ hstays).1
  · rintro (hlock | hnot) hlock' hseat hserved
    · exact Bool.noConfusion (hlock.symm.trans hlock')
    · exact absurd ⟨hseat, hserved⟩ hnot

end Runs

/-- In no state an agent can come to does a kick take effect, unless nothing is asked of it: the
agent refuses, or there is no game that could answer. -/
theorem kick_without_effect {S : Service State Message Request Request.answer}
    (hS : system.Reachable S) :
    (KickTaken S.state ↔
      S.state.lock = true ∨ S.state.seatid.isSome ∧ S.state.gameServed = false) ∧
    (KickRemembered S.state ↔
      S.state.lock = true ∨ ¬(S.state.seatid.isSome ∧ S.state.gameServed = true)) :=
  ⟨kickTaken_iff (kickid_zero hS), kickRemembered_iff (kickid_zero hS)⟩

/-- The agent of a player that has logged in. -/
theorem reachable_inLobby :
    system.Reachable { Service.start (State.start 20 1) with state := inLobby } :=
  .step (.init ⟨_, ⟨20, 1, rfl⟩, rfl⟩) (.other ⟨rfl, rfl⟩ rfl)

theorem lobby_kick_without_effect :
    (KickTaken inLobby ↔ inLobby.lock = true ∨ inLobby.seatid.isSome ∧ inLobby.gameServed = false) ∧
    (KickRemembered inLobby ↔
      inLobby.lock = true ∨ ¬(inLobby.seatid.isSome ∧ inLobby.gameServed = true)) :=
  kick_without_effect reachable_inLobby

/-- The kick of a player in the lobby and that of a seated one during a round. -/
theorem kicks_missed : ¬KickTaken inLobby ∧ ¬KickRemembered comfortable := by
  constructor
  · rw [kickTaken_iff rfl]
    decide
  · rw [kickRemembered_iff rfl]
    decide

end Agent

end DnServer.Bullfight
