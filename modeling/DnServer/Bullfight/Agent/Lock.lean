import DnServer.Bullfight.Agent.Seat

/-!
# The lock is given back

A handler that sets `self.lock` keeps the others out. `noteLock` follows what the handler
itself does with it: `held` is true from where it sets the lock until it clears it, whatever
the other handlers do in between. Two of them end with the lock held: `TryStand` of a player
without a seat and `Kick` of a player without a seat.

* `releases_iff_wp`: that a handler gives the lock back is a weakest precondition of it,
  whatever the others do where it waits, so it goes by the pieces a handler is made of:
  those that leave the lock alone (`Frees`) and those that end with it cleared
  (`Clears`).
* `releases_iff`: all messages by that; `kicked_in_lobby` is a kick of a player without
  a seat.
-/

namespace DnServer.Bullfight

open DnServer.Lib

namespace Agent

/-- Whether the handler holds the lock after it has written `t` over `s`. -/
def noteLock (s t : State) (held : Bool) : Bool := if t.lock then held || !s.lock else false

/-- The other handlers may do anything. -/
def anyone (_ _ : State) : Prop := True

/-- The handler ends in `t`, holding the lock or not. -/
abbrev EndsHolding (h : Handler Unit) (s t : State) (held : Bool) : Prop :=
  Co.Ends noteLock anyone h s false () t held

/-- Wherever the handler ends it does not hold the lock. -/
def Releases (h : Handler Unit) (s : State) : Prop := ∀ t held, EndsHolding h s t held → held = false

/-- The messages whose handlers set the lock or clear it. -/
inductive LockMessage
  | CMSG_ENTER_ROOM (roomid : RoomId)
  | CMSG_FAST_ENTER (roomtype gametype : Option ℤ)
  | CMSG_SIT (seatid : ℤ)
  | CMSG_TRY_STAND
  | CMSG_TRY_QUIT
  | CMSG_CHANGE_ROOM
  | CMSG_REPLY_DEMAND_MONEY (num : ℤ) (tuid : Uid)
  | CMSG_LOGIN_OUT
  | EVENT_KICK
  | EVENT_KICK_FOR_GAME_OVER (bekicked : Bool)
  | EVENT_SHUT_DOWN
  /-- `Exit` by itself, after a failed login, a lost connection or a missed heartbeat. -/
  | exit

def handle : LockMessage → Handler Unit
  | .CMSG_ENTER_ROOM roomid => EnterRoom roomid
  | .CMSG_FAST_ENTER roomtype gametype => PlayerFastEnter roomtype gametype
  | .CMSG_SIT seatid => Sit seatid
  | .CMSG_TRY_STAND => TryStand
  | .CMSG_TRY_QUIT => do
    let _ ← TryQuit
  | .CMSG_CHANGE_ROOM => ChangeRoom
  | .CMSG_REPLY_DEMAND_MONEY num tuid => Reply1 num tuid
  | .CMSG_LOGIN_OUT => LoginOut
  | .EVENT_KICK => Kick
  | .EVENT_KICK_FOR_GAME_OVER bekicked => KickForGameOver bekicked
  | .EVENT_SHUT_DOWN => ShutDown
  | .exit => Exit

/-- When the handler of a message gives the lock back. -/
def GivesBack (s : State) : LockMessage → Prop
  | .CMSG_TRY_STAND => s.lock = true ∨ s.roomid.isSome ∧ s.seatid.isSome
  | .EVENT_KICK => s.lock = true ∨ s.seatid.isSome
  | _ => True

/-! ## Rules -/

variable {α β : Type}

/-- Started without the lock, the handler ends without it. -/
def Frees (c : Handler α) : Prop :=
  ∀ s, c.wp noteLock anyone (fun _ _ held => held = false) s false

/-- The handler ends without the lock, also if it starts with it. -/
def Clears (c : Handler α) : Prop :=
  ∀ s held, c.wp noteLock anyone (fun _ _ held => held = false) s held

theorem Clears.frees {c : Handler α} (h : Clears c) : Frees c := fun s => h s false

theorem Frees.releases {h : Handler Unit} (hf : Frees h) (s : State) : Releases h s := by
  intro t held he
  exact Co.wp_of_ends he (hf s)

/-- After the lock is cleared the rest starts without it. -/
theorem Clears.setLock_false {f : Unit → Handler α} (h : Frees (f ())) :
    Clears (setLock false >>= f) := by
  intro s held
  rw [Co.wp_bind]
  exact h _

theorem clears_setLock_false : Clears (setLock false) := by
  intro s held
  rfl

/-- What comes before a part that clears the lock does not matter. -/
theorem Clears.after (c : Handler α) {f : α → Handler β} (h : ∀ a, Clears (f a)) :
    Clears (c >>= f) := by
  intro s held
  rw [Co.wp_bind]
  have hall : c.wp noteLock anyone (fun _ _ _ => True) s held := by
    rw [Co.wp_iff]
    intro _ _ _ _
    trivial
  exact Co.wp_mono (fun a t held' _ => h a t held') hall

theorem Clears.ite {p : Prop} [Decidable p] {c d : Handler α} (hc : p → Clears c)
    (hd : ¬p → Clears d) : Clears (if p then c else d) := by
  by_cases hp : p
  · rw [if_pos hp]
    exact hc hp
  · rw [if_neg hp]
    exact hd hp

theorem Frees.bind {c : Handler α} {f : α → Handler β} (hc : Frees c) (hf : ∀ a, Frees (f a)) :
    Frees (c >>= f) := by
  intro s
  rw [Co.wp_bind]
  refine Co.wp_mono ?_ (hc s)
  rintro a t held rfl
  exact hf a t

theorem Frees.ite {p : Prop} [Decidable p] {c d : Handler α} (hc : p → Frees c)
    (hd : ¬p → Frees d) : Frees (if p then c else d) := by
  by_cases hp : p
  · rw [if_pos hp]
    exact hc hp
  · rw [if_neg hp]
    exact hd hp

theorem frees_pure (a : α) : Frees (pure a : Handler α) := fun _ => rfl

theorem frees_read : Frees (Co.read : Handler State) := fun _ => rfl

theorem frees_await (i : Request) : Frees (Co.await i : Handler i.answer) := by
  intro s r u _
  rfl

theorem frees_hold (i : Request) : Frees (Co.hold i : Handler i.answer) := by
  intro s r
  rfl

theorem frees_need (x : Option α) : Frees (Co.need x : Handler α) := by
  intro s
  rw [Co.wp_need]
  intro _ _
  rfl

/-- A write that leaves the lock as it is. -/
theorem frees_write {f : State → State} (hf : ∀ s, (f s).lock = s.lock) :
    Frees (Co.write f : Handler Unit) := by
  intro s
  rw [Co.wp_write]
  unfold noteLock
  rw [hf s]
  cases s.lock <;> rfl

/-! ## Parts that do not touch the lock -/

theorem frees_ChangeState (state : AgentState) : Frees (ChangeState state) :=
  frees_write fun _ => rfl

theorem frees_ensureLose (uid : Option Uid) (roomid : Option RoomId) :
    Frees (ensureLose uid roomid) := by
  apply Frees.bind (frees_need uid)
  intro uid
  apply Frees.bind (frees_need roomid)
  intro roomid
  exact frees_write fun _ => rfl

theorem frees_countLose (money : ℚ) (id : MoneyId) : Frees (countLose money id) := by
  apply Frees.ite
  · intro _
    apply Frees.bind frees_read
    intro s
    apply Frees.bind (frees_need _)
    intro uid
    apply Frees.bind (frees_need _)
    intro roomid
    exact frees_write fun _ => rfl
  · intro _
    exact frees_pure ()

@[simp] theorem restRedpacket_lock (s : State) : s.restRedpacket.lock = s.lock := by
  unfold State.restRedpacket
  split <;> rfl

theorem frees_AddMoney (money : ℚ) (id : MoneyId) : Frees (AddMoney money id) := by
  apply Frees.bind (frees_countLose money id)
  intro _
  exact frees_write fun s => restRedpacket_lock _

theorem frees_DemandWindown : Frees DemandWindown := by
  apply Frees.bind (frees_await _)
  intro _
  apply Frees.bind frees_read
  intro s
  exact Frees.ite (fun _ => frees_write fun _ => rfl) fun _ => frees_pure ()

theorem frees_CheckRedPacketTime : Frees CheckRedPacketTime := frees_write fun _ => rfl

theorem frees_RedPacketTask : Frees RedPacketTask := by
  apply Frees.bind frees_CheckRedPacketTime
  intro _
  apply Frees.bind (frees_hold _)
  intro now
  exact frees_write fun _ => rfl

theorem frees_BreakProtect : Frees BreakProtect := by
  apply Frees.bind frees_read
  intro s
  refine Frees.ite (fun _ => frees_pure _) fun _ => ?_
  refine Frees.bind ?_ fun rich => ?_
  · split
    · exact frees_pure _
    · exact Frees.bind (frees_need _) fun _ => frees_pure _
  refine Frees.ite (fun _ => frees_pure _) fun _ => ?_
  apply Frees.bind (frees_await _)
  intro ret
  apply Frees.bind frees_read
  intro s
  refine Frees.ite (fun _ => ?_) fun _ => frees_pure _
  apply Frees.bind (frees_AddMoney _ _)
  intro _
  refine Frees.bind (frees_write ?_) fun _ => frees_pure _
  intro s
  rfl

/-! ## Parts that clear it -/

/-- The lock is cleared at the end. -/
theorem clears_until (c : Handler α) : Clears (c >>= fun _ => setLock false) :=
  Clears.after c fun _ => clears_setLock_false

theorem clears_kickUp : Clears kickUp := by
  apply Clears.after
  intro _
  apply Clears.after
  intro ret
  exact clears_until _

/-- The usual shape of a handler that takes the lock. -/
theorem frees_guarded {c : State → Handler α} {a : α} (h : ∀ s, Frees (c s)) :
    Frees (do
      let s ← Co.read
      if s.lock then pure a else c s : Handler α) := by
  apply Frees.bind frees_read
  intro s
  exact Frees.ite (fun _ => frees_pure a) fun _ => h s

theorem frees_TryQuit : Frees TryQuit := by
  apply frees_guarded
  intro s
  apply Frees.bind (frees_ChangeState _)
  intro _
  refine Frees.ite (fun _ => ?_) fun _ => frees_pure _
  apply Clears.frees
  apply Clears.after
  intro ret
  exact Clears.setLock_false (frees_pure _)

theorem frees_Exit : Frees Exit := by
  apply frees_guarded
  intro s
  apply Clears.frees
  apply Clears.after
  intro _
  apply Clears.after
  intro _
  apply Clears.after
  intro _
  apply Clears.after
  intro ret
  apply Clears.after
  intro s
  exact Clears.ite (fun _ => clears_until _) fun _ => clears_setLock_false

theorem frees_leave : Frees (do
    Co.write fun s => { s with connected := false }
    Exit : Handler Unit) := by
  refine Frees.bind (frees_write ?_) fun _ => frees_Exit
  intro s
  rfl

theorem frees_BeKicked : Frees BeKicked := by
  apply Frees.bind frees_read
  intro s
  refine Frees.ite (fun _ => ?_) fun _ => frees_pure ()
  refine Frees.ite (fun _ => ?_) fun _ => frees_leave
  apply Frees.bind frees_TryQuit
  intro _
  exact frees_leave

/-! ## The handlers -/

theorem frees_EnterRoom (roomid : RoomId) : Frees (EnterRoom roomid) := by
  apply frees_guarded
  intro s
  apply Clears.frees
  apply Clears.after
  intro _
  exact clears_until _

theorem frees_FastEnter (enterconf : RoomService.EnterConf) : Frees (FastEnter enterconf) := by
  apply frees_guarded
  intro s
  apply Clears.frees
  apply Clears.after
  intro _
  exact clears_until _

theorem frees_PlayerFastEnter (roomtype gametype : Option ℤ) :
    Frees (PlayerFastEnter roomtype gametype) := by
  apply Frees.bind frees_read
  intro s
  apply Frees.bind (frees_need _)
  intro uid
  exact frees_FastEnter _

theorem frees_Sit (seatid : ℤ) : Frees (Sit seatid) := by
  apply frees_guarded
  intro s
  apply Clears.frees
  apply Clears.after
  intro _
  apply Clears.after
  intro _
  apply Clears.after
  rintro ⟨ret, seatid⟩
  exact clears_until _

theorem frees_ChangeRoom : Frees ChangeRoom := by
  apply frees_guarded
  intro s
  apply Clears.frees
  refine Clears.ite (fun _ => ?_) fun _ => clears_setLock_false
  apply Clears.after
  intro conf
  apply Clears.after
  intro uid
  refine Clears.ite (fun _ => ?_) fun _ => ?_
  · apply Clears.after
    intro _
    exact clears_until _
  · apply Clears.after
    intro gone
    exact Clears.ite (fun _ => clears_until _) fun _ => clears_setLock_false

theorem frees_kickPoor : Frees kickPoor := by
  apply Frees.bind frees_read
  intro s
  apply Frees.bind (frees_need _)
  intro conf
  -- the part after the possible `BreakProtect`
  have hrest : Frees (do
      let s ← Co.read
      if s.seatid.isSome then
        let conf ← Co.need s.roomconf
        if s.money < conf.minmoney then
          if conf.roomtype = 1 then
            DemandWindown
            RedPacketTask
          let s ← Co.read
          if s.seatid.isSome then kickUp : Handler Unit) := by
    apply Frees.bind frees_read
    intro s
    refine Frees.ite (fun _ => ?_) fun _ => frees_pure ()
    apply Frees.bind (frees_need _)
    intro conf
    refine Frees.ite (fun _ => ?_) fun _ => frees_pure ()
    have hkick : Frees (do
        let s ← Co.read
        if s.seatid.isSome then kickUp : Handler Unit) := by
      apply Frees.bind frees_read
      intro s
      exact Frees.ite (fun _ => clears_kickUp.frees) fun _ => frees_pure ()
    refine Frees.ite (fun _ => ?_) fun _ => hkick
    apply Frees.bind frees_DemandWindown
    intro _
    apply Frees.bind frees_RedPacketTask
    intro _
    exact hkick
  refine Frees.ite (fun _ => ?_) fun _ => hrest
  apply Frees.bind frees_BreakProtect
  intro _
  exact hrest

theorem frees_kickSeated (bekicked : Bool) : Frees (kickSeated bekicked) := by
  apply Frees.bind frees_read
  intro s
  apply Frees.bind (frees_need _)
  intro conf
  apply Frees.bind (frees_need _)
  intro limit
  refine Frees.ite (fun _ => clears_kickUp.frees) fun _ => ?_
  refine Frees.ite (fun _ => clears_kickUp.frees) fun _ => ?_
  refine Frees.ite (fun _ => frees_kickPoor) fun _ => ?_
  exact Frees.ite (fun _ => clears_kickUp.frees) fun _ => frees_pure ()

theorem frees_KickForGameOver (bekicked : Bool) : Frees (KickForGameOver bekicked) := by
  apply frees_guarded
  intro s
  apply Frees.bind (frees_ensureLose _ _)
  intro _
  refine Frees.ite (fun _ => ?_) fun _ => ?_
  · refine Frees.ite (fun _ => ?_) fun _ => frees_BeKicked
    apply Frees.bind (frees_kickSeated bekicked)
    intro _
    exact frees_BeKicked
  · apply Frees.bind frees_Exit
    intro _
    exact frees_BeKicked

theorem frees_ShutDown : Frees ShutDown := by
  apply frees_guarded
  intro s
  refine Frees.ite (fun _ => ?_) fun _ => frees_leave
  apply Clears.frees
  apply Clears.after
  intro _
  apply Clears.after
  intro ret
  apply Clears.setLock_false
  exact Frees.ite (fun _ => frees_leave) fun _ => frees_pure ()

theorem frees_Reply1 (num : ℤ) (tuid : Uid) : Frees (Reply1 num tuid) := by
  apply frees_guarded
  intro s
  apply Clears.frees
  apply Clears.after
  intro _
  refine Clears.ite (fun _ => ?_) fun _ => clears_setLock_false
  refine Clears.ite (fun _ => ?_) fun _ => clears_setLock_false
  apply Clears.after
  intro _
  exact clears_until _

/-! ## When the lock is given back -/

theorem releases_iff_wp (h : Handler Unit) (s : State) :
    Releases h s ↔ h.wp noteLock anyone (fun _ _ held => held = false) s false := by
  rw [Co.wp_iff]
  constructor
  · intro hr _ t held he
    exact hr t held he
  · intro hr t held he
    exact hr () t held he

/-- A handler that takes the lock and then does nothing keeps it. -/
theorem keeps_lock {c : Handler Unit} {s : State} (hlock : ¬s.lock = true)
    (h : (setLock true >>= fun _ => c).wp noteLock anyone (fun _ _ held => held = false) s false)
    (hc : c = pure ()) : False := by
  rw [Co.wp_bind, hc] at h
  have hheld : noteLock s { s with lock := true } false = false := h
  unfold noteLock at hheld
  rw [if_pos rfl, Bool.false_or, Bool.not_eq_false'] at hheld
  exact hlock hheld

theorem tryStand_releases (s : State) :
    Releases TryStand s ↔ s.lock = true ∨ s.roomid.isSome ∧ s.seatid.isSome := by
  rw [releases_iff_wp]
  unfold TryStand
  rw [Co.wp_bind, Co.wp_read, Co.wp_ite]
  constructor
  · intro h
    by_contra hnot
    obtain ⟨hlock, hseat⟩ := not_or.mp hnot
    exact keeps_lock hlock (h.2 hlock) (if_neg hseat)
  · intro h
    refine ⟨fun _ => rfl, fun hlock => ?_⟩
    have hseat := h.resolve_left hlock
    rw [if_pos hseat]
    have hclears : Clears (do
        setLock true
        let _ ← PlayerTryStand
        setLock false : Handler Unit) := Clears.after _ fun _ => clears_until _
    exact hclears s false

/-- With the lock set `BeKicked` does nothing about it, whether or not it ends the agent. -/
theorem beKicked_refused {s : State} (hlock : s.lock = true) :
    ¬BeKicked.wp noteLock anyone (fun _ _ held => held = false) s true := by
  have hexit : ∀ t : State, t.lock = true →
      ¬Exit.wp noteLock anyone (fun _ _ held => held = false) t true := by
    intro t ht h
    unfold Exit at h
    rw [Co.wp_bind, Co.wp_read, Co.wp_ite] at h
    cases h.1 ht
  have hleave : ¬(do
      Co.write fun s => { s with connected := false }
      Exit : Handler Unit).wp noteLock anyone (fun _ _ held => held = false) s true := by
    intro h
    rw [Co.wp_bind, Co.wp_write] at h
    have hnote : noteLock s { s with connected := false } true = true := if_pos hlock
    rw [hnote] at h
    exact hexit { s with connected := false } hlock h
  intro h
  unfold BeKicked at h
  rw [Co.wp_bind, Co.wp_read, Co.wp_ite] at h
  by_cases hkick : s.kickid = 1
  · have hend := h.1 hkick
    by_cases hroom : s.roomid.isSome = true
    · rw [if_pos hroom, Co.wp_bind] at hend
      unfold TryQuit at hend
      rw [Co.wp_bind, Co.wp_read, Co.wp_ite] at hend
      exact hleave (hend.1 hlock)
    · rw [if_neg hroom] at hend
      exact hleave hend
  · cases h.2 hkick

theorem kick_releases (s : State) : Releases Kick s ↔ s.lock = true ∨ s.seatid.isSome := by
  rw [releases_iff_wp]
  unfold Kick
  rw [Co.wp_bind, Co.wp_read, Co.wp_ite]
  constructor
  · intro h
    by_contra hnot
    obtain ⟨hlock, hseat⟩ := not_or.mp hnot
    have hend := h.2 hlock
    rw [if_neg hseat, Co.wp_bind] at hend
    have hheld : noteLock s { s with lock := true } false = true := by
      unfold noteLock
      rw [if_pos rfl, Bool.false_or, Bool.not_eq_true']
      exact Bool.eq_false_iff.mpr hlock
    have hkicked : BeKicked.wp noteLock anyone (fun _ _ held => held = false)
        { s with lock := true } (noteLock s { s with lock := true } false) := hend
    rw [hheld] at hkicked
    exact beKicked_refused rfl hkicked
  · intro h
    refine ⟨fun _ => rfl, fun hlock => ?_⟩
    have hseat := h.resolve_left hlock
    rw [if_pos hseat]
    have hclears : Clears (do
        setLock true
        setLock true
        let ret ← callTryStand
        setLock false
        if ret = some 0 then BeKicked : Handler Unit) := by
      apply Clears.after
      intro _
      apply Clears.after
      intro _
      apply Clears.after
      intro ret
      apply Clears.setLock_false
      exact Frees.ite (fun _ => frees_BeKicked) fun _ => frees_pure ()
    exact hclears s false

/-- The handlers of all messages give the lock back, whatever they are answered and whatever
the others do meanwhile, except `TryStand` and `Kick` for a player without a seat. -/
theorem releases_iff (m : LockMessage) (s : State) : Releases (handle m) s ↔ GivesBack s m := by
  cases m with
  | CMSG_ENTER_ROOM roomid => exact iff_of_true ((frees_EnterRoom roomid).releases s) trivial
  | CMSG_FAST_ENTER roomtype gametype =>
    exact iff_of_true ((frees_PlayerFastEnter roomtype gametype).releases s) trivial
  | CMSG_SIT seatid => exact iff_of_true ((frees_Sit seatid).releases s) trivial
  | CMSG_TRY_STAND => exact tryStand_releases s
  | CMSG_TRY_QUIT =>
    have hfrees : Frees (do
        let _ ← TryQuit : Handler Unit) := Frees.bind frees_TryQuit fun _ => frees_pure ()
    exact iff_of_true (hfrees.releases s) trivial
  | CMSG_CHANGE_ROOM => exact iff_of_true (frees_ChangeRoom.releases s) trivial
  | CMSG_REPLY_DEMAND_MONEY num tuid => exact iff_of_true ((frees_Reply1 num tuid).releases s) trivial
  | CMSG_LOGIN_OUT => exact iff_of_true (frees_leave.releases s) trivial
  | EVENT_KICK => exact kick_releases s
  | EVENT_KICK_FOR_GAME_OVER bekicked =>
    exact iff_of_true ((frees_KickForGameOver bekicked).releases s) trivial
  | EVENT_SHUT_DOWN => exact iff_of_true (frees_ShutDown.releases s) trivial
  | exit => exact iff_of_true (frees_Exit.releases s) trivial

/-- A player that is logged in and in no room. -/
def inLobby : State := { State.start 20 1 with uid := some 7, login := true, cur_state := .login_succ }

/-- The player is kicked: the lock stays set, and `Exit` then does nothing. -/
theorem kicked_in_lobby : ¬Releases (handle .EVENT_KICK) inLobby ∧
    ((handle .EVENT_KICK).advance inLobby).2.lock = true ∧
      (handle .exit).advance ((handle .EVENT_KICK).advance inLobby).2 =
        (.done (), ((handle .EVENT_KICK).advance inLobby).2) := by
  refine ⟨?_, rfl, rfl⟩
  intro h
  rcases (kick_releases inLobby).mp h with hlock | hseat
  · cases hlock
  · cases hseat

end Agent

end DnServer.Bullfight
