import DnServer.Bullfight.Center.State

/-!
# The player center and its agents: handlers

The center's commands on its tables, and an agent's `Login`, `Exit` and the
handlers that write its ledger. A handler that calls another service is cut
where it waits; `advance` goes on from there.
-/

namespace DnServer.Bullfight

open DnServer.Lib

namespace PlayerCenter

open RoomService (Uplose)

/-! ## The center -/

/-- `command[EVENT_LOGIN]` up to its answer, or, without one, up to the calls to
the watchdogs. -/
def eventLogin (s : Center) (now : ℕ) (address : Address) (uid : Uid) (sessionid : SessionId)
    (ptype : PType) : Center × Option LoginReply :=
  if s.server_close then (s, some (.code errorcode.SERVER_CLOSED))
  else if (s.blocked_player.get? uid).any fun endtime => now < endtime then
    (s, some (.code errorcode.PLAYER_BE_BLOCKED))
  else
    match s.all_player.get? uid with
    | some player =>
      if player.lock then (s, some (.code errorcode.LOGIN_AT_OTHER))
      else ({ s with all_player := s.all_player.modify uid fun p => { p with lock := true } }, none)
    | none =>
      ({ s with all_player := s.all_player.set uid ⟨address, sessionid, ptype, false⟩ },
        some ⟨0, some sessionid, some address, some ptype, s.uplose⟩)

/-- The rest of it when the watchdogs have exchanged the agents: the old agent's
address for `EVENT_RELOGIN`, and the answer. It raises where the entry is gone. -/
def redirected (s : Center) (uid : Uid) (sessionid : SessionId) (ptype : PType)
    (oldaddress : Address) : Option (Center × Address × LoginReply) :=
  (s.all_player.get? uid).map fun player =>
    ({ s with all_player := s.all_player.modify uid fun p =>
        { p with sessionid := sessionid, ptype := ptype, lock := false } },
      player.address,
      ⟨errorcode.LOGIN_AT_OTHER, some player.sessionid, some oldaddress, some player.ptype, none⟩)

/-- `command[EVENT_LOCK]`. -/
def eventLock (s : Center) (uid : Uid) (sessionid : SessionId) : Center × Bool :=
  match s.all_player.get? uid with
  | some player =>
    if player.lock ∨ player.sessionid ≠ sessionid then (s, false)
    else ({ s with all_player := s.all_player.modify uid fun p => { p with lock := true } }, true)
  | none => (s, true)

/-- `command[EVENT_UNLOCK]`. -/
def eventUnlock (s : Center) (uid : Uid) : Center :=
  { s with all_player := s.all_player.modify uid fun p => { p with lock := false } }

/-- `command[EVENT_LOGIN_OUT]`; the session id that comes with it is not looked at. -/
def eventLoginOut (s : Center) (uid : Uid) (_sessionid : SessionId) : Center :=
  { s with
    all_player := s.all_player.erase uid
    aborted := s.server_close ∧ (s.all_player.erase uid).size = 0 }

/-- `command[EVENT_UPDATE_UPLOSE]`. -/
def eventUpdateUplose (s : Center) (newuplose : Option Uplose) : Center :=
  { s with uplose := newuplose }

/-- The day's first round of `WriteOnLineCount`. -/
def aNewDay (s : Center) : Center := { s with uplose := some Table.empty }

/-- The agents that are told of the new day. -/
def toldNewDay (s : Center) : List Address :=
  (s.all_player.pairs.filter fun p => !p.2.lock).map fun p => p.2.address

/-- `command[ADMIN_BLOCKED_PLAYER]`. -/
def adminBlockedPlayer (s : Center) (uid : Uid) (endtime : ℕ) : Center :=
  { s with
    blocked_player :=
      if endtime = 0 then s.blocked_player.erase uid else s.blocked_player.set uid endtime }

/-- `command[ADMIN_SERVER_CLOSE]`. -/
def adminServerClose (s : Center) : Center := { s with server_close := true }

/-! ## An agent's ledger -/

/-- `uplose[uid][roomid]` starts at zero. -/
def openEntry (uplose : Uplose) (uid : Uid) (roomid : RoomId) : Uplose :=
  let mine := (uplose.get? uid).getD Table.empty
  uplose.set uid (mine.set roomid ((mine.get? roomid).getD 0))

/-- The ledger part of `LoseMoney` and `AddMoney`. Without a room it raises once
the player's table is there. -/
def Agent.addLose (g : Agent) (money : ℚ) : Agent :=
  match g.uid, g.uplose with
  | some uid, some uplose =>
    let mine := (uplose.get? uid).getD Table.empty
    match g.roomid with
    | some roomid =>
      { g with
        uplose := some (uplose.set uid (mine.set roomid ((mine.get? roomid).getD 0 + money)))
        sumlose := g.sumlose + money }
    | none => { g with uplose := some (uplose.set uid mine) }
  | _, _ => g

/-- The ledger part of `EnterRoom`, `Sit` and `KickForGameOver`. -/
def Agent.openEntry (g : Agent) (roomid : RoomId) : Agent :=
  match g.uid, g.uplose with
  | some uid, some uplose => { g with uplose := some (PlayerCenter.openEntry uplose uid roomid) }
  | _, _ => g

/-- The ledger part of `NoticeTime`. -/
def Agent.noticeTime (g : Agent) : Agent := { g with uplose := some Table.empty, sumlose := 0 }

/-- The ledger part of a successful `Login`. -/
def Agent.takeLedger (g : Agent) (uid : Uid) (uplose : Option Uplose) : Agent :=
  let ledger := uplose.getD Table.empty
  match ledger.get? uid with
  | none => { g with uplose := some (ledger.set uid Table.empty), sumlose := 0 }
  | some mine => { g with uplose := some ledger, sumlose := mine.sum fun _ lose => lose }

/-! ## An agent's `Exit` -/

/-- The agent, unless it has ended. -/
def live (s : State) (a : Address) : Option Agent := (s.agents.get? a).filter fun g => !g.exited

/-- The last part of `Exit`. -/
def exitEnd (s : State) (a : Address) (ret : Bool) : State :=
  s.setAgent a fun g => if ret ∧ ¬ g.login then { g with exited := true } else { g with lock := false }

/-- `Exit` up to its first wait. -/
def exit (s : State) (a : Address) : State :=
  match live s a with
  | none => s
  | some g =>
    if g.lock then s
    else
      let s := s.setAgent a fun g => { g with lock := true }
      match g.uid with
      | some uid => s.suspend a (.reporting g.uplose (some (uid, g.sessionid)))
      | none => exitEnd (s.suspend a (.reporting g.uplose none)) a true

/-! ## Handlers that go on -/

/-- What the other services answer, and the time. -/
structure Env where
  now : ℕ
  oldaddress : Address
  newaddress : Address
  /-- The game's answer to `CMSG_TRY_QUIT`; `none` without a game server. -/
  tryquit : Option ℤ
  /-- Whether `GetSelfGameConf` finds the player. -/
  found : Bool

/-- `Login` with the center's answer. -/
def loginAnswered (s : State) (a : Address) (uid : Uid) (reply : LoginReply) : State :=
  match live s a with
  | none => s
  | some g =>
    if reply.ret = 0 then
      (s.setAgent a fun g =>
        { g.takeLedger uid reply.uplose with
          ptype := reply.ptype.getD g.ptype, uid := some uid }).suspend a .loading
    else if reply.ret = errorcode.LOGIN_AT_OTHER then
      match reply.address, reply.sid with
      | some address, some sid =>
        let s := s.setAgent a fun g =>
          { g with uid := some uid, client := address, sessionid := sid }
        if g.client ≠ address then exit s a else s
      | _, _ => s.setAgent a fun g => { g with uid := some uid }
    else exit s a

/-- `Exit` with the center's answer to `EVENT_LOCK`. -/
def exitLocked (env : Env) (s : State) (a : Address) (uid : Uid) (succ : Bool) : State :=
  match live s a with
  | none => s
  | some g =>
    if succ then
      let s := s.setAgent a fun g => { g with login := false }
      if g.roomid.isSome then
        if env.tryquit = some 0 then s.suspend a (.quitting uid)
        else (s.setAgent a fun g => { g with login := true }).suspend a (.unlocking uid)
      else s.suspend a (.leaving uid g.sessionid)
    else exitEnd s a false

/-- A suspended handler goes on: the center serves what it has sent, or the agent
goes on with the answer. -/
def advance (env : Env) (s : State) (a : Address) : Phase → State
  | .asking uid sessionid ptype =>
    let r := eventLogin s.center env.now a uid sessionid ptype
    match r.2 with
    | some reply => (s.withCenter r.1).suspend a (.answered uid reply)
    | none => (s.withCenter r.1).suspend a (.redirecting uid sessionid ptype)
  | .redirecting uid sessionid ptype =>
    match redirected s.center uid sessionid ptype env.oldaddress with
    | some (center, old, reply) =>
      ((s.withCenter center).suspend old (.relogin sessionid env.newaddress ptype)).suspend a
        (.answered uid reply)
    | none => s
  | .answered uid reply => loginAnswered s a uid reply
  | .loading =>
    match live s a with
    | none => s
    | some _ => if env.found then s.setAgent a fun g => { g with login := true } else exit s a
  | .relogin sid address ptype =>
    match live s a with
    | none => s
    | some _ =>
      s.setAgent a fun g =>
        { g with client := address, sessionid := sid, ptype := ptype, login := true }
  | .reporting uplose who =>
    let s := s.withCenter (eventUpdateUplose s.center uplose)
    match who with
    | some (uid, sessionid) => s.suspend a (.locking uid sessionid)
    | none => s
  | .locking uid sessionid =>
    let r := eventLock s.center uid sessionid
    (s.withCenter r.1).suspend a (.locked uid r.2)
  | .locked uid succ => exitLocked env s a uid succ
  | .quitting uid =>
    match live s a with
    | none => s
    | some g => (s.setAgent a fun g => { g with roomid := none }).suspend a (.leaving uid g.sessionid)
  | .unlocking uid => (s.withCenter (eventUnlock s.center uid)).suspend a .unlocked
  | .unlocked =>
    match live s a with
    | none => s
    | some _ => exitEnd s a false
  | .leaving uid sessionid =>
    let s := s.withCenter (eventLoginOut s.center uid sessionid)
    match live s a with
    | none => s
    | some _ => exitEnd s a true
  | .newDay =>
    match live s a with
    | none => s
    | some _ => s.setAgent a Agent.noticeTime

end PlayerCenter

end DnServer.Bullfight
