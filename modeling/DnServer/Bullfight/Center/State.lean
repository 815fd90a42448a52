import DnServer.Bullfight.Room.State

/-!
# The player center and its agents: data

`playercenter.lua` keeps who is online and what a day's play has cost each
player; an agent logs its player in and out by messages to it. A handler that
waits for an answer stands in the list of suspended handlers, with what it has
sent and what it goes on with.
-/

namespace DnServer.Bullfight

open DnServer.Lib

namespace PlayerCenter

open RoomService (Uplose)

abbrev SessionId := ℕ

/-- The gate a client came by; it selects the watchdog. -/
inductive PType
  | S
  | W
  | A
deriving DecidableEq

/-- An entry of `all_player`. -/
structure Player where
  address : Address
  sessionid : SessionId
  ptype : PType
  lock : Bool
deriving DecidableEq

structure Center where
  all_player : Table Uid Player
  /-- The time until which a player is blocked. -/
  blocked_player : Table Uid ℕ
  server_close : Bool
  /-- `none` is the `nil` an agent may have sent. -/
  uplose : Option Uplose
  /-- The service has ended itself. -/
  aborted : Bool
deriving DecidableEq

/-- The fields of an agent that logging in and out reads or writes. -/
structure Agent where
  uid : Option Uid
  sessionid : SessionId
  ptype : PType
  client : Address
  /-- No `CMSG_LOGIN` yet: `cur_state` is still `connected`. -/
  fresh : Bool
  login : Bool
  lock : Bool
  roomid : Option RoomId
  uplose : Option Uplose
  sumlose : ℚ
  exited : Bool
deriving DecidableEq

/-- An agent the watchdog has just created for a session. -/
def Agent.created (sessionid : SessionId) (ptype : PType) (client : Address) : Agent where
  uid := none
  sessionid := sessionid
  ptype := ptype
  client := client
  fresh := true
  login := false
  lock := false
  roomid := none
  uplose := none
  sumlose := 0
  exited := false

/-- What `EVENT_LOGIN` is answered; a value it does not return is `none`. -/
structure LoginReply where
  ret : ℤ
  sid : Option SessionId
  address : Option Address
  ptype : Option PType
  uplose : Option Uplose
deriving DecidableEq

/-- An answer that is only a code. -/
def LoginReply.code (ret : ℤ) : LoginReply := ⟨ret, none, none, none, none⟩

/-- Where a suspended handler stands. -/
inductive Phase
  /-- `EVENT_LOGIN` is sent. -/
  | asking (uid : Uid) (sessionid : SessionId) (ptype : PType)
  /-- The center's `EVENT_LOGIN` waits for the watchdogs. -/
  | redirecting (uid : Uid) (sessionid : SessionId) (ptype : PType)
  /-- The center has answered. -/
  | answered (uid : Uid) (reply : LoginReply)
  /-- The player's data is being read. -/
  | loading
  /-- `EVENT_RELOGIN` is on its way to the agent. -/
  | relogin (sid : SessionId) (address : Address) (ptype : PType)
  /-- `EVENT_UPDATE_UPLOSE` is sent, for a player also `EVENT_LOCK` behind it. -/
  | reporting (uplose : Option Uplose) (who : Option (Uid × SessionId))
  /-- `EVENT_LOCK` is next. -/
  | locking (uid : Uid) (sessionid : SessionId)
  /-- `EVENT_LOCK` is answered. -/
  | locked (uid : Uid) (succ : Bool)
  /-- The room is told of the quit. -/
  | quitting (uid : Uid)
  /-- `EVENT_UNLOCK` is sent. -/
  | unlocking (uid : Uid)
  /-- `EVENT_UNLOCK` is answered. -/
  | unlocked
  /-- `EVENT_LOGIN_OUT` is sent. -/
  | leaving (uid : Uid) (sessionid : SessionId)
  /-- `EVENT_A_NEW_DAY` is on its way to the agent. -/
  | newDay
deriving DecidableEq

/-- A handler of the agent at `address`, or a message for it. -/
structure Suspended where
  address : Address
  phase : Phase
deriving DecidableEq

/-- The center, all agents there ever were, and the suspended handlers. -/
structure State where
  center : Center
  agents : Table Address Agent
  handlers : List Suspended
deriving DecidableEq

namespace State

def setAgent (s : State) (a : Address) (f : Agent → Agent) : State :=
  { s with agents := s.agents.modify a f }

/-- Suspend a handler. -/
def suspend (s : State) (a : Address) (phase : Phase) : State :=
  { s with handlers := s.handlers ++ [⟨a, phase⟩] }

def withCenter (s : State) (center : Center) : State := { s with center := center }

@[simp] theorem setAgent_center (s : State) (a : Address) (f : Agent → Agent) :
    (s.setAgent a f).center = s.center := rfl

@[simp] theorem suspend_center (s : State) (a : Address) (phase : Phase) :
    (s.suspend a phase).center = s.center := rfl

@[simp] theorem withCenter_center (s : State) (center : Center) :
    (s.withCenter center).center = center := rfl

end State

/-- What one day's play has cost player `uid` by a ledger. -/
def lost (uplose : Option Uplose) (uid : Uid) : Option (Table RoomId ℚ) :=
  uplose.bind (·.get? uid)

end PlayerCenter

end DnServer.Bullfight
