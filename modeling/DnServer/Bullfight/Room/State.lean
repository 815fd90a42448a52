import DnServer.Lib.Handler
import DnServer.Lib.Table
import DnServer.Bullfight.Types

/-!
# The room service: data

The rooms of `room.lua` with their seats and users, the indexes the fast path
searches, and the commands the agents call. Room and seat ids are numbers a
client may choose, so they are integers.
-/

namespace DnServer.Bullfight

open DnServer.Lib

abbrev RoomId := ℤ

namespace RoomService

/-- A room's configuration, as read from the database. -/
structure RoomConf where
  roomid : RoomId
  roomtype : ℤ
  seatnum : ℤ
  maxuser : ℤ
  basebet : ℤ
  minmoney : ℚ
  maxmoney : ℚ
  ticket : ℚ
  fee : ℚ
  choicepokertime : ℤ
  gametype : ℤ
  state : ℤ
  bankerticket : ℚ
deriving DecidableEq

structure Seat where
  seatid : ℤ
  uid : Option Uid
  IP : Option String
deriving DecidableEq

structure User where
  address : Address
  uid : Uid
  seatid : Option ℤ
  info : String
deriving DecidableEq

structure Room where
  roomid : RoomId
  cursitn : ℤ
  curusern : ℤ
  seats : Table ℤ Seat
  users : Table Uid User
  roomconf : RoomConf
deriving DecidableEq

/-- The money a base bet is for. -/
structure BetRange where
  minmoney : ℚ
  maxmoney : ℚ
deriving DecidableEq

/-- Game type, room type and base bet lead to an entry. -/
abbrev ByBet (α : Type) := Table ℤ (Table ℤ (Table ℤ α))

/-- The tables of the service. -/
structure State where
  rooms : Table RoomId Room
  fastroom : ByBet (List RoomId)
  fastbasebet : ByBet BetRange
deriving DecidableEq

/-- The service before it has read its configuration. -/
def State.fresh : State := ⟨Table.empty, Table.empty, Table.empty⟩

/-! ## Commands and answers -/

/-- What a day's play has cost each player in each room (`uplose[uid][roomid].lose`). -/
abbrev Uplose := Table Uid (Table RoomId ℚ)

structure EnterConf where
  roomtype : Option ℤ
  gametype : Option ℤ
  uid : Uid
  basebet : Option ℤ
  money : ℚ
  protectmoney : Option ℚ
  roomid : Option RoomId
  info : String
  IP : Option String
deriving DecidableEq

inductive Command
  | enter (address : Address) (uid : Uid) (roomid : RoomId) (info : String) (uplose : Uplose)
      (sumlose : ℚ) (roomtype_li : Option ℤ)
  | fastEnter (address : Address) (enterconf : EnterConf) (uplose : Uplose) (sumlose : ℚ)
  | sit (uid : Uid) (roomid : RoomId) (seatid : ℤ) (IP : Option String)
  | stand (uid : Uid) (roomid : RoomId) (seatid : ℤ)
  | quit (uid : Uid) (roomid : RoomId)
deriving DecidableEq

/-- The player a command is about. -/
def Command.uid : Command → Uid
  | .enter _ uid _ _ _ _ _ => uid
  | .fastEnter _ enterconf _ _ => enterconf.uid
  | .sit uid _ _ _ => uid
  | .stand uid _ _ => uid
  | .quit uid _ => uid

/-- The room a command names; a fast enter names none. -/
def Command.roomid : Command → Option RoomId
  | .enter _ _ roomid _ _ _ _ => some roomid
  | .fastEnter _ _ _ _ => none
  | .sit _ roomid _ _ => some roomid
  | .stand _ roomid _ => some roomid
  | .quit _ roomid => some roomid

/-- What a command is answered; a field its handler does not return is `none`. -/
structure Reply where
  ret : ℤ
  roomconf : Option RoomConf
  seatid : Option ℤ
  isprotect : Option Bool
  in_nosit : Option Bool
deriving DecidableEq

/-- An answer that is only a code. -/
def Reply.code (ret : ℤ) : Reply := ⟨ret, none, none, none, none⟩

/-- Ways a handler ends in a Lua error. -/
inductive LuaError
  | nilIndex
  | nilArith
  | nilCompare
  | nilPairs
deriving DecidableEq, Repr

/-- A handler's result: an error carries the tables as the handler left them. -/
abbrev Result (α : Type) := Except (LuaError × State) α

/-! ## Writing into a room -/

def Room.setSeat (room : Room) (seatid : ℤ) (f : Seat → Seat) : Room :=
  { room with seats := room.seats.modify seatid f }

def Room.setUser (room : Room) (uid : Uid) (f : User → User) : Room :=
  { room with users := room.users.modify uid f }

def State.setRoom (s : State) (roomid : RoomId) (f : Room → Room) : State :=
  { s with rooms := s.rooms.modify roomid f }

end RoomService

end DnServer.Bullfight
