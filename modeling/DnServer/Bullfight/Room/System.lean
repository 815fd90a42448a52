import DnServer.Lib.Transition
import DnServer.Bullfight.Room.Step

/-!
# The room service as a transition system

One step is one command of an agent, a new configuration, or nothing but other
traversal orders of the tables.
-/

namespace DnServer.Bullfight

open DnServer.Lib

namespace RoomService

inductive Event
  | command (c : Command)
  | updateRoomconf (result : List RoomConf)
  | rehash
deriving DecidableEq

/-- The same keys, with values that differ as `R` allows. -/
def Reordered {κ α : Type} [DecidableEq κ] (R : α → α → Prop) (s t : Table κ α) : Prop :=
  s.keys.Perm t.keys ∧ ∀ k v w, s.get? k = some v → t.get? k = some w → R v w

/-- The same room with its seats and users in other orders. -/
def SameRoom (a b : Room) : Prop :=
  ∃ seats users, a.seats.SameEntries seats ∧ a.users.SameEntries users ∧
    b = { a with seats := seats, users := users }

/-- `t` is `s` with other traversal orders. -/
def Rehash (s t : State) : Prop :=
  Reordered SameRoom s.rooms t.rooms ∧
    Reordered (Reordered (Reordered Eq)) s.fastroom t.fastroom ∧
    Reordered (Reordered (Reordered Eq)) s.fastbasebet t.fastbasebet

/-- One step; a command that raises leaves the tables as they were at the error. -/
def Step (s : State) (e : Event) (t : State) : Prop :=
  match e with
  | .command c => t = Handler.left (command s c)
  | .updateRoomconf result => t = initRoom s result
  | .rehash => Rehash s t

def system : TSys State Event where
  init s := ∃ result, s = initRoom State.fresh result
  step := Step

/-! ## Evaluation -/

def exec (s : State) : Event → Option State
  | .command c => some (Handler.left (command s c))
  | .updateRoomconf result => some (initRoom s result)
  | .rehash => none

theorem exec_step (s : State) (e : Event) (t : State) (h : exec s e = some t) :
    system.step s e t := by
  cases e with
  | command c => exact (Option.some.inj h).symm
  | updateRoomconf result => exact (Option.some.inj h).symm
  | rehash => cases h

/-- An open room with this id and base bet, two seats, and no upper limit of money. -/
def RoomConf.twoSeats (roomid : RoomId) : RoomConf where
  roomid := roomid
  roomtype := 1
  seatnum := 2
  maxuser := 10
  basebet := 50
  minmoney := 0
  maxmoney := 1
  ticket := 0
  fee := 0
  choicepokertime := 10
  gametype := 11
  state := 0
  bankerticket := 0

/-- The service with room 1 only. -/
def oneRoom : State := initRoom State.fresh [.twoSeats 1]

/-- Player `uid` enters room 1, without losses so far. -/
def entering (uid : Uid) : Command :=
  .enter (100 + uid) uid 1 "" ((Table.empty : Uplose).set uid Table.empty) 0 none

/-- Player `uid` looks for a room of type 1 with money for the lowest bet. -/
def fastEntering (uid : Uid) (IP : Option String) : Command :=
  .fastEnter (100 + uid) ⟨some 1, some 11, uid, none, 100, some 0, none, "", IP⟩ Table.empty 0

end RoomService

end DnServer.Bullfight
