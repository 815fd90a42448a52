import DnServer.Bullfight.Room.State

/-!
# The room service: behaviour

The procedures of `room.lua`, in the order of the source. What the service tells
the other players of a room is left out: it changes no table. A handler that
raises keeps what it wrote before.
-/

namespace DnServer.Bullfight

open DnServer.Lib

namespace RoomService

/-! ## Reading the configuration -/

/-- A setting for which the service keeps or replaces a room's configuration. -/
def confChanged (a b : RoomConf) : Bool :=
  a.roomtype != b.roomtype || a.basebet != b.basebet || a.minmoney != b.minmoney ||
    a.ticket != b.ticket || a.fee != b.fee || a.state != b.state ||
    a.choicepokertime != b.choicepokertime || a.maxmoney != b.maxmoney

def updateRoom (s : State) (roomconf : RoomConf) : State :=
  s.setRoom roomconf.roomid fun room =>
    if confChanged roomconf room.roomconf then { room with roomconf := roomconf } else room

/-- Seats `0` to `n - 1`, no one on them. -/
def newSeats : ℕ → Table ℤ Seat
  | 0 => Table.empty
  | n + 1 => (newSeats n).set n ⟨n, none, none⟩

def newRoom (roomconf : RoomConf) : Room where
  roomid := roomconf.roomid
  cursitn := 0
  curusern := 0
  seats := newSeats roomconf.seatnum.toNat
  users := Table.empty
  roomconf := roomconf

def creatRoom (s : State) (roomconf : RoomConf) : State :=
  if roomconf.roomid ∈ s.rooms then updateRoom s roomconf
  else { s with rooms := s.rooms.set roomconf.roomid (newRoom roomconf) }

/-- `t[a][b][c]`. -/
def ByBet.find? {α : Type} (t : ByBet α) (a b c : ℤ) : Option α :=
  ((t.get? a).bind (·.get? b)).bind (·.get? c)

/-- `t[a][b][c] = f(t[a][b][c])`, with the tables on the way made where they are missing. -/
def ByBet.put {α : Type} (t : ByBet α) (a b c : ℤ) (f : Option α → α) : ByBet α :=
  let byType := (t.get? a).getD Table.empty
  let byBet := (byType.get? b).getD Table.empty
  t.set a (byType.set b (byBet.set c (f (byBet.get? c))))

/-- One row of the loop of `InitRoom`. -/
def initRow (s : State) (roomconf : RoomConf) : State :=
  let s := creatRoom s roomconf
  if roomconf.state = 0 then
    { s with
      fastroom := s.fastroom.put roomconf.gametype roomconf.roomtype roomconf.basebet
        fun ids => ids.getD [] ++ [roomconf.roomid]
      fastbasebet := s.fastbasebet.put roomconf.gametype roomconf.roomtype roomconf.basebet
        fun _ => ⟨roomconf.minmoney, roomconf.maxmoney⟩ }
  else s

def initRoom (s : State) (result : List RoomConf) : State :=
  if result ≠ [] then
    result.foldl initRow { s with fastroom := Table.empty, fastbasebet := Table.empty }
  else s

/-! ## Choosing a room -/

/-- Someone on a seat plays from this address, and it is not one of the testers'. -/
def sameIP (room : Room) (IP : Option String) : Bool :=
  room.seats.pairs.any fun p => p.2.IP.isSome && p.2.IP == IP &&
    IP != some serverconf.test_IP1 && IP != some serverconf.test_IP2

def getEmptySeat (s : State) (roomid : RoomId) (IP : Option String) : Result (Option ℤ) :=
  match s.rooms.get? roomid with
  | some room =>
    if !serverconf.TEST_MODEL && sameIP room IP then return none
    else return (room.seats.pairs.find? fun p => p.2.uid.isNone).map Prod.fst
  | none => if !serverconf.TEST_MODEL then .error (.nilIndex, s) else return none

/-- The base bet `k` is the one for this money. -/
def betFits (k : ℤ) (money : ℚ) : Bool :=
  (k = serverconf.basebet 1 ∧ money ≤ serverconf.changeroom 1) ∨
  (k = serverconf.basebet 2 ∧ money > serverconf.changeroom 1 ∧ money ≤ serverconf.changeroom 2) ∨
  (k = serverconf.basebet 3 ∧ money > serverconf.changeroom 2 ∧ money ≤ serverconf.changeroom 3) ∨
  (k = serverconf.basebet 4 ∧ money > serverconf.changeroom 3 ∧ money ≤ serverconf.changeroom 4) ∨
  (k = serverconf.basebet 5 ∧ money > serverconf.changeroom 4 ∧ money ≤ serverconf.changeroom 5) ∨
  (k = serverconf.basebet 6 ∧ money > serverconf.changeroom 5 ∧ money ≤ serverconf.changeroom 6) ∨
  (k = serverconf.basebet 7 ∧ money > serverconf.changeroom 6 ∧ money ≤ serverconf.changeroom 7) ∨
  (k = serverconf.basebet 8 ∧ money > serverconf.changeroom 7)

/-- The inner loop of `GetSuitableBasebet_1`, over the bets of room type `i`. -/
def suitableBet (i : ℤ) (money : ℚ) : ℤ × ℤ → List (ℤ × BetRange) → ℤ × ℤ
  | found, [] => found
  | found, (k, v) :: rest =>
    if money ≥ v.minmoney ∧ (money < v.maxmoney ∨ v.maxmoney ≠ 0) then
      if betFits k money then (k, i) else suitableBet i money (k, i) rest
    else suitableBet i money found rest

/-- The base bet and room type for this money; base bet 0 if there is none. The
third value the source returns is always false. -/
def getSuitableBasebet_1 (s : State) (gametype roomtype : ℤ) (money : ℚ) : Result (ℤ × ℤ) := do
  let byType ← Handler.index s .nilPairs (s.fastbasebet.get? gametype)
  return byType.pairs.foldl (fun found p =>
    if roomtype = 0 ∨ roomtype ≥ p.1 then suitableBet p.1 money found p.2.pairs else found)
    (0, roomtype)

/-- `uplose[uid][roomid].lose`, zero where there is no entry yet. -/
def loseIn (uplose : Uplose) (uid : Uid) (roomid : RoomId) : ℚ :=
  ((uplose.get? uid).bind (·.get? roomid)).getD 0

/-- No room is found yet, or one that fewer players sit in. -/
def fuller (s : State) (got : Option (RoomId × ℤ)) (room : Room) : Bool :=
  match got with
  | none => true
  | some (g, _) => (s.rooms.get? g).any fun getroom => getroom.cursitn < room.cursitn

/-- The loop over the rooms of one base bet. `got` is the room and seat found so
far; the search ends early at a room that is nearly full. -/
def searchRoom (s : State) (enterconf : EnterConf) (notroom : RoomId) (roomtype : ℤ)
    (uplose : Uplose) : Option (RoomId × ℤ) → List RoomId → Result (Option (RoomId × ℤ))
  | got, [] => return got
  | got, v :: rest =>
    match s.rooms.get? v with
    | none => searchRoom s enterconf notroom roomtype uplose got rest
    | some room =>
      if v ≠ notroom ∧ room.cursitn < room.roomconf.seatnum then do
        let limit ← Handler.index s .nilCompare (serverconf.uplosemoney roomtype)
        if loseIn uplose enterconf.uid v > limit ∧ fuller s got room then
          match ← getEmptySeat s room.roomid enterconf.IP with
          | some seatid =>
            if room.cursitn ≥ room.roomconf.seatnum - 5 then return some (v, seatid)
            else searchRoom s enterconf notroom roomtype uplose (some (v, seatid)) rest
          | none => searchRoom s enterconf notroom roomtype uplose got rest
        else searchRoom s enterconf notroom roomtype uplose got rest
      else searchRoom s enterconf notroom roomtype uplose got rest

/-- What a fast enter looks for. -/
structure Target where
  gametype : ℤ
  roomtype : ℤ
  basebet : ℤ
  notroom : RoomId
deriving DecidableEq

/-- The room type for a player who changes rooms. -/
def changeRoomtype (money : ℚ) : ℤ :=
  if money < serverconf.changeroom 2 then 1
  else if money ≥ serverconf.changeroom 2 ∧ money < serverconf.changeroom 4 then 2
  else 3

/-- The first part of `FastEnterRoom`: which rooms to look through, or the error
code the request ends with. -/
def fastTarget (s : State) (enterconf : EnterConf) (sumlose : ℚ) : Result (Target ⊕ ℤ) := do
  -- the trace output reads `fastroom[gametype][roomtype]`
  let _ ← Handler.index s .nilIndex (enterconf.gametype.bind s.fastroom.get?)
  if sumlose ≤ serverconf.uplosemoneySum then return .inr errorcode.OVER_SUMLOSE_LIMIT
  else
    match enterconf.roomid with
    | some roomid =>
      match s.rooms.get? roomid with
      | some room =>
        return .inl ⟨room.roomconf.gametype, changeRoomtype enterconf.money, 0, roomid⟩
      | none => return .inr errorcode.FAST_ENTER_FAILED
    | none =>
      match enterconf.gametype, enterconf.roomtype with
      | some gametype, some roomtype =>
        match enterconf.basebet with
        | some basebet =>
          -- `minmoney` is no variable of this scope, so the bet asked for never counts
          let _ ← Handler.index s .nilIndex (s.fastbasebet.find? gametype roomtype basebet)
          return .inl ⟨gametype, roomtype, 0, 0⟩
        | none => return .inl ⟨gametype, roomtype, 0, 0⟩
      | _, _ => return .inr errorcode.FAST_ENTER_FAILED

/-- The base bet and room type, and whether the money is enough only with the
protection added. -/
def fastBet (s : State) (enterconf : EnterConf) (target : Target) : Result (ℤ × ℤ × Bool) := do
  let found ← getSuitableBasebet_1 s target.gametype target.roomtype enterconf.money
  if found.1 = 0 then
    let protectmoney ← Handler.index s .nilArith enterconf.protectmoney
    let found ← getSuitableBasebet_1 s target.gametype found.2 (enterconf.money + protectmoney)
    return (found.1, found.2, true)
  else return (found.1, found.2, false)

/-- The room and seat a fast enter finds. -/
def fastSearch (s : State) (enterconf : EnterConf) (uplose : Uplose) (target : Target)
    (roomtype basebet : ℤ) : Result (Option (RoomId × ℤ)) :=
  match s.fastroom.find? target.gametype roomtype basebet with
  | some ids => searchRoom s enterconf target.notroom roomtype uplose none ids
  | none => return none

/-- The search of `FastEnterRoom`: the room, the seat and whether the money is
protected, or the error code. -/
def fastFind (s : State) (enterconf : EnterConf) (uplose : Uplose) (sumlose : ℚ) :
    Result ((RoomId × ℤ × Bool) ⊕ ℤ) := do
  match ← fastTarget s enterconf sumlose with
  | .inr code => return .inr code
  | .inl target =>
    let (basebet, roomtype, isprotect) ← fastBet s enterconf target
    match ← fastSearch s enterconf uplose target roomtype basebet with
    | some (v, seatid) => return .inl (v, seatid, isprotect)
    | none => return .inr errorcode.FAST_ENTER_FAILED

/-- The tables after the player is given the seat; one who is already among the
room's users only has the record brought up to date. -/
def takeSeat (room : Room) (enterconf : EnterConf) (address : Address) (seatid : ℤ) : Room :=
  if enterconf.uid ∈ room.users then
    room.setUser enterconf.uid fun user =>
      { user with address := address, info := enterconf.info }
  else
    { room.setSeat seatid fun seat => { seat with uid := some enterconf.uid } with
      users := room.users.set enterconf.uid
        ⟨address, enterconf.uid, some seatid, enterconf.info⟩
      curusern := room.curusern + 1
      cursitn := room.cursitn + 1 }

def fastEnterRoom (s : State) (address : Address) (enterconf : EnterConf) (uplose : Uplose)
    (sumlose : ℚ) : Result (State × Reply) := do
  match ← fastFind s enterconf uplose sumlose with
  | .inr code => return (s, .code code)
  | .inl (v, seatid, isprotect) =>
    let getroom ← Handler.index s .nilIndex (s.rooms.get? v)
    return (s.setRoom v fun room => takeSeat room enterconf address seatid,
      ⟨0, some getroom.roomconf, some seatid, some isprotect, some false⟩)

/-! ## Entering, sitting, standing and leaving -/

/-- The first part of `CheckEnter`: the room after a player entered, and the code. -/
def enterRoom (room : Room) (address : Address) (uid : Uid) (info : String) : Room × ℤ :=
  if uid ∈ room.users then
    (room.setUser uid fun user => { user with address := address, info := info }, -1)
  else if room.roomconf.maxuser ≤ room.curusern then (room, errorcode.ROOM_IS_FULL)
  else
    ({ room with
        users := room.users.set uid ⟨address, uid, none, info⟩
        curusern := room.curusern + 1 }, 0)

/-- The second part: the losses of the day, which override the code. -/
def enterLimit (s : State) (uid : Uid) (roomid : RoomId) (uplose : Uplose) (sumlose : ℚ)
    (roomtype_li : Option ℤ) (ret : ℤ) : Result ℤ := do
  let ret := if sumlose ≤ serverconf.uplosemoneySum then errorcode.OVER_SUMLOSE_LIMIT else ret
  let mine ← Handler.index s .nilIndex (uplose.get? uid)
  match mine.get? roomid with
  | some lose =>
    let limit ← Handler.index s .nilCompare (roomtype_li.bind serverconf.uplosemoney)
    if lose ≤ limit then return errorcode.OVER_LOSE_LIMIT else return ret
  | none => return ret

def checkEnter (s : State) (address : Address) (uid : Uid) (roomid : RoomId) (info : String)
    (uplose : Uplose) (sumlose : ℚ) (roomtype_li : Option ℤ) : Result (State × Reply) :=
  match s.rooms.get? roomid with
  | none => return (s, .code errorcode.HAVE_NO_THIS_ROOM)
  | some room =>
    if room.roomconf.state ≠ 0 then return (s, .code errorcode.HAVE_NO_THIS_ROOM)
    else do
      let entered := enterRoom room address uid info
      let s := s.setRoom roomid fun _ => entered.1
      let ret ← enterLimit s uid roomid uplose sumlose roomtype_li entered.2
      return (s, ⟨ret, some room.roomconf, none, none, none⟩)

/-- The room after `uid` has sat down on a free seat. -/
def sitDown (room : Room) (uid : Uid) (seatid : ℤ) (IP : Option String) : Room :=
  { (room.setSeat seatid fun seat => { seat with uid := some uid, IP := IP }).setUser uid
    (fun user => { user with seatid := some seatid }) with
    cursitn := room.cursitn + 1 }

def checkSit (s : State) (uid : Uid) (roomid : RoomId) (seatid : ℤ) (IP : Option String) :
    Result (State × Reply) := do
  let room ← Handler.index s .nilIndex (s.rooms.get? roomid)
  match room.users.get? uid with
  | none => return (s, .code errorcode.PLAYER_NOT_IN_ROOM)
  | some user =>
    match user.seatid with
    | some own =>
      let seat ← Handler.index s .nilIndex (room.seats.get? seatid)
      if seat.uid = some uid then return (s, ⟨0, none, some own, none, none⟩)
      else
        return (s.setRoom roomid fun room =>
          room.setUser uid fun user => { user with seatid := none },
          .code errorcode.SEAT_HAVE_PLAYER)
    | none =>
      match room.seats.get? seatid with
      | none => return (s, .code errorcode.HAVE_NO_THIS_SEAT)
      | some seat =>
        if seat.uid = none then
          return (s.setRoom roomid fun room => sitDown room uid seatid IP,
            ⟨0, none, some seatid, none, none⟩)
        else return (s, .code errorcode.SEAT_HAVE_PLAYER)

/-- The room after `uid` has stood up from `seatid`. -/
def standUp (room : Room) (uid : Uid) (seatid : ℤ) : Room :=
  { (room.setSeat seatid fun seat => { seat with uid := none, IP := none }).setUser uid
    (fun user => { user with seatid := none }) with
    cursitn := room.cursitn - 1 }

def checkStand (s : State) (uid : Uid) (roomid : RoomId) (seatid : ℤ) :
    Result (State × Reply) := do
  let room ← Handler.index s .nilIndex (s.rooms.get? roomid)
  match room.users.get? uid with
  | none => return (s, .code errorcode.PLAYER_NOT_IN_ROOM)
  | some user =>
    if user.seatid.isSome then
      let seat ← Handler.index s .nilIndex (room.seats.get? seatid)
      if seat.uid.isSome then
        return (s.setRoom roomid fun room => standUp room uid seatid, .code 0)
      else return (s, .code 0)
    else return (s, .code errorcode.PLAYER_IS_NOT_SIT)

/-- The room after `uid` has left it. -/
def leave (room : Room) (uid : Uid) : Room :=
  { room with users := room.users.erase uid, curusern := room.curusern - 1 }

def checkQuitRoom (s : State) (uid : Uid) (roomid : RoomId) : Result (State × Reply) := do
  let room ← Handler.index s .nilIndex (s.rooms.get? roomid)
  match room.users.get? uid with
  | none => return (s, .code errorcode.PLAYER_NOT_IN_ROOM)
  | some user => do
    let s : State ← match user.seatid with
      | some seatid => (checkStand s uid roomid seatid).map Prod.fst
      | none => pure s
    return (s.setRoom roomid fun room => leave room uid, .code 0)

/-- A command of an agent. -/
def command (s : State) : Command → Result (State × Reply)
  | .enter address uid roomid info uplose sumlose roomtype_li =>
    checkEnter s address uid roomid info uplose sumlose roomtype_li
  | .fastEnter address enterconf uplose sumlose => fastEnterRoom s address enterconf uplose sumlose
  | .sit uid roomid seatid IP => checkSit s uid roomid seatid IP
  | .stand uid roomid seatid => checkStand s uid roomid seatid
  | .quit uid roomid => checkQuitRoom s uid roomid

end RoomService

end DnServer.Bullfight
