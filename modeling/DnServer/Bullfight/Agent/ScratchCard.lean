import DnServer.Lib.Service
import DnServer.Bullfight.Agent.Wallet

/-!
# Scratch cards

Six times a day a player gets a scratch card for the time it has sat at the tables of two types
of rooms. The agent keeps the time in `gametime` and, since `starttime`, by the clock. A request
that comes too early sets the time back to 0. The handlers that sit down, stand up and leave keep
the time too, and `Scratch` goes on while they wait, and while another `Scratch` waits.
-/

namespace DnServer.Bullfight

open DnServer.Lib

namespace Agent

/-! ## What is kept -/

/-- `task.reward_money[task.id.scratch]`: the seconds each card of a day is waited for. -/
def task.scratchTimes : List ℤ := [240, 360, 480, 600, 600, 720]

/-- What `agent.lua` keeps for the cards, and what of the rest the handlers below read. -/
structure ScratchCard where
  /-- `os.time()`. -/
  clock : ℤ
  gametime : ℤ
  /-- 0 where the time does not run. -/
  starttime : ℤ
  scratch : ℕ
  scratchflag : Bool
  lockmoney : Bool
  roomid : Bool
  seatid : Bool
  /-- Whether `roomconf.roomtype` is 1 or 2. -/
  timed : Bool
  deriving DecidableEq, Repr

namespace ScratchCard

/-- What the room service answers to `CMSG_FAST_ENTER`, and how the player's money compares. -/
structure FastSeat where
  timed : Bool
  isprotect : Bool
  /-- Whether also `enterconf.roomtype ~= 1`. -/
  in_nosit : Bool
  /-- Whether the player has more than `roomconf.maxmoney`. -/
  rich : Bool

inductive Request
  | SQL_COMPLETE_TASK | SQL_GET_PLAYNUM | CMSG_SIT | CMSG_STAND | CMSG_QUIT_ROOM | CMSG_ENTER_ROOM
  | CMSG_FAST_ENTER | BreakProtect
  deriving DecidableEq, Repr

/-- What the handlers use of the answers. -/
@[reducible] def Request.answer : Request → Type
  | .SQL_COMPLETE_TASK | .CMSG_SIT | .BreakProtect => Bool
  | .SQL_GET_PLAYNUM | .CMSG_STAND | .CMSG_QUIT_ROOM => Unit
  | .CMSG_ENTER_ROOM => Option Bool
  | .CMSG_FAST_ENTER => Option FastSeat

abbrev Handler := Co ScratchCard Empty Request Request.answer

/-! ## The handlers -/

/-- The waiting time of the card that is next. -/
def waits (c : ScratchCard) : Option ℤ := task.scratchTimes[c.scratch]?

/-- The answer of `CheckGameTime`, for the client. -/
def timeLeft (c : ScratchCard) : ℤ :=
  match c.waits with
  | some t => if c.gametime < t then t - c.gametime else 0
  | none => if c.scratch = 6 then -1 else 0

/-- What `CheckGameTime` writes. -/
def checked (c : ScratchCard) : ScratchCard :=
  match c.waits with
  | some t => if c.gametime < t then c else { c with scratchflag := true, gametime := t }
  | none => if c.scratch = 6 then { c with gametime := 720 } else c

def CheckGameTime : Handler ℤ := do
  let c ← Co.read
  Co.write checked
  pure c.timeLeft

/-- The time since `starttime` is added. -/
def added (c : ScratchCard) : ScratchCard :=
  { c with gametime := c.gametime + c.clock - c.starttime }

/-- A card is granted. -/
def rewarded (ret : Bool) (c : ScratchCard) : ScratchCard :=
  if ret = true ∧ c.lockmoney = false then { c with scratch := c.scratch + 1, scratchflag := false }
  else c

/-- `GetScratchReward` after the database has answered. -/
def rewardAnswered (ret : Bool) : Handler Unit := Co.write (rewarded ret)

def GetScratchReward : Handler Unit := do
  let ret ← (Co.await Request.SQL_COMPLETE_TASK : Handler Bool)
  rewardAnswered ret

/-- The end of `Scratch`: the time starts again. -/
def restarted (c : ScratchCard) : ScratchCard :=
  if c.scratch < 6 ∧ c.scratchflag = false then { c with starttime := c.clock, gametime := 0 }
  else c

/-- The time does not run, and there is not enough of it. -/
def Idle (c : ScratchCard) : Prop := c.starttime = 0 ∧ c.waits.any (c.gametime < ·) = true

instance (c : ScratchCard) : Decidable c.Idle := inferInstanceAs (Decidable (_ ∧ _))

def Scratch : Handler Unit := do
  let c ← Co.read
  if c.Idle then pure ()
  else
    Co.write added
    let _ ← CheckGameTime
    let c ← Co.read
    if c.waits = some c.gametime then GetScratchReward
    Co.write restarted

/-- The player has a seat; in some rooms the time starts to run. -/
def seated (c : ScratchCard) : ScratchCard :=
  { c with starttime := if c.timed = true then c.clock else c.starttime, seatid := true }

/-- `SitResp`, for `ret == 0` or not. -/
def SitResp (ret : Bool) : Handler Unit :=
  Co.write fun c => if ret = true then c.seated else c

/-- `Sit` after `BreakProtect`; `refused` where the player has too little money or has lost too
much. -/
def sitProtected (refused : Bool) : Handler Unit :=
  if refused = true then SitResp false
  else do
    let ret ← (Co.await Request.CMSG_SIT : Handler Bool)
    SitResp ret

/-- `BreakProtect` is tried where the player is `short` of money. -/
def Sit (short refused : Bool) : Handler Unit :=
  if short = true then do
    let _ ← (Co.await Request.BreakProtect : Handler Bool)
    sitProtected refused
  else sitProtected refused

/-- `StandSucc` after the room service has answered. -/
def standAnswered : Handler Unit := do
  let c ← Co.read
  if c.scratchflag = false ∧ c.timed = true then Co.write added
  Co.write fun c => { c with starttime := 0, seatid := false }

def StandSucc : Handler Unit := do
  let c ← Co.read
  if c.seatid = true then
    let _ ← (Co.await Request.CMSG_STAND : Handler Unit)
    standAnswered
  else pure ()

/-- `QuitSucc` after the room service has answered. -/
def quitAnswered : Handler Unit :=
  Co.write fun c => { c with starttime := 0, seatid := false, roomid := false, timed := false }

def QuitSucc : Handler Unit := do
  let c ← Co.read
  if c.roomid = true then
    if c.seatid = true ∧ c.scratchflag = false ∧ c.timed = true then Co.write added
    let _ ← (Co.await Request.CMSG_QUIT_ROOM : Handler Unit)
    quitAnswered
  else pure ()

/-- `EnterResp`; what the statistics answer is not used. -/
def EnterResp (ok : Bool) : Handler Unit := do
  if ok = true then
    let c ← Co.read
    if c.timed = true then let _ ← CheckGameTime
    let _ ← (Co.await Request.SQL_GET_PLAYNUM : Handler Unit)
  else pure ()

/-- `EnterRoom` after the room service has answered. -/
def enterAnswered (ret : Option Bool) : Handler Unit := do
  Co.write fun c => { c with roomid := c.roomid || ret.isSome, timed := ret.getD c.timed }
  let c ← Co.read
  if c.seatid = true ∧ c.timed = true then
    Co.write added
    let _ ← CheckGameTime
    Co.write fun c => { c with starttime := c.clock }
  EnterResp ret.isSome

def EnterRoom : Handler Unit := do
  let ret ← (Co.await Request.CMSG_ENTER_ROOM : Handler (Option Bool))
  enterAnswered ret

/-- The seat is given back. -/
def unseat : Handler Unit := do
  let _ ← (Co.await Request.CMSG_STAND : Handler Unit)
  Co.write fun c => { c with seatid := false }

/-- The end of `FastEnter`: the seat is given back or taken. -/
def fastSeated (seat : FastSeat) (ok : Bool) : Handler Unit := do
  let c ← Co.read
  if ok = false ∨ seat.in_nosit = true then
    if c.roomid = true ∧ c.seatid = true then unseat else pure ()
  else if seat.rich = true then unseat
  else if c.seatid = true then SitResp true
  else pure ()

/-- `FastEnter` after `EnterResp`. -/
def fastEntered (seat : FastSeat) : Handler Unit :=
  if seat.isprotect = true then do
    let ok ← (Co.await Request.BreakProtect : Handler Bool)
    fastSeated seat ok
  else fastSeated seat true

/-- `FastEnter` after the room service has answered. -/
def fastAnswered : Option FastSeat → Handler Unit
  | none => EnterResp false
  | some seat => do
    Co.write fun c => { c with roomid := true, timed := seat.timed, seatid := true }
    EnterResp true
    fastEntered seat

def FastEnter : Handler Unit := do
  let ret ← (Co.await Request.CMSG_FAST_ENTER : Handler (Option FastSeat))
  fastAnswered ret

/-! ## What the handlers write -/

/-- The time of the card when `Scratch` decides. -/
def counted (c : ScratchCard) : ScratchCard := c.added.checked

/-- The player stands; the time is added where it ran. -/
def stood (c : ScratchCard) : ScratchCard :=
  { (if c.scratchflag = false ∧ c.timed = true then c.added else c) with
    starttime := 0, seatid := false }

/-- The time is added before the player has left. -/
def leaving (c : ScratchCard) : ScratchCard :=
  if c.seatid = true ∧ c.scratchflag = false ∧ c.timed = true then c.added else c

/-- The player has left. -/
def left (c : ScratchCard) : ScratchCard :=
  { c with starttime := 0, seatid := false, roomid := false, timed := false }

/-- `CheckGameTime` in the rooms where the time counts. -/
def entered (c : ScratchCard) : ScratchCard := if c.timed = true then c.checked else c

/-- What `EnterRoom` writes before `EnterResp`. -/
def resumed (ret : Option Bool) (c : ScratchCard) : ScratchCard :=
  let c := { c with roomid := c.roomid || ret.isSome, timed := ret.getD c.timed }
  if c.seatid = true ∧ c.timed = true then { c.counted with starttime := c.counted.clock } else c

/-- The player is in the room, on its way to a seat. -/
def fastTaken (seat : FastSeat) (c : ScratchCard) : ScratchCard :=
  entered { c with roomid := true, timed := seat.timed, seatid := true }

/-- What is left of `Scratch` when it asks the database. -/
def scratchRest (ret : Bool) : Handler Unit := do
  rewardAnswered ret
  Co.write restarted

/-! ## The agent -/

/-- A handler that waits: what it waits for and what is left of it. -/
structure Waiting where
  request : Request
  rest : request.answer → Handler Unit

/-- The agent and its handlers that wait. -/
structure Desk where
  card : ScratchCard
  pending : List Waiting

inductive Event
  | tick (now : ℤ)
  /-- `CMSG_GET_SCRATCH_REWARD`. -/
  | request
  | sit (short refused : Bool)
  | stand
  | quit
  | enter
  | fast_enter
  /-- The `n`-th handler that waits is answered. -/
  | answer (n : ℕ) (a : (i : Request) → i.answer)
  /-- `Exit` brings the time up to date before it is stored. -/
  | save
  | a_new_day
  /-- `CurTaskconf` reads how many cards the database has for today. -/
  | taskconf (num : ℕ)
  /-- `EVENT_UPDATE_GAMECONF`. -/
  | gameconf (timed : Bool)
  /-- Another handler sets or clears `lockmoney`. -/
  | money (lockmoney : Bool)

namespace Desk

/-- A handler goes on up to its end or its next question. -/
def run (d : Desk) (h : Handler Unit) : Desk :=
  match h.advance d.card with
  | (.call i k, c) => ⟨c, d.pending ++ [⟨i, k⟩]⟩
  | (_, c) => { d with card := c }

def exec (d : Desk) : Event → Option Desk
  | .tick now =>
    if d.card.clock ≤ now then some { d with card := { d.card with clock := now } } else none
  | .request => some (d.run Scratch)
  | .sit short refused => some (d.run (Sit short refused))
  | .stand => some (d.run StandSucc)
  | .quit => some (d.run QuitSucc)
  | .enter => some (d.run EnterRoom)
  | .fast_enter => some (d.run FastEnter)
  | .answer n a => d.pending[n]?.map fun w =>
    run { d with pending := d.pending.eraseIdx n } (w.rest (a w.request))
  | .save => some { d with card := d.card.checked }
  | .a_new_day => some { d with card := { d.card with scratch := 0 } }
  | .taskconf num => some { d with card := { d.card with scratch := num } }
  | .gameconf timed =>
    some { d with card := if d.card.roomid = true then { d.card with timed := timed } else d.card }
  | .money lockmoney => some { d with card := { d.card with lockmoney := lockmoney } }

/-- It starts when a player has logged in: what it has sat before today counts. -/
def system : TSys Desk Event where
  init d := d.pending = [] ∧ d.card.starttime = 0 ∧ d.card.scratchflag = false ∧
    d.card.seatid = false ∧ 0 < d.card.clock
  step d e d' := d.exec e = some d'

/-! ## What the handlers do -/

section Runs

variable {d : Desk} {h : Handler Unit} {c : ScratchCard}

theorem run_of_done (hd : h.advance d.card = (.done (), c)) : d.run h = { d with card := c } := by
  unfold run
  rw [hd]

theorem run_of_call {i : Request} {k : i.answer → Handler Unit}
    (hc : h.advance d.card = (.call i k, c)) : d.run h = ⟨c, d.pending ++ [⟨i, k⟩]⟩ := by
  unfold run
  rw [hc]

theorem run_request_idle (hidle : d.card.Idle) : d.run Scratch = d := by
  refine run_of_done ?_
  show (if d.card.Idle then _ else _ : Handler Unit).advance d.card = _
  rw [if_pos hidle]
  rfl

theorem run_request_due (hidle : ¬d.card.Idle)
    (hdue : (counted d.card).waits = some (counted d.card).gametime) :
    d.run Scratch = ⟨counted d.card, d.pending ++ [⟨.SQL_COMPLETE_TASK, scratchRest⟩]⟩ := by
  refine run_of_call ?_
  show (if d.card.Idle then _ else _ : Handler Unit).advance d.card = _
  rw [if_neg hidle]
  show (if (counted d.card).waits = some (counted d.card).gametime then _ else _ :
    Handler Unit).advance (counted d.card) = _
  rw [if_pos hdue]
  rfl

theorem run_request_early (hidle : ¬d.card.Idle)
    (hearly : (counted d.card).waits ≠ some (counted d.card).gametime) :
    d.run Scratch = { d with card := (counted d.card).restarted } := by
  refine run_of_done ?_
  show (if d.card.Idle then _ else _ : Handler Unit).advance d.card = _
  rw [if_neg hidle]
  show (if (counted d.card).waits = some (counted d.card).gametime then _ else _ :
    Handler Unit).advance (counted d.card) = _
  rw [if_neg hearly]
  rfl

theorem run_scratchRest (d : Desk) (ret : Bool) :
    d.run (scratchRest ret) = { d with card := (d.card.rewarded ret).restarted } := run_of_done rfl

theorem run_sitProtected (d : Desk) (refused : Bool) :
    d.run (sitProtected refused) =
      if refused = true then d else ⟨d.card, d.pending ++ [⟨.CMSG_SIT, SitResp⟩]⟩ := by
  cases refused with
  | true => exact run_of_done rfl
  | false => exact run_of_call rfl

theorem run_Sit (d : Desk) (short refused : Bool) :
    d.run (Sit short refused) =
      if short = true then
        ⟨d.card, d.pending ++ [⟨.BreakProtect, fun _ => sitProtected refused⟩]⟩
      else d.run (sitProtected refused) := by
  cases short with
  | true => exact run_of_call rfl
  | false => rfl

theorem run_SitResp (d : Desk) (ret : Bool) :
    d.run (SitResp ret) = { d with card := if ret = true then d.card.seated else d.card } :=
  run_of_done rfl

theorem run_StandSucc (d : Desk) :
    d.run StandSucc =
      if d.card.seatid = true then
        ⟨d.card, d.pending ++ [⟨.CMSG_STAND, fun _ => standAnswered⟩]⟩
      else d := by
  by_cases hseat : d.card.seatid = true
  · rw [if_pos hseat]
    refine run_of_call ?_
    show (if d.card.seatid = true then _ else _ : Handler Unit).advance d.card = _
    rw [if_pos hseat]
    rfl
  · rw [if_neg hseat]
    refine run_of_done ?_
    show (if d.card.seatid = true then _ else _ : Handler Unit).advance d.card = _
    rw [if_neg hseat]
    rfl

theorem run_standAnswered (d : Desk) : d.run standAnswered = { d with card := stood d.card } := by
  refine run_of_done ?_
  show (if d.card.scratchflag = false ∧ d.card.timed = true then _ else _ :
    Handler Unit).advance d.card = _
  unfold stood
  split <;> rfl

theorem run_QuitSucc (d : Desk) :
    d.run QuitSucc =
      if d.card.roomid = true then
        ⟨leaving d.card, d.pending ++ [⟨.CMSG_QUIT_ROOM, fun _ => quitAnswered⟩]⟩
      else d := by
  by_cases hroom : d.card.roomid = true
  · rw [if_pos hroom]
    refine run_of_call ?_
    show (if d.card.roomid = true then _ else _ : Handler Unit).advance d.card = _
    rw [if_pos hroom]
    show (if d.card.seatid = true ∧ d.card.scratchflag = false ∧ d.card.timed = true then _ else _ :
      Handler Unit).advance d.card = _
    unfold leaving
    split <;> rfl
  · rw [if_neg hroom]
    refine run_of_done ?_
    show (if d.card.roomid = true then _ else _ : Handler Unit).advance d.card = _
    rw [if_neg hroom]
    rfl

theorem run_quitAnswered (d : Desk) : d.run quitAnswered = { d with card := left d.card } :=
  run_of_done rfl

theorem run_enterAnswered_none (d : Desk) :
    d.run (enterAnswered none) = { d with card := resumed none d.card } := by
  refine run_of_done ?_
  show (if d.card.seatid = true ∧ d.card.timed = true then _ else _ : Handler Unit).advance _ = _
  unfold resumed
  simp only [Option.isSome_none, Bool.or_false, Option.getD_none]
  split <;> rfl

theorem advance_EnterResp (c : ScratchCard) :
    (EnterResp true).advance c = (.call .SQL_GET_PLAYNUM fun _ => pure (), entered c) := by
  show (if c.timed = true then _ else _ : Handler Unit).advance c = _
  unfold entered
  split <;> rfl

theorem run_enterAnswered_some (d : Desk) (timed : Bool) :
    d.run (enterAnswered (some timed)) =
      ⟨entered (resumed (some timed) d.card),
        d.pending ++ [⟨.SQL_GET_PLAYNUM, fun _ => pure ()⟩]⟩ := by
  refine run_of_call ?_
  show (if d.card.seatid = true ∧ timed = true then _ else _ : Handler Unit).advance _ = _
  unfold resumed
  simp only [Option.isSome_some, Bool.or_true, Option.getD_some]
  split
  · exact advance_EnterResp _
  · exact advance_EnterResp _

theorem run_EnterRoom (d : Desk) :
    d.run EnterRoom = ⟨d.card, d.pending ++ [⟨.CMSG_ENTER_ROOM, enterAnswered⟩]⟩ := run_of_call rfl

theorem run_FastEnter (d : Desk) :
    d.run FastEnter = ⟨d.card, d.pending ++ [⟨.CMSG_FAST_ENTER, fastAnswered⟩]⟩ := run_of_call rfl

theorem run_fastAnswered_none (d : Desk) : d.run (fastAnswered none) = d := run_of_done rfl

theorem run_fastAnswered_some (d : Desk) (seat : FastSeat) :
    d.run (fastAnswered (some seat)) =
      ⟨fastTaken seat d.card, d.pending ++ [⟨.SQL_GET_PLAYNUM, fun _ => fastEntered seat⟩]⟩ := by
  refine run_of_call ?_
  obtain ⟨timed, isprotect, in_nosit, rich⟩ := seat
  cases timed <;> rfl

/-- The seat is given back, it has been lost meanwhile, or it is taken. -/
theorem run_fastSeated (d : Desk) (seat : FastSeat) (ok : Bool) :
    d.run (fastSeated seat ok) =
      ⟨d.card, d.pending ++
        [⟨.CMSG_STAND, fun _ => Co.write fun c => { c with seatid := false }⟩]⟩ ∨
    (d.run (fastSeated seat ok) = d ∧ (d.card.roomid = true → d.card.seatid = false)) ∨
    d.run (fastSeated seat ok) = { d with card := d.card.seated } := by
  let c := d.card
  have hadvance : (fastSeated seat ok).advance c =
      (if ok = false ∨ seat.in_nosit = true then
        if c.roomid = true ∧ c.seatid = true then unseat else pure ()
      else if seat.rich = true then unseat
      else if c.seatid = true then SitResp true
      else pure () : Handler Unit).advance c := rfl
  by_cases hback : ok = false ∨ seat.in_nosit = true
  · rw [if_pos hback] at hadvance
    by_cases hseat : c.roomid = true ∧ c.seatid = true
    · rw [if_pos hseat] at hadvance
      exact .inl (run_of_call hadvance)
    · rw [if_neg hseat] at hadvance
      refine .inr (.inl ⟨run_of_done hadvance, fun hroom => ?_⟩)
      rw [← Bool.not_eq_true]
      exact fun hs => hseat ⟨hroom, hs⟩
  · rw [if_neg hback] at hadvance
    by_cases hrich : seat.rich = true
    · rw [if_pos hrich] at hadvance
      exact .inl (run_of_call hadvance)
    · rw [if_neg hrich] at hadvance
      by_cases hseat : c.seatid = true
      · rw [if_pos hseat] at hadvance
        exact .inr (.inr (run_of_done hadvance))
      · rw [if_neg hseat] at hadvance
        exact .inr (.inl ⟨run_of_done hadvance, fun _ => by rwa [← Bool.not_eq_true]⟩)

theorem run_fastEntered (d : Desk) (seat : FastSeat) :
    d.run (fastEntered seat) =
      if seat.isprotect = true then
        ⟨d.card, d.pending ++ [⟨.BreakProtect, fastSeated seat⟩]⟩
      else d.run (fastSeated seat true) := by
  unfold fastEntered
  by_cases hprotect : seat.isprotect = true
  · rw [if_pos hprotect, if_pos hprotect]
    exact run_of_call rfl
  · rw [if_neg hprotect, if_neg hprotect]

end Runs

end Desk

end ScratchCard

end Agent

end DnServer.Bullfight
