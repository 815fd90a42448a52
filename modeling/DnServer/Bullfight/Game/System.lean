import DnServer.Lib.Transition
import DnServer.Bullfight.Game.Step

/-!
# The game service as a transition system

One step is one dispatch: a message of the `game` protocol, a timeout that comes
due, a new configuration, or nothing but another traversal order of the tables
(the source's `pairs` promises none).
-/

namespace DnServer.Bullfight

open DnServer.Lib

namespace Game

inductive Event
  | msg (uid : Uid) (address : Address) (m : Msg)
  | timeout (n : ℕ)
  | update (conf : GameConf)
  | rehash
deriving DecidableEq

/-- What a dispatch does, an error included: `rehash` is no dispatch. -/
def handle (env : Env) (g : Game) : Event → Result
  | .msg uid address m => g.dispatch env uid address m
  | .timeout n => g.fire env n
  | .update conf => return g.needUpdateGameconf conf
  | .rehash => return g.begin

/-- `t` is `g` with other traversal orders. -/
def Rehash (g t : Game) : Prop :=
  ∃ seater gameplayer players, g.seater.SameEntries seater ∧
    g.gameplayer.SameEntries gameplayer ∧ g.players.SameEntries players ∧
    t = { g.begin with seater := seater, gameplayer := gameplayer, players := players }

/-- The money a message reports. -/
def Msg.reported : Msg → Option ℚ
  | .playerMoney money => some money
  | .someOneGrab _ money => some money
  | .loserGetResult money => some money
  | .bankerMoney money => some money
  | _ => none

/-- What the agents promise: reported money is not negative, and only a player
at the table sits down. A configuration goes to the table of its room. -/
def Admissible (g : Game) : Event → Prop
  | .msg uid _ m => (∀ money, m.reported = some money → 0 ≤ money) ∧
      (m = .someOneSit → uid ∈ g.players)
  | .update conf => conf.roomid = g.id
  | _ => True

/-- One step; a handler that raises leaves the table as it was at the error. -/
def Step (g : Game) (e : Event) (t : Game) : Prop :=
  Admissible g e ∧
    match e with
    | .rehash => Rehash g t
    | e => ∃ env, t = Handler.after (g.handle env e)

def system : TSys Game Event where
  init g := ∃ conf, g = creatGame conf
  step := Step

/-! ## Evaluation -/

/-- A service whose clock stands still and that is not about to close. -/
def Env.quiet : Env where
  now := 0
  rnd _ := 0
  sort := KeySort.insertion
  upling := types.upling
  upling_perm := List.Perm.refl _
  serverClose := false
  otherGameStart := false

/-- A room with the times of `room.lua` and a base bet of 50. -/
def GameConf.base50 : GameConf where
  roomid := 1
  gametype := types.GAME_TYPE_BULLFIGHT
  roomtype := 1
  basebet := 50
  ticket := 1 / 2
  bankerticket := 1 / 2
  waitstarttime := 2
  grabbankertime := 7
  bettime := 8
  waitbettime := 6
  dealpokertime := 1
  choicepokertime := 20
  waitshowresulttime := 1
  showresulttime := 7
  bullfight := rfl
  basebet_pos := by decide

/-- Two players enter and sit down, and the round starts. -/
def twoSit : List Event :=
  [.msg 1 101 .someOneEnter, .msg 2 102 .someOneEnter, .msg 1 101 .someOneSit,
    .msg 2 102 .someOneSit, .timeout 0]

/-- Both want the bank, the first gets it, the other bets, and no one chooses in
time: the table waits for the results, the second player having lost. -/
def toResults : List Event :=
  twoSit ++ [.msg 1 101 (.someOneGrab 1 10000), .msg 2 102 (.someOneGrab 1 10000), .timeout 1,
    .msg 2 102 (.someOneBet 50), .timeout 2, .timeout 2]

instance (g : Game) : (e : Event) → Decidable (Admissible g e)
  | .msg uid _ m =>
    decidable_of_iff (m.reported.all (fun money => decide (0 ≤ money)) = true ∧
      (m = .someOneSit → uid ∈ g.players)) (by
        cases h : m.reported <;> simp [Admissible, h])
  | .timeout _ => inferInstanceAs (Decidable True)
  | .update conf => inferInstanceAs (Decidable (conf.roomid = g.id))
  | .rehash => inferInstanceAs (Decidable True)

/-- One admissible step in `env`. -/
def exec (env : Env) (g : Game) (e : Event) : Option Game :=
  if Admissible g e then some (Handler.after (handle env g e)) else none

theorem exec_step (env : Env) (g : Game) (e : Event) (t : Game) (h : exec env g e = some t) :
    system.step g e t := by
  unfold exec at h
  by_cases ha : Admissible g e
  · rw [if_pos ha] at h
    obtain rfl := Option.some.inj h
    cases e with
    | rehash =>
      refine ⟨ha, g.seater, g.gameplayer, g.players, ?_, ?_, ?_, rfl⟩
      · exact Table.SameEntries.refl _
      · exact Table.SameEntries.refl _
      · exact Table.SameEntries.refl _
    | _ => exact ⟨ha, env, rfl⟩
  · rw [if_neg ha] at h
    cases h

end Game

end DnServer.Bullfight
