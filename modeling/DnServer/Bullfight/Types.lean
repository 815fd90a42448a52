import Mathlib

/-!
# Constants of the bullfight services

From `types.lua`, `errorcode.lua` and `serverconf.lua`: the poker types and
their multipliers, the bet caps, the error codes the services answer with.
-/

namespace DnServer.Bullfight

abbrev Uid := ℕ

/-- A service address. -/
abbrev Address := ℕ

namespace types

abbrev GAME_TYPE_BULLFIGHT : ℕ := 11

abbrev PT_NO_BULL : ℤ := 0
abbrev PT_BULL_BULL : ℤ := 10
abbrev PT_SILVE_BULL : ℤ := 11
abbrev PT_GOLD_BULL : ℤ := 12
abbrev PT_BOMB : ℤ := 13
abbrev PT_ALL_SMALL_BULL : ℤ := 14

/-- Multiplier of each poker type; `none` is the `nil` of a missing index. -/
def bulladd (t : ℤ) : Option ℤ :=
  if 0 ≤ t ∧ t ≤ 6 then some 1
  else if 7 ≤ t ∧ t ≤ 9 then some 2
  else if t = 10 then some 3
  else if t = 11 then some 4
  else if t = 12 then some 5
  else if t = 13 then some 6
  else if t = 14 then some 10
  else none

/-- Bet caps, in multiples of the base bet. -/
def upling : List ℕ := [1, 3, 5, 7, 10]

/-- `upling[#upling]`. -/
def uplingTop : ℕ := 10

/-- What the safe box of a player of this VIP level may hold. -/
def SAFE_BOX_MAX_MONEY : ℕ → Option ℚ
  | 0 => some 0
  | 1 => some 1000000
  | 2 => some 6000000
  | 3 => some 40000000
  | 4 => some 1000000000
  | _ => none

/-- The game types that have a server (`server_name.game`). -/
def gameServer (gametype : ℤ) : Bool := (0 ≤ gametype ∧ gametype ≤ 5) ∨ gametype = 11

/-- Every poker type has a multiplier, at least 1. -/
theorem bulladd_isSome {t : ℤ} (h0 : 0 ≤ t) (h14 : t ≤ 14) :
    ∃ n, bulladd t = some n ∧ 1 ≤ n := by
  unfold bulladd
  split_ifs <;> first | exact ⟨_, rfl, by norm_num⟩ | omega

end types

/-! ## Server configuration -/

namespace serverconf

abbrev TEST_MODEL : Bool := false
abbrev test_IP1 : String := "10.4.7.243"
abbrev test_IP2 : String := "183.13.102.129"

/-- The extra money with a player's first purchase of goods 7. -/
abbrev firstbuy_tool : ℤ := 7000

/-- What a player may lose in a day: entry 0 in all rooms together, entries 1 to
3 in a room of that type. -/
def uplosemoney (roomtype : ℤ) : Option ℚ :=
  if roomtype = 0 then some (-80000000)
  else if roomtype = 1 then some (-80000)
  else if roomtype = 2 then some (-300000)
  else if roomtype = 3 then some (-6000000)
  else none

/-- `uplosemoney[0]`. -/
abbrev uplosemoneySum : ℚ := -80000000

/-- The money at which a player is moved to another room, entries 1 to 7. -/
def changeroom : ℕ → ℚ
  | 1 => 10000
  | 2 => 15000
  | 3 => 40000
  | 4 => 60000
  | 5 => 100000
  | 6 => 300000
  | _ => 600000

/-- The base bets of the rooms, entries 1 to 8. -/
def basebet : ℕ → ℤ
  | 1 => 50
  | 2 => 80
  | 3 => 150
  | 4 => 300
  | 5 => 500
  | 6 => 2000
  | 7 => 5000
  | _ => 10000

end serverconf

/-! ## Error codes -/

namespace errorcode

abbrev ROOM_IS_FULL : ℤ := 1
abbrev SEAT_HAVE_PLAYER : ℤ := 2
abbrev PLAYER_NOT_IN_ROOM : ℤ := 3
abbrev PLAYER_IS_NOT_SIT : ℤ := 5
abbrev HAVE_NO_THIS_ROOM : ℤ := 6
abbrev HAVE_NO_THIS_SEAT : ℤ := 7
abbrev NOT_THE_SAME_CARDS : ℤ := 8
abbrev CARDS_TYPE_ERROR : ℤ := 9
abbrev CARDS_SIZE_ERROR : ℤ := 10
abbrev GAME_HAVE_STARTED : ℤ := 11
abbrev LOGIN_AT_OTHER : ℤ := 15
abbrev FAST_ENTER_FAILED : ℤ := 16
abbrev HAVE_NO_ENOUGH_MONEY : ℤ := 17
abbrev PLAYER_BE_BLOCKED : ℤ := 19
abbrev SERVER_CLOSED : ℤ := 20
abbrev BET_MONEY_ERROR : ℤ := 101
abbrev OVER_LOSE_LIMIT : ℤ := 300
abbrev OVER_SUMLOSE_LIMIT : ℤ := 301

end errorcode

end DnServer.Bullfight
