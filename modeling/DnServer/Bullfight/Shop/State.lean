import DnServer.Lib.Table
import DnServer.Bullfight.Types

/-!
# The shop: data

The goods of `shop.lua`, the request that `EVENT_SHOP` fills in and hands to the
database, and the tables of `database.lua` a purchase reads or writes.
-/

namespace DnServer.Bullfight

open DnServer.Lib

namespace Shop

abbrev GoodsId := ℤ

abbrev OrderNu := String

/-- An entry of `goods`. -/
structure Goods where
  typeid : ℤ
  udays : ℤ
  fmoney : ℤ
  dmoney : ℤ
  ucount : ℤ
  cow_price : ℚ
deriving DecidableEq

abbrev GoodsTable := Table GoodsId Goods

/-- A purchase as it reaches the shop. -/
structure Conf where
  uid : Uid
  fid : Uid
  goodsid : GoodsId
  count : ℤ
  /-- `none` where the caller does not know. -/
  firstbuy : Option ℕ
  order_nu : Option OrderNu
  isshop : Bool
  resean : Option String
deriving DecidableEq

/-- What `SQL_SHOP` is sent. -/
structure Msg where
  uid : Uid
  fid : Uid
  goodsid : GoodsId
  count : ℤ
  kind : ℤ
  todb : Bool
  num : ℤ
  lasttime : ℤ
  stime : ℤ
  status : ℤ
  money : ℤ
  resean : String
  order_nu : Option OrderNu
deriving DecidableEq

/-- A row of `dt_member_tool`. -/
structure ToolRow where
  uid : Uid
  fromuid : Uid
  tid : GoodsId
  status : ℤ
  atime : ℤ
  utime : ℤ
  num : ℤ
  remark : String
deriving DecidableEq

/-- A row of `dt_member_recharge`. -/
structure Order where
  uid : Uid
  goodsid : GoodsId
  goodsnum : ℤ
  suid : Uid
  paystatus : ℤ
  responsestatus : ℤ
deriving DecidableEq

/-- The tables of the database. -/
structure Database where
  /-- `gamecurrency` of the rows of `dt_member_game`. -/
  gamecurrency : Table Uid ℤ
  tools : List ToolRow
  recharge : Table OrderNu Order
deriving DecidableEq

/-- The outcomes of a purchase's statements, in the order they are run, and the
time. -/
structure Outcomes where
  now : ℤ
  readPlayer : Bool
  readTools : Bool
  insertTool : ℕ → Bool
  addMoney : Bool
  readMoney : Bool
  /-- What `GetPfid` finds; `nil` where a query fails or the player has no row. -/
  pfid : Option ℤ
  platfrom : Option ℤ
  markOrder : Bool

/-- Every statement succeeds. -/
def Outcomes.good (now : ℤ) : Outcomes :=
  ⟨now, true, true, fun _ => true, true, true, some 1, some 0, true⟩

end Shop

end DnServer.Bullfight
