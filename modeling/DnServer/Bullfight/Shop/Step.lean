import DnServer.Bullfight.Shop.State

/-!
# The shop: a purchase

What `EVENT_SHOP` makes of a request, and `SQL_SHOP`, which stores it.
-/

namespace DnServer.Bullfight

open DnServer.Lib

namespace Shop

/-! ## `EVENT_SHOP` -/

/-- The request `EVENT_SHOP` hands to the database. -/
def shopMsg (now : ℤ) (tool : Goods) (conf : Conf) : Msg :=
  let base : Msg :=
    { uid := conf.uid, fid := conf.fid, goodsid := conf.goodsid, count := conf.count,
      kind := tool.typeid, todb := true, num := tool.ucount, lasttime := 0, stime := now, status := 1,
      money := 0, resean := conf.resean.getD "0", order_nu := conf.order_nu }
  let msg : Msg :=
    if tool.typeid = 1 ∨ tool.typeid = 3 then
      let card : Msg :=
        { base with
          money := (tool.fmoney + tool.dmoney) * conf.count
          todb := tool.dmoney ≠ 0
          num := if tool.ucount ≠ 0 then tool.ucount - 1 else tool.ucount }
      if tool.typeid = 1 then
        { card with lasttime := tool.udays * (24 * 60 * 60), todb := true, num := 0 }
      else card
    else if tool.typeid = 2 then { base with stime := 0, status := 0 }
    else if tool.typeid = 4 then { base with status := 0 }
    else if tool.typeid = 5 then { base with lasttime := tool.udays * (60 * 60) }
    else base
  if conf.firstbuy = some 0 ∧ conf.goodsid = 7 then
    { msg with money := msg.money + serverconf.firstbuy_tool }
  else msg

@[simp] theorem shopMsg_order_nu (now : ℤ) (tool : Goods) (conf : Conf) :
    (shopMsg now tool conf).order_nu = conf.order_nu := by
  unfold shopMsg
  split_ifs <;> rfl

/-- The free face cards that go with a purchase for money, unless it is of a VIP
card; the first goods of that type in the order of `pairs`. -/
def freeCard (now : ℤ) (goods : GoodsTable) (conf : Conf) : Option Msg :=
  if conf.isshop ∧ (goods.get? conf.goodsid).map Goods.typeid ≠ some 1 then
    (goods.pairs.find? fun p => p.2.typeid = 6).map fun p =>
      { uid := conf.uid, fid := 0, goodsid := p.1, count := conf.count, kind := p.2.typeid,
        todb := true, num := p.2.ucount, lasttime := p.2.udays * (24 * 60 * 60), stime := now,
        status := 1, money := 0, resean := "0", order_nu := none }
  else none

/-! ## `SQL_SHOP` -/

/-- The time the new tools of a kind that is in use one after the other begin. -/
def beginTime (o : Outcomes) (tools : List ToolRow) (msg : Msg) : ℤ :=
  let result :=
    if o.readTools then
      tools.filter fun row => row.uid = msg.uid ∧ row.tid = msg.goodsid ∧ row.status = 1
    else []
  let stime := result.foldl
    (fun stime row => if stime < row.utime ∧ row.utime + msg.lasttime > o.now then row.utime else stime) 0
  if stime = 0 then o.now else stime + msg.lasttime

/-- The rows that the statements from number `i` on insert, the first to begin at
`stime`, and how many of them fail. -/
def insertTools (o : Outcomes) (msg : Msg) (step : ℤ) : ℕ → ℕ → ℤ → List ToolRow × ℕ
  | 0, _, _ => ([], 0)
  | left + 1, i, stime =>
    if o.insertTool i then
      let (rows, errn) := insertTools o msg step left (i + 1) (stime + step)
      (⟨msg.uid, msg.fid, msg.goodsid, msg.status, o.now, stime, msg.num, msg.resean⟩ :: rows, errn)
    else
      let (rows, errn) := insertTools o msg step left (i + 1) stime
      (rows, errn + 1)

/-- The tools part of `SQL_SHOP`: the rows that are inserted, and how many failed. -/
def storeTools (o : Outcomes) (tools : List ToolRow) (msg : Msg) : List ToolRow × ℕ :=
  if msg.todb then
    if msg.kind = 1 ∨ msg.kind = 5 ∨ msg.kind = 6 then
      insertTools o msg msg.lasttime msg.count.toNat 0 (beginTime o tools msg)
    else insertTools o msg 0 msg.count.toNat 0 msg.stime
  else ([], 0)

/-- How a purchase ends: answered, or in a Lua error without an answer. -/
inductive Ending
  | answered (shopret : Bool)
  | raised
deriving DecidableEq

/-- The last statement of `SQL_SHOP`, for a purchase that has an order number. A
failure is to be logged, which raises. -/
def markOrder (o : Outcomes) (db : Database) (msg : Msg) : Database × Ending :=
  match msg.order_nu with
  | none => (db, .answered true)
  | some order_nu =>
    if o.markOrder then
      ({ db with recharge := db.recharge.modify order_nu fun r => { r with responsestatus := 3 } },
        .answered true)
    else (db, .raised)

/-- `sqlpfid`, `nil` where there is no `pfid` to take it from; `none` where it is the
product with `nil` that raises. -/
def sqlpfid (o : Outcomes) : Option (Option ℤ) :=
  let platfrom := o.platfrom.getD 0
  if platfrom > 0 then o.pfid.map fun pfid => some (pfid * 100 + platfrom) else some o.pfid

/-- The log of the coins does not raise: its statement takes `sqlpfid` for a `%d`. -/
def logsMoney (o : Outcomes) : Bool :=
  match sqlpfid o with
  | none => false
  | some pfid => !o.readMoney || pfid.isSome

/-- `command[SQL_SHOP]`. A tool that cannot be inserted is to be logged, which
raises. -/
def sqlShop (o : Outcomes) (db : Database) (msg : Msg) : Database × Ending :=
  if o.readPlayer ∧ msg.uid ∈ db.gamecurrency then
    let (rows, errn) := storeTools o db.tools msg
    let db := { db with tools := db.tools ++ rows }
    if errn ≠ 0 then (db, .raised)
    else if msg.money ≠ 0 then
      if o.addMoney then
        let db := { db with gamecurrency := db.gamecurrency.modify msg.uid fun n => n + msg.money }
        -- the coins are there, and the order is still open
        if logsMoney o then markOrder o db msg else (db, .raised)
      else (db, .answered false)
    else markOrder o db msg
  else (db, .answered false)

/-- `command[SQL_GET_ORDER]`: the order, if it is not yet marked as delivered. -/
def sqlGetOrder (db : Database) (order_nu : OrderNu) : Option Order :=
  (db.recharge.get? order_nu).filter fun order => order.responsestatus ≠ 3

/-- `command[SQL_FIRST_BUYER]`: how many orders the player has paid and received. -/
def sqlFirstBuyer (db : Database) (fid : Uid) : ℕ :=
  (db.recharge.pairs.filter fun p =>
    p.2.uid = fid ∧ p.2.paystatus = 1 ∧ p.2.responsestatus = 3).length

/-! ## What a purchase stores -/

/-- The tools part inserts a row. -/
def Inserts (o : Outcomes) (msg : Msg) : Prop :=
  msg.todb = true ∧ ∃ i < msg.count.toNat, o.insertTool i = true

/-- No tool fails to be inserted. -/
def InsertsAll (o : Outcomes) (msg : Msg) : Prop :=
  msg.todb = true → ∀ i < msg.count.toNat, o.insertTool i = true

/-- The player is found. -/
def Known (o : Outcomes) (db : Database) (msg : Msg) : Prop :=
  o.readPlayer = true ∧ msg.uid ∈ db.gamecurrency

/-- The purchase inserts a tool or changes the player's money. -/
def Grants (o : Outcomes) (db : Database) (msg : Msg) : Prop :=
  Known o db msg ∧
    (Inserts o msg ∨ (InsertsAll o msg ∧ msg.money ≠ 0 ∧ o.addMoney = true))

/-- No statement of the purchase fails once the player is found. -/
def Completes (o : Outcomes) (msg : Msg) : Prop :=
  InsertsAll o msg ∧ (msg.money ≠ 0 → o.addMoney = true ∧ logsMoney o = true) ∧
    o.markOrder = true

instance (o : Outcomes) (msg : Msg) : Decidable (Inserts o msg) :=
  inferInstanceAs (Decidable (_ ∧ _))

instance (o : Outcomes) (msg : Msg) : Decidable (InsertsAll o msg) :=
  inferInstanceAs (Decidable (_ → _))

instance (o : Outcomes) (db : Database) (msg : Msg) : Decidable (Known o db msg) :=
  inferInstanceAs (Decidable (_ ∧ _))

instance (o : Outcomes) (db : Database) (msg : Msg) : Decidable (Grants o db msg) :=
  inferInstanceAs (Decidable (_ ∧ _))

instance (o : Outcomes) (msg : Msg) : Decidable (Completes o msg) :=
  inferInstanceAs (Decidable (_ ∧ _))

theorem insertTools_none (o : Outcomes) (msg : Msg) (step : ℤ) (left i : ℕ) (stime : ℤ) :
    (insertTools o msg step left i stime).1 = [] ↔ ∀ j < left, o.insertTool (i + j) = false := by
  induction left generalizing i stime with
  | zero => simp [insertTools]
  | succ left ih =>
    rw [insertTools]
    by_cases hi : o.insertTool i = true
    · rw [if_pos hi]
      simp only [reduceCtorEq, false_iff, not_forall]
      exact ⟨0, by omega, by simp [hi]⟩
    · rw [if_neg hi]
      show (insertTools o msg step left (i + 1) stime).1 = [] ↔ _
      rw [ih]
      constructor
      · intro h j hj
        cases j with
        | zero => simpa using hi
        | succ j => rw [← Nat.add_assoc, Nat.add_right_comm]; exact h j (by omega)
      · intro h j hj
        rw [Nat.add_right_comm]
        exact h (j + 1) (by omega)

theorem insertTools_errn (o : Outcomes) (msg : Msg) (step : ℤ) (left i : ℕ) (stime : ℤ) :
    (insertTools o msg step left i stime).2 = 0 ↔ ∀ j < left, o.insertTool (i + j) = true := by
  induction left generalizing i stime with
  | zero => simp [insertTools]
  | succ left ih =>
    rw [insertTools]
    by_cases hi : o.insertTool i = true
    · rw [if_pos hi]
      show (insertTools o msg step left (i + 1) (stime + step)).2 = 0 ↔ _
      rw [ih]
      constructor
      · intro h j hj
        cases j with
        | zero => exact hi
        | succ j => rw [← Nat.add_assoc, Nat.add_right_comm]; exact h j (by omega)
      · intro h j hj
        rw [Nat.add_right_comm]
        exact h (j + 1) (by omega)
    · rw [if_neg hi]
      simp only [Nat.add_eq_zero_iff, one_ne_zero, and_false, false_iff, not_forall]
      exact ⟨0, by omega, hi⟩

theorem storeTools_none (o : Outcomes) (tools : List ToolRow) (msg : Msg) :
    (storeTools o tools msg).1 = [] ↔ ¬ Inserts o msg := by
  have hrows : ∀ (step stime : ℤ), (insertTools o msg step msg.count.toNat 0 stime).1 = [] ↔
      ¬ ∃ i < msg.count.toNat, o.insertTool i = true := by
    intro step stime
    rw [insertTools_none]
    simp
  unfold storeTools Inserts
  by_cases htodb : msg.todb = true
  · rw [if_pos htodb]
    simp only [htodb, true_and]
    split_ifs
    · exact hrows _ _
    · exact hrows _ _
  · simp [htodb]

theorem storeTools_errn (o : Outcomes) (tools : List ToolRow) (msg : Msg) :
    (storeTools o tools msg).2 = 0 ↔ InsertsAll o msg := by
  have herrn : ∀ (step stime : ℤ), (insertTools o msg step msg.count.toNat 0 stime).2 = 0 ↔
      ∀ i < msg.count.toNat, o.insertTool i = true := by
    intro step stime
    rw [insertTools_errn]
    simp
  unfold storeTools InsertsAll
  by_cases htodb : msg.todb = true
  · rw [if_pos htodb]
    simp only [htodb, true_imp_iff]
    split_ifs
    · exact herrn _ _
    · exact herrn _ _
  · simp [htodb]

/-- The database with the tools that could be inserted. -/
def withTools (o : Outcomes) (db : Database) (msg : Msg) : Database :=
  { db with tools := db.tools ++ (storeTools o db.tools msg).1 }

/-- The money statement. -/
def withMoney (db : Database) (msg : Msg) : Database :=
  { db with gamecurrency := db.gamecurrency.modify msg.uid fun n => n + msg.money }

/-- What `SQL_SHOP` does. -/
inductive ShopCase (o : Outcomes) (db : Database) (msg : Msg) : Database × Ending → Prop
  | unknown : ¬ Known o db msg → ShopCase o db msg (db, .answered false)
  | toolFailed : Known o db msg → ¬ InsertsAll o msg →
      ShopCase o db msg (withTools o db msg, .raised)
  | moneyFailed : Known o db msg → InsertsAll o msg → msg.money ≠ 0 → o.addMoney = false →
      ShopCase o db msg (withTools o db msg, .answered false)
  | logFailed : Known o db msg → InsertsAll o msg → msg.money ≠ 0 → o.addMoney = true →
      logsMoney o = false → ShopCase o db msg (withMoney (withTools o db msg) msg, .raised)
  | paid : Known o db msg → InsertsAll o msg → msg.money ≠ 0 → o.addMoney = true →
      logsMoney o = true →
      ShopCase o db msg (markOrder o (withMoney (withTools o db msg) msg) msg)
  | toolsOnly : Known o db msg → InsertsAll o msg → msg.money = 0 →
      ShopCase o db msg (markOrder o (withTools o db msg) msg)

theorem sqlShop_case (o : Outcomes) (db : Database) (msg : Msg) :
    ShopCase o db msg (sqlShop o db msg) := by
  unfold sqlShop
  by_cases hknown : Known o db msg
  · rw [if_pos (show o.readPlayer = true ∧ msg.uid ∈ db.gamecurrency from hknown)]
    show ShopCase o db msg (if (storeTools o db.tools msg).2 ≠ 0 then (withTools o db msg, .raised)
      else if msg.money ≠ 0 then
        if o.addMoney then
          if logsMoney o then markOrder o (withMoney (withTools o db msg) msg) msg
          else (withMoney (withTools o db msg) msg, .raised)
        else (withTools o db msg, .answered false)
      else markOrder o (withTools o db msg) msg)
    by_cases hall : InsertsAll o msg
    · rw [if_neg (not_not.mpr ((storeTools_errn o db.tools msg).mpr hall))]
      by_cases hmoney : msg.money = 0
      · rw [if_neg (not_not.mpr hmoney)]
        exact .toolsOnly hknown hall hmoney
      · rw [if_pos hmoney]
        by_cases hadd : o.addMoney = true
        · rw [if_pos hadd]
          cases hlogs : logsMoney o with
          | true => exact .paid hknown hall hmoney hadd hlogs
          | false => exact .logFailed hknown hall hmoney hadd hlogs
        · rw [if_neg hadd]
          exact .moneyFailed hknown hall hmoney (by simpa using hadd)
    · rw [if_pos (fun h => hall ((storeTools_errn o db.tools msg).mp h))]
      exact .toolFailed hknown hall
  · rw [if_neg (show ¬ (o.readPlayer = true ∧ msg.uid ∈ db.gamecurrency) from hknown)]
    exact .unknown hknown

/-- The last statement touches the orders only. -/
theorem markOrder_rest (o : Outcomes) (db : Database) (msg : Msg) :
    (markOrder o db msg).1.gamecurrency = db.gamecurrency ∧ (markOrder o db msg).1.tools = db.tools := by
  unfold markOrder
  cases msg.order_nu with
  | none => exact ⟨rfl, rfl⟩
  | some order_nu => cases o.markOrder <;> exact ⟨rfl, rfl⟩

theorem withTools_of_not_inserts {o : Outcomes} {msg : Msg} (h : ¬ Inserts o msg)
    (db : Database) : withTools o db msg = db := by
  unfold withTools
  rw [(storeTools_none o db.tools msg).mpr h, List.append_nil]

theorem markOrder_mem (o : Outcomes) {db : Database} (msg : Msg) {order_nu : OrderNu}
    (h : order_nu ∈ db.recharge) : order_nu ∈ (markOrder o db msg).1.recharge := by
  unfold markOrder
  cases msg.order_nu with
  | none => exact h
  | some k => cases o.markOrder <;> simpa using h

/-- A purchase keeps the orders. -/
theorem sqlShop_mem (o : Outcomes) {db : Database} (msg : Msg) {order_nu : OrderNu}
    (h : order_nu ∈ db.recharge) : order_nu ∈ (sqlShop o db msg).1.recharge := by
  have hcase := sqlShop_case o db msg
  generalize sqlShop o db msg = r at hcase ⊢
  cases hcase with
  | paid => exact markOrder_mem o msg h
  | toolsOnly => exact markOrder_mem o msg h
  | _ => exact h

/-- A purchase that grants nothing leaves money and tools as they were. -/
theorem sqlShop_of_not_grants {o : Outcomes} {db : Database} {msg : Msg}
    (h : ¬ Grants o db msg) :
    (sqlShop o db msg).1.gamecurrency = db.gamecurrency ∧ (sqlShop o db msg).1.tools = db.tools := by
  have hcase := sqlShop_case o db msg
  have hno : Known o db msg → ¬ Inserts o msg := fun hknown hins => h ⟨hknown, .inl hins⟩
  generalize sqlShop o db msg = r at hcase ⊢
  cases hcase with
  | unknown => exact ⟨rfl, rfl⟩
  | toolFailed hknown =>
    rw [withTools_of_not_inserts (hno hknown)]
    exact ⟨rfl, rfl⟩
  | moneyFailed hknown =>
    rw [withTools_of_not_inserts (hno hknown)]
    exact ⟨rfl, rfl⟩
  | logFailed hknown hall hmoney hadd => exact absurd ⟨hknown, .inr ⟨hall, hmoney, hadd⟩⟩ h
  | paid hknown hall hmoney hadd => exact absurd ⟨hknown, .inr ⟨hall, hmoney, hadd⟩⟩ h
  | toolsOnly hknown =>
    rw [withTools_of_not_inserts (hno hknown)]
    exact markOrder_rest o db msg

end Shop

end DnServer.Bullfight
