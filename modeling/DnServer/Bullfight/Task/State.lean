import DnServer.Lib.Transition
import DnServer.Bullfight.Types

/-!
# Daily tasks: the table and the command

`SQL_COMPLETE_TASK` of `database.lua` on the table `taskconf`, with the counts of
`taskconf.lua`. Which row a query returns first is the database's choice.
-/

namespace DnServer.Bullfight

open DnServer.Lib

namespace Task

abbrev TaskId := ℕ

/-- A day, as `%Y%m%d` writes it. -/
abbrev Date := ℕ

/-! ## Configuration -/

namespace id

abbrev play_5 : TaskId := 1001
abbrev learn_course : TaskId := 1026
abbrev qq_vip : TaskId := 1028
abbrev qq_vip_course : TaskId := 1033
abbrev microblog : TaskId := 1034

end id

/-- The entries of `task.count`. -/
def counts : List (TaskId × ℕ) :=
  [(1001, 7), (1002, 4), (1003, 4), (1004, 4), (1011, 1), (1012, 1), (1013, 1), (1026, 1), (1027, 1),
    (1028, 1), (1029, 1), (1030, 2), (1031, 1), (1033, 1), (1034, 1), (1100, 2), (1101, 4), (1102, 20),
    (1201, 1), (1202, 1), (1203, 1), (1204, 1), (1205, 1), (1206, 1), (1207, 1), (1208, 1), (1209, 1),
    (1210, 1), (1211, 1), (1212, 1), (1300, 1), (1301, 1), (1302, 1), (1303, 1), (1304, 1), (1305, 1),
    (1306, 1), (1307, 1), (1308, 1), (1309, 1), (1310, 1), (1311, 1), (1312, 1), (1313, 1), (1314, 1),
    (1402, 6)]

/-- `task.count[taskid]`. -/
def count (taskid : TaskId) : Option ℕ := (counts.find? fun p => p.1 = taskid).map Prod.snd

/-- Every configured count is at least 1. -/
theorem one_le_count {taskid : TaskId} {c : ℕ} (h : count taskid = some c) : 1 ≤ c := by
  obtain ⟨p, hp, rfl⟩ := Option.map_eq_some_iff.mp h
  have hall : ∀ p ∈ counts, 1 ≤ p.2 := by decide
  exact hall p (List.mem_of_find?_eq_some hp)

/-! ## The table -/

/-- A row of the table. -/
structure Row where
  uid : Uid
  taskid : TaskId
  num : ℕ
  date : Date
  pfid : ℤ
deriving DecidableEq

structure Msg where
  uid : Uid
  taskid : TaskId
  date : Date
  pfid : ℤ
deriving DecidableEq

/-- The server's day, the outcomes of the statements, and the row a query returns
first. -/
structure Env where
  date : Date
  query : Bool
  exec : Bool
  pick : ℕ
deriving DecidableEq

/-- `result[1]` of a query that returns `rows` in some order. -/
def first (pick : ℕ) (rows : List Row) : Option Row := rows[pick % rows.length]?

/-! ## The command -/

/-- Tasks that a player has once, not once a day. -/
def IsCourse (taskid : TaskId) : Prop :=
  taskid = id.play_5 ∨ taskid = id.qq_vip_course ∨ taskid = id.learn_course

/-- Tasks of which a player has one a day. -/
def IsVip (taskid : TaskId) : Prop := taskid = id.qq_vip ∨ taskid = id.microblog

instance (taskid : TaskId) : Decidable (IsCourse taskid) := inferInstanceAs (Decidable (_ ∨ _))

instance (taskid : TaskId) : Decidable (IsVip taskid) := inferInstanceAs (Decidable (_ ∨ _))

/-- The rows the command's query selects. -/
def selected (rows : List Row) (msg : Msg) : List Row :=
  if IsCourse msg.taskid then rows.filter fun r => r.uid = msg.uid ∧ r.taskid = msg.taskid
  else if IsVip msg.taskid then
    rows.filter fun r => r.uid = msg.uid ∧ IsVip r.taskid ∧ r.date = msg.date
  else rows.filter fun r => r.uid = msg.uid ∧ r.taskid = msg.taskid ∧ r.date = msg.date

/-- What the command makes of the query. -/
inductive Verdict
  /-- `ret` stays false. -/
  | no (num : ℕ)
  /-- The first time: a row is inserted. -/
  | insert
  /-- The row's number becomes `num`. -/
  | update (num : ℕ)
  /-- A task without a count is compared with `nil`. -/
  | raise
deriving DecidableEq

/-- The comparison of a row's number with the task's count. -/
def compareCount (taskid : TaskId) (num : ℕ) : Verdict :=
  match count taskid with
  | none => .raise
  | some c => if num < c then .update (num + 1) else .no num

def verdict (env : Env) (rows : List Row) (msg : Msg) : Verdict :=
  if env.query then
    match first env.pick (selected rows msg) with
    | none => .insert
    | some row =>
      if IsCourse msg.taskid ∧ env.date = row.date then .no row.num
      else compareCount msg.taskid row.num
  else .no 0

/-- `command[SQL_COMPLETE_TASK]`: the table, and the answer unless it raises. -/
def completeTask (env : Env) (rows : List Row) (msg : Msg) : List Row × Option (Bool × ℕ) :=
  match verdict env rows msg with
  | .raise => (rows, none)
  | .no num => (rows, some (false, num))
  | .insert =>
    if env.exec then (rows ++ [⟨msg.uid, msg.taskid, 1, env.date, msg.pfid⟩], some (true, 1))
    else (rows, some (false, 1))
  | .update num =>
    if env.exec then
      (rows.map fun r => if r.date = env.date ∧ r.uid = msg.uid ∧ r.taskid = msg.taskid then
          { r with num := num } else r,
        some (true, num))
    else (rows, some (false, num))

end Task

end DnServer.Bullfight
