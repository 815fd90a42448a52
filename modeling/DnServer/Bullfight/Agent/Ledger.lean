import DnServer.Bullfight.Agent.State

/-!
# The four ledgers of a player's money

`LoseMoney` and `AddMoney` keep `money`, `upmoney` and, for play at the table, `sumlose` and
the room's entry of `uplose`. `LoseMoney` writes the last two before it looks at the
balance: a debit it refuses still counts as lost.
-/

namespace DnServer.Bullfight

open DnServer.Lib

namespace Agent

/-! ## Calls -/

/-- A call of `LoseMoney` or `AddMoney`. -/
inductive MoneyCall
  | LoseMoney (losemoney : ℚ) (loseid : MoneyId)
  | AddMoney (money : ℚ) (addid : MoneyId)
deriving DecidableEq

namespace MoneyCall

def run : MoneyCall → Handler Unit
  | .LoseMoney losemoney loseid => Agent.LoseMoney losemoney loseid
  | .AddMoney money addid => Agent.AddMoney money addid

/-- What the call is to change the ledgers by. -/
def amount : MoneyCall → ℚ
  | .LoseMoney losemoney _ => -losemoney
  | .AddMoney money _ => money

def id : MoneyCall → MoneyId
  | .LoseMoney _ loseid => loseid
  | .AddMoney _ addid => addid

/-- The debit exceeds the balance. -/
def Refused (s : State) : MoneyCall → Prop
  | .LoseMoney losemoney _ => losemoney > s.money
  | .AddMoney _ _ => False

instance (s : State) : (c : MoneyCall) → Decidable (c.Refused s)
  | .LoseMoney losemoney _ => inferInstanceAs (Decidable (losemoney > s.money))
  | .AddMoney _ _ => inferInstanceAs (Decidable False)

end MoneyCall

/-! ## Ledgers -/

/-- `uplose[uid][roomid].lose`, zero where there is none. -/
def State.loseOf (s : State) (uid : Uid) (roomid : RoomId) : ℚ :=
  (((s.uplose.get? uid).getD Table.empty).get? roomid).getD 0

/-- The four ledgers change by `amount`, the last two only if the money counts as play. -/
structure LedgersMoved (amount : ℚ) (counts : Bool) (s t : State) : Prop where
  money : t.money = s.money + amount
  upmoney : t.upmoney = s.upmoney + amount
  sumlose : t.sumlose = s.sumlose + if counts then amount else 0
  uplose : ∀ uid roomid, t.loseOf uid roomid = s.loseOf uid roomid +
    if counts ∧ s.uid = some uid ∧ s.roomid = some roomid then amount else 0

/-- None of the four ledgers changes. -/
structure LedgersKept (s t : State) : Prop where
  money : t.money = s.money
  upmoney : t.upmoney = s.upmoney
  sumlose : t.sumlose = s.sumlose
  uplose : ∀ uid roomid, t.loseOf uid roomid = s.loseOf uid roomid

/-- A call that runs through moves all the ledgers or, refused, none; one that fails moves none. -/
def Atomic (s : State) (c : MoneyCall) : Prop :=
  match c.run.advance s with
  | (.done (), t) => if c.Refused s then LedgersKept s t else LedgersMoved c.amount c.id.counts s t
  | (_, t) => LedgersKept s t

/-- A refused debit of play money, by a player in a room. -/
def CountedAnyway (s : State) (c : MoneyCall) : Prop :=
  c.Refused s ∧ c.id.counts = true ∧ c.amount ≠ 0 ∧ s.uid.isSome ∧ s.roomid.isSome

/-! ## What the parts write -/

theorem LedgersKept.refl (s : State) : LedgersKept s s := ⟨rfl, rfl, rfl, fun _ _ => rfl⟩

theorem loseOf_noteLose (s : State) (uid uid' : Uid) (roomid roomid' : RoomId) (money : ℚ) :
    (s.noteLose uid roomid money).loseOf uid' roomid' = s.loseOf uid' roomid' +
      if uid' = uid ∧ roomid' = roomid then money else 0 := by
  unfold State.noteLose State.loseOf
  by_cases huid : uid' = uid
  · subst huid
    simp only [Table.get?_set_self, Option.getD_some]
    by_cases hroom : roomid' = roomid
    · subst hroom
      simp
    · rw [Table.get?_set_ne _ _ hroom, if_neg fun h => hroom h.2, add_zero]
  · simp only [Table.get?_set_ne _ _ huid]
    rw [if_neg fun h => huid h.1, add_zero]

@[simp] theorem restRedpacket_upmoney (s : State) : s.restRedpacket.upmoney = s.upmoney := by
  unfold State.restRedpacket
  split <;> rfl

@[simp] theorem restRedpacket_sumlose (s : State) : s.restRedpacket.sumlose = s.sumlose := by
  unfold State.restRedpacket
  split <;> rfl

@[simp] theorem restRedpacket_uplose (s : State) : s.restRedpacket.uplose = s.uplose := by
  unfold State.restRedpacket
  split <;> rfl

/-- The last step of both calls. -/
def State.credit (s : State) (amount : ℚ) : State :=
  State.restRedpacket { s with money := s.money + amount, upmoney := s.upmoney + amount }

theorem credit_moved (s : State) (amount : ℚ) : LedgersMoved amount false s (s.credit amount) := by
  unfold State.credit
  refine ⟨by simp, by simp, by simp, fun uid roomid => ?_⟩
  unfold State.loseOf
  simp

/-- The day's loss first, the money then. -/
theorem noteLose_credit_moved {s : State} {uid : Uid} {roomid : RoomId} (amount : ℚ)
    (huid : s.uid = some uid) (hroom : s.roomid = some roomid) :
    LedgersMoved amount true s ((s.noteLose uid roomid amount).credit amount) := by
  have hcredit := credit_moved (s.noteLose uid roomid amount) amount
  refine ⟨hcredit.money, hcredit.upmoney, ?_, ?_⟩
  · rw [hcredit.sumlose]
    simp [State.noteLose]
  · intro uid' roomid'
    rw [hcredit.uplose, loseOf_noteLose, huid, hroom]
    simp [eq_comm]

/-! ## What the calls do -/

/-- `countLose` writes, fails or has nothing to do. -/
theorem countLose_advance (s : State) (money : ℚ) (id : MoneyId) :
    (id.counts = false ∧ (countLose money id).advance s = (.done (), s)) ∨
    (id.counts = true ∧ ∃ uid roomid, s.uid = some uid ∧ s.roomid = some roomid ∧
      (countLose money id).advance s = (.done (), s.noteLose uid roomid money)) ∨
    (id.counts = true ∧ ¬(s.uid.isSome ∧ s.roomid.isSome) ∧
      (countLose money id).advance s = (.raised, s)) := by
  unfold countLose
  cases hid : id.counts with
  | false => exact .inl ⟨rfl, rfl⟩
  | true =>
    right
    rw [if_pos rfl, Co.advance_read_bind]
    cases huid : s.uid with
    | none => exact .inr ⟨rfl, by simp, rfl⟩
    | some uid =>
      rw [Co.advance_need_some_bind]
      cases hroom : s.roomid with
      | none => exact .inr ⟨rfl, by simp, rfl⟩
      | some roomid => exact .inl ⟨rfl, uid, roomid, rfl, rfl, rfl⟩

/-- It does not wait, and where it fails nothing is written. -/
theorem countLose_ends (s : State) (money : ℚ) (id : MoneyId) :
    (∃ t, (countLose money id).advance s = (.done (), t)) ∨
      (countLose money id).advance s = (.raised, s) := by
  obtain ⟨-, hcount⟩ | ⟨-, uid, roomid, -, -, hcount⟩ | ⟨-, -, hcount⟩ :=
    countLose_advance s money id
  · exact .inl ⟨_, hcount⟩
  · exact .inl ⟨_, hcount⟩
  · exact .inr hcount

/-- What `LoseMoney` does after the day's loss is written. -/
def payOut (losemoney : ℚ) : Handler Unit := do
  let s ← Co.read
  if losemoney > s.money then pure ()
  else
    Co.write fun s =>
      State.restRedpacket { s with money := s.money - losemoney, upmoney := s.upmoney - losemoney }

theorem payOut_advance (losemoney : ℚ) (s : State) : (payOut losemoney).advance s =
    (.done (), if losemoney > s.money then s else s.credit (-losemoney)) := by
  unfold payOut
  rw [Co.advance_read_bind]
  by_cases hshort : losemoney > s.money
  · rw [if_pos hshort, if_pos hshort]
    rfl
  · rw [if_neg hshort, if_neg hshort, Co.advance_write, State.credit, ← sub_eq_add_neg,
      ← sub_eq_add_neg]

theorem loseMoney_atomic_iff (s : State) (losemoney : ℚ) (loseid : MoneyId) :
    Atomic s (.LoseMoney losemoney loseid) ↔ ¬CountedAnyway s (.LoseMoney losemoney loseid) := by
  have hrun : (MoneyCall.LoseMoney losemoney loseid).run =
      (countLose (-losemoney) loseid >>= fun _ => payOut losemoney) := rfl
  unfold Atomic
  rw [hrun]
  obtain ⟨hid, hcount⟩ | ⟨hid, uid, roomid, huid, hroom, hcount⟩ | ⟨-, hnone, hcount⟩ :=
    countLose_advance s (-losemoney) loseid
  · -- other money: the balance alone decides
    rw [Co.advance_bind_of_done hcount, payOut_advance]
    refine iff_of_true ?_ fun h => Bool.false_ne_true (hid.symm.trans h.2.1)
    by_cases hshort : losemoney > s.money
    · rw [if_pos hshort]
      show if losemoney > s.money then _ else _
      rw [if_pos hshort]
      exact LedgersKept.refl s
    · rw [if_neg hshort]
      show if losemoney > s.money then _ else LedgersMoved (-losemoney) loseid.counts s _
      rw [if_neg hshort, hid]
      exact credit_moved s (-losemoney)
  · -- play money, noted before the balance is looked at
    rw [Co.advance_bind_of_done hcount, payOut_advance]
    show (if losemoney > s.money then _ else LedgersMoved (-losemoney) loseid.counts s _) ↔ _
    have hmoney : (s.noteLose uid roomid (-losemoney)).money = s.money := rfl
    rw [hmoney]
    by_cases hshort : losemoney > s.money
    · rw [if_pos hshort, if_pos hshort]
      have hsum : (s.noteLose uid roomid (-losemoney)).sumlose = s.sumlose + -losemoney := rfl
      constructor
      · rintro hun ⟨-, -, hne, -⟩
        have := hun.sumlose
        rw [hsum] at this
        exact hne (add_eq_left.mp this)
      · intro hnot
        have hzero : -losemoney = 0 := by
          by_contra hne
          exact hnot ⟨hshort, hid, hne, by rw [huid]; rfl, by rw [hroom]; rfl⟩
        refine ⟨rfl, rfl, by rw [hsum, hzero, add_zero], fun uid' roomid' => ?_⟩
        rw [loseOf_noteLose, hzero, ite_self, add_zero]
    · rw [if_neg hshort, if_neg hshort, hid]
      exact iff_of_true (noteLose_credit_moved (-losemoney) huid hroom) fun h => hshort h.1
  · -- without a player or a room nothing is written
    rw [Co.advance_bind_of_raised hcount]
    exact iff_of_true (LedgersKept.refl s) fun h => hnone h.2.2.2

theorem addMoney_atomic (s : State) (money : ℚ) (addid : MoneyId) :
    Atomic s (.AddMoney money addid) := by
  have hrun : (MoneyCall.AddMoney money addid).run =
      (countLose money addid >>= fun _ => Co.write fun s => s.credit money) := rfl
  unfold Atomic
  rw [hrun]
  obtain ⟨hid, hcount⟩ | ⟨hid, uid, roomid, huid, hroom, hcount⟩ | ⟨-, -, hcount⟩ :=
    countLose_advance s money addid
  · rw [Co.advance_bind_of_done hcount, Co.advance_write]
    show if False then _ else LedgersMoved money addid.counts s _
    rw [if_neg not_false, hid]
    exact credit_moved s money
  · rw [Co.advance_bind_of_done hcount, Co.advance_write]
    show if False then _ else LedgersMoved money addid.counts s _
    rw [if_neg not_false, hid]
    exact noteLose_credit_moved money huid hroom
  · rw [Co.advance_bind_of_raised hcount]
    exact LedgersKept.refl s

/-- Neither call waits for anything. -/
theorem MoneyCall.advance_run (c : MoneyCall) (s : State) :
    (∃ t, c.run.advance s = (.done (), t)) ∨ c.run.advance s = (.raised, s) := by
  cases c with
  | LoseMoney losemoney loseid =>
    have hrun : (MoneyCall.LoseMoney losemoney loseid).run =
        (countLose (-losemoney) loseid >>= fun _ => payOut losemoney) := rfl
    rw [hrun]
    obtain ⟨t, hcount⟩ | hcount := countLose_ends s (-losemoney) loseid
    · exact .inl ⟨_, (Co.advance_bind_of_done hcount _).trans (payOut_advance losemoney _)⟩
    · exact .inr (Co.advance_bind_of_raised hcount _)
  | AddMoney money addid =>
    have hrun : (MoneyCall.AddMoney money addid).run =
        (countLose money addid >>= fun _ => Co.write fun s => s.credit money) := rfl
    rw [hrun]
    obtain ⟨t, hcount⟩ | hcount := countLose_ends s money addid
    · exact .inl ⟨_, Co.advance_bind_of_done hcount _⟩
    · exact .inr (Co.advance_bind_of_raised hcount _)

/-- The ledgers of a call of `LoseMoney` or `AddMoney` change together, unless it is a debit
of play money that is refused. -/
theorem moneyCall_atomic_iff (s : State) (c : MoneyCall) : Atomic s c ↔ ¬CountedAnyway s c := by
  cases c with
  | LoseMoney losemoney loseid => exact loseMoney_atomic_iff s losemoney loseid
  | AddMoney money addid => exact iff_of_true (addMoney_atomic s money addid) fun h => h.1

/-- A player in a room with a hundred coins. -/
def withHundred : State :=
  { State.start 20 1 with uid := some 7, login := true, roomid := some 24, money := 100 }

/-- Three hundred are to be lost at the table: the debit is refused, and three hundred count. -/
theorem refused_debit_counts : ¬Atomic withHundred (.LoseMoney 300 .table_win) ∧
    ((MoneyCall.LoseMoney 300 .table_win).run.advance withHundred).2.money = 100 ∧
      ((MoneyCall.LoseMoney 300 .table_win).run.advance withHundred).2.sumlose = -300 := by
  refine ⟨?_, by decide +kernel, by decide +kernel⟩
  rw [loseMoney_atomic_iff, not_not]
  unfold CountedAnyway
  decide +kernel

end Agent

end DnServer.Bullfight
