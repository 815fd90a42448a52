import DnServer.Bullfight.Game.Compare
import DnServer.Bullfight.Game.Invariant

/-!
# The game service: the banker's balance

`TakeFee` keeps the fee of the player it visits in one variable, and takes what is
left there after its loop from the banker's balance. `NotifyBet` sets the cap of the
bets by that balance, which `ResertGame` clears between two rounds also when the
banker stays.
-/

namespace DnServer.Bullfight

open DnServer.Lib

namespace Game

/-! ## The banker's fee -/

def bankerFee (g : Game) : ℤ := ⌊g.gameconf.bankerticket * g.gameconf.basebet + 1 / 2⌋

def playerFee (g : Game) : ℤ := ⌊g.gameconf.ticket * g.gameconf.basebet + 1 / 2⌋

/-- The fee that an event tells the agent of `uid` to pay. -/
def Out.feeTo (uid : Uid) : Out → ℤ
  | .send p (.takeFee fee _) => if p.uid = uid then fee else 0
  | _ => 0

/-- The fees that the agent of `uid` is told to pay. -/
def toldFee (uid : Uid) (outs : List Out) : ℤ := (outs.map (Out.feeTo uid)).sum

/-- `TakeFee` lowers the banker's balance by the banker's fee, and its agent is told to pay
that fee. -/
def ChargesBanker (g : Game) : Prop :=
  ∃ t o, g.takeFee = .ok t ∧ t.outbox = g.outbox ++ o ∧
    t.bankermoney = g.bankermoney - g.bankerFee ∧ toldFee g.banker o = g.bankerFee

variable {g : Game}

theorem feeOf_eq (g : Game) (k : Uid) :
    g.feeOf k = if k = g.banker then g.bankerFee else g.playerFee := rfl

/-- Packets for the clients tell no agent to pay. -/
theorem toldFee_direct (uid : Uid) (outs : List Out) : toldFee uid (direct outs) = toldFee uid outs := by
  induction outs with
  | nil => rfl
  | cons x outs ih =>
    unfold toldFee direct at *
    cases x with
    | relay p m => simpa [Out.isRelay, Out.feeTo] using ih
    | send p e => simpa [Out.isRelay] using ih
    | ret r => simpa [Out.isRelay] using ih
    | sqlTableLog log => simpa [Out.isRelay] using ih
    | recordGameNum n => simpa [Out.isRelay] using ih
    | shutDown => simpa [Out.isRelay] using ih

theorem playerOf_uid (h : Seated g) {k : Uid} (hk : k ∈ g.players) : (g.playerOf k).uid = k := by
  obtain ⟨p, hp⟩ := Table.mem_iff_get?.mp hk
  rw [playerOf, hp, Option.getD_some]
  exact h.players_uid k p hp

/-- The banker's agent is told the banker's fee, whoever is visited when. -/
theorem toldFee_feeEvents (h : Seated g) (hb : g.banker ∈ g.gameplayer) :
    toldFee g.banker g.feeEvents = if g.gameconf.ticket ≠ 0 then g.bankerFee else 0 := by
  unfold feeEvents
  split_ifs with ht
  · obtain ⟨b, hb⟩ := Table.mem_iff_get?.mp hb
    rw [toldFee, List.map_map]
    have hfee : ∀ p ∈ g.gameplayer.pairs,
        (Out.feeTo g.banker ∘ fun p : Uid × GamePlayer => Out.send (g.playerOf p.2.uid)
          (.takeFee (g.feeOf p.1) ⟨g.feeOf p.1, g.gameconf.gametype, g.gameconf.roomtype,
            g.gameconf.basebet⟩)) p = if p.1 = g.banker then g.feeOf p.1 else 0 := fun p hp => by
      show (if (g.playerOf p.2.uid).uid = g.banker then g.feeOf p.1 else 0) = _
      rw [playerOf_uid h (h.players_of_pairs hp), h.uid_of_pairs hp]
    rw [List.map_congr_left hfee]
    refine (Table.sum_single hb fun k _ => g.feeOf k).trans ?_
    rw [feeOf_eq, if_pos rfl]
  · rfl

/-- The fee left in the variable is the banker's when the banker was visited last, or when the
players pay as much. -/
theorem lastFee_eq_iff (hb : g.banker ∈ g.gameplayer) : g.lastFee = g.bankerFee ↔
    g.gameplayer.keys.getLast? = some g.banker ∨ g.playerFee = g.bankerFee := by
  have hne : g.gameplayer.keys ≠ [] := List.ne_nil_of_mem hb
  rw [lastFee, List.getLast?_eq_some_getLast hne, Option.map_some, Option.getD_some, feeOf_eq,
    Option.some_inj]
  split_ifs with hlast
  · exact ⟨fun _ => .inl hlast, fun _ => rfl⟩
  · exact ⟨.inr, fun h => h.resolve_left hlast⟩

/-- **The banker's fee.** The banker's balance is lowered by the fee its agent is told to pay
just when the banker is visited last, or the players' fee is as high; in a room free of charge,
just when the fee is 0. -/
theorem takeFee_charges_iff (h : Seated g) (hb : g.banker ∈ g.gameplayer) :
    ChargesBanker g ↔
      (g.gameconf.ticket ≠ 0 ∧
        (g.gameplayer.keys.getLast? = some g.banker ∨ g.playerFee = g.bankerFee)) ∨
      (g.gameconf.ticket = 0 ∧ g.bankerFee = 0) := by
  obtain ⟨o, ho, hok⟩ := takeFee_spec h
  have htold : toldFee g.banker o = if g.gameconf.ticket ≠ 0 then g.bankerFee else 0 := by
    rw [← toldFee_direct, ho, toldFee_feeEvents h hb]
  have hcharges : ChargesBanker g ↔
      g.moneyAfterFee = g.bankermoney - g.bankerFee ∧ toldFee g.banker o = g.bankerFee := by
    constructor
    · rintro ⟨t, o', hok', hout, hmoney, htold'⟩
      obtain rfl := Except.ok.inj (hok.symm.trans hok')
      obtain rfl := List.append_cancel_left hout
      exact ⟨hmoney, htold'⟩
    · rintro ⟨hmoney, htold'⟩
      exact ⟨_, o, hok, rfl, hmoney, htold'⟩
  rw [hcharges, htold, moneyAfterFee]
  by_cases ht : g.gameconf.ticket = 0
  · rw [if_neg (not_not.mpr ht), if_neg (not_not.mpr ht)]
    constructor
    · rintro ⟨-, hzero⟩
      exact .inr ⟨ht, hzero.symm⟩
    · rintro (⟨hne, -⟩ | ⟨-, hzero⟩)
      · exact absurd ht hne
      · rw [hzero]
        exact ⟨by simp, rfl⟩
  · rw [if_pos ht, if_pos ht]
    constructor
    · rintro ⟨hmoney, -⟩
      exact .inl ⟨ht, (lastFee_eq_iff hb).mp (Int.cast_inj.mp (sub_right_inj.mp hmoney))⟩
    · rintro (⟨-, hlast⟩ | ⟨hzero, -⟩)
      · rw [(lastFee_eq_iff hb).mpr hlast]
        exact ⟨rfl, rfl⟩
      · exact absurd hzero ht

/-- Two players in the seats and in the round; the first, who is visited first, has the bank. -/
def twoSeated (conf : GameConf) : Game :=
  { creatGame conf with
    banker := 1
    players := (bothTen [] []).players
    seater := ⟨[(1, ⟨1, 0⟩), (2, ⟨2, 0⟩)], by decide⟩
    gameplayer := ⟨[(1, .new 1), (2, .new 2)], by decide⟩ }

theorem twoSeated_seated (conf : GameConf) : Seated (twoSeated conf) where
  players_uid k p hp := by
    have hmem := Table.get?_eq_some.mp hp
    simp only [twoSeated, bothTen, List.mem_cons, Prod.mk.injEq, List.not_mem_nil, or_false] at hmem
    rcases hmem with ⟨rfl, rfl⟩ | ⟨rfl, rfl⟩ <;> rfl
  seater_uid k s hs := by
    have hmem := Table.get?_eq_some.mp hs
    simp only [twoSeated, List.mem_cons, Prod.mk.injEq, List.not_mem_nil, or_false] at hmem
    rcases hmem with ⟨rfl, rfl⟩ | ⟨rfl, rfl⟩ <;> rfl
  gameplayer_uid k v hv := by
    have hmem := Table.get?_eq_some.mp hv
    simp only [twoSeated, List.mem_cons, Prod.mk.injEq, List.not_mem_nil, or_false] at hmem
    rcases hmem with ⟨rfl, rfl⟩ | ⟨rfl, rfl⟩ <;> rfl
  seater_players k hk := hk
  gameplayer_seater k hk := hk

/-- With one ticket for all the banker is charged. -/
theorem takeFee_charges_equal : ChargesBanker (twoSeated .base50) :=
  (takeFee_charges_iff (twoSeated_seated .base50) (by decide)).mpr
    (.inl ⟨by decide +kernel, .inr rfl⟩)

/-- A banker who pays a whole base bet and is visited first is charged what the other pays. -/
theorem takeFee_undercharges :
    ¬ ChargesBanker (twoSeated { GameConf.base50 with bankerticket := 1 }) := by
  rintro ⟨t, o, hok, -, hmoney, -⟩
  obtain ⟨o', -, hok'⟩ := takeFee_spec (twoSeated_seated { GameConf.base50 with bankerticket := 1 })
  obtain rfl := Except.ok.inj (hok'.symm.trans hok)
  have hne : (twoSeated { GameConf.base50 with bankerticket := 1 }).moneyAfterFee ≠
      (twoSeated { GameConf.base50 with bankerticket := 1 }).bankermoney -
        (twoSeated { GameConf.base50 with bankerticket := 1 }).bankerFee := by decide +kernel
  exact hne hmoney

end Game

end DnServer.Bullfight
