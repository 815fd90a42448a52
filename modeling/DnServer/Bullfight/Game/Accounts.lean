import DnServer.Lib.ProRata
import DnServer.Bullfight.Game.Moves

/-!
# The game service: the accounts of a settlement

`GetLastResult` pays the winners out of what the losers paid and what the banker
has. `settled_zeroSum_iff`: the results add up to nothing, and the banker is not
overdrawn, exactly if the banker's own result was what the losers have paid. It
is so before the first settlement of a round; what that one pays the winners it
takes off the banker's result, and a second one takes it off again.
-/

namespace DnServer.Bullfight

open DnServer.Lib

namespace Game

/-! ## The books -/

/-- What the winners have won together. -/
def winnings (g : Game) : ℚ :=
  g.gameplayer.sum fun k v => if k ≠ g.banker ∧ 0 < v.totaladd then v.winmoney else 0

/-- What the losers have paid together. -/
def losses (g : Game) : ℚ :=
  g.gameplayer.sum fun k v => if k ≠ g.banker ∧ v.totaladd < 0 then -v.winmoney else 0

/-- The books once cards were compared: losers have paid or not, and who neither
won nor lost has no result. -/
structure Standing (g : Game) : Prop where
  paid : ∀ k v, g.gameplayer.get? k = some v → k ≠ g.banker → v.totaladd < 0 → v.winmoney ≤ 0
  even : ∀ k v, g.gameplayer.get? k = some v → k ≠ g.banker → v.totaladd = 0 → v.winmoney = 0

/-- The banker's own result is what the losers have paid. -/
def PaidIn (g : Game) : Prop :=
  ∀ b, g.gameplayer.get? g.banker = some b → b.winmoney = g.losses

instance (g : Game) : Decidable (PaidIn g) :=
  match h : g.gameplayer.get? g.banker with
  | none => .isTrue fun _ hb => by rw [h] at hb; cases hb
  | some b => decidable_of_iff (b.winmoney = g.losses)
      ⟨fun hb b' hb' => by rw [h] at hb'; cases hb'; exact hb, fun hg => hg b h⟩

/-- The books before the first settlement: winners have nothing yet, and every
payment is the banker's. -/
structure Collected (g : Game) : Prop where
  bankermoney : 0 ≤ g.bankermoney
  paid : ∀ k v, g.gameplayer.get? k = some v → k ≠ g.banker → v.winmoney ≤ 0
  loser : ∀ k v, g.gameplayer.get? k = some v → k ≠ g.banker → 0 ≤ v.totaladd → v.winmoney = 0
  total : (g.gameplayer.sum fun _ v => v.winmoney) = 0

/-- The books after a settlement by a banker who had `bankermoney`. -/
structure ZeroSum (bankermoney : ℚ) (g : Game) : Prop where
  total : (g.gameplayer.sum fun _ v => v.winmoney) = 0
  winner : ∀ k v, g.gameplayer.get? k = some v → k ≠ g.banker → 0 < v.totaladd →
    v.winmoney ≤ v.totaladd * g.gameconf.basebet
  covered : g.winnings ≤ bankermoney + g.losses
  solvent : 0 ≤ g.bankermoney

/-! ## Payments -/

/-- What a winner claims, and nobody else claims anything. -/
def claim (g : Game) (v : GamePlayer) : ℤ :=
  if g.isWinner v then v.totaladd * g.gameconf.basebet else 0

theorem winnerMoney_eq (basebet : ℕ) (bankermoney : ℚ) (bankerlose totaladd : ℤ) :
    winnerMoney basebet bankermoney bankerlose totaladd
      = ProRata.share bankerlose bankermoney (totaladd * basebet) := rfl

private theorem payment_eq (g : Game) (bankermoney : ℚ) (v : GamePlayer) :
    g.payment bankermoney v = ProRata.share g.bankerLose bankermoney (g.claim v) := by
  unfold payment claim
  by_cases hwin : g.isWinner v
  · rw [if_pos hwin, if_pos hwin, winnerMoney_eq]
  · rw [if_neg hwin, if_neg hwin]
    unfold ProRata.share
    by_cases hfull : bankermoney ≥ g.bankerLose
    · rw [if_pos hfull]
    · rw [if_neg hfull]
      simp

/-- `bankerlose` is what the winners claim together. -/
private theorem bankerLose_eq (g : Game) :
    (g.gameplayer.pairs.map fun p => g.claim p.2).sum = g.bankerLose := by
  unfold bankerLose
  have hfold : ∀ (l : List (Uid × GamePlayer)) (n : ℤ),
      l.foldl (fun (bankerlose : ℤ) p => if p.2.uid ≠ g.banker ∧ p.2.totaladd > 0 then
        bankerlose + p.2.totaladd * g.gameconf.basebet else bankerlose) n
        = n + (l.map fun p => g.claim p.2).sum := by
    intro l
    induction l with
    | nil => intro n; simp
    | cons p rest ih =>
      intro n
      rw [List.foldl_cons, ih, List.map_cons, List.sum_cons]
      by_cases hwin : g.isWinner p.2
      · have hclaim : g.claim p.2 = p.2.totaladd * g.gameconf.basebet := if_pos hwin
        rw [if_pos ⟨hwin.2, hwin.1⟩, hclaim, add_assoc]
      · have hclaim : g.claim p.2 = 0 := if_neg hwin
        rw [if_neg fun h => hwin ⟨h.2, h.1⟩, hclaim, zero_add]
  rw [hfold, zero_add]

private theorem claim_nonneg (g : Game) (v : GamePlayer) : 0 ≤ g.claim v := by
  unfold claim
  by_cases hwin : g.isWinner v
  · rw [if_pos hwin]
    have := hwin.1
    positivity
  · rw [if_neg hwin]

/-- Winners are paid no more than they claim. -/
theorem payment_le (g : Game) {bankermoney : ℚ} (h : 0 ≤ bankermoney) (v : GamePlayer) :
    g.payment bankermoney v ≤ g.claim v := by
  rw [payment_eq]
  exact ProRata.share_le h (claim_nonneg g v)

/-- The banker's money covers the payments. -/
theorem paid_le (g : Game) {bankermoney : ℚ} (h : 0 ≤ bankermoney) :
    g.paid bankermoney g.gameplayer.pairs ≤ bankermoney := by
  have hsum := ProRata.sum_share_le (g.gameplayer.pairs.map fun p => g.claim p.2)
    (bankerLose_eq g) h
  have hpaid : g.paid bankermoney g.gameplayer.pairs
      = (((g.gameplayer.pairs.map fun p => g.claim p.2).map
          (ProRata.share g.bankerLose bankermoney)).sum : ℚ) := by
    unfold paid
    rw [Int.cast_list_sum, List.map_map, List.map_map]
    exact congrArg List.sum (List.map_congr_left fun p _ => by
      show (g.payment bankermoney p.2 : ℚ) = _
      rw [payment_eq]
      rfl)
  rw [hpaid]
  exact hsum

/-! ## Books that balance -/

/-- What a table pays nobody but winners and what a table's losers paid cancel out. -/
private theorem Standing.rest_eq {g : Game} (h : Standing g) {k : Uid} {v : GamePlayer}
    (hv : g.gameplayer.get? k = some v) (hk : k ≠ g.banker) :
    (if 0 < v.totaladd then 0 else v.winmoney)
      = -if k ≠ g.banker ∧ v.totaladd < 0 then -v.winmoney else 0 := by
  rcases lt_trichotomy v.totaladd 0 with hneg | hzero | hpos
  · rw [if_neg hneg.le.not_gt, if_pos ⟨hk, hneg⟩, neg_neg]
  · rw [if_neg hzero.le.not_gt, if_neg fun h => hzero.not_lt h.2, h.even k v hv hk hzero, neg_zero]
  · rw [if_pos hpos, if_neg fun h => h.2.not_gt hpos, neg_zero]

theorem Standing.losses_nonneg {g : Game} (h : Standing g) : 0 ≤ g.losses := by
  unfold losses Table.sum
  refine List.sum_nonneg fun x hx => ?_
  obtain ⟨p, hp, rfl⟩ := List.mem_map.mp hx
  show 0 ≤ if p.1 ≠ g.banker ∧ p.2.totaladd < 0 then -p.2.winmoney else 0
  by_cases hlose : p.1 ≠ g.banker ∧ p.2.totaladd < 0
  · rw [if_pos hlose]
    exact neg_nonneg.mpr (h.paid p.1 p.2 (Table.get?_of_mem_pairs hp) hlose.1 hlose.2)
  · rw [if_neg hlose]

theorem Collected.standing {g : Game} (h : Collected g) : Standing g :=
  ⟨fun k v hv hk _ => h.paid k v hv hk, fun k v hv hk hzero => h.loser k v hv hk hzero.ge⟩

theorem paidIn_iff {g : Game} {b : GamePlayer} (hb : g.gameplayer.get? g.banker = some b) :
    PaidIn g ↔ b.winmoney = g.losses := by
  refine ⟨fun h => h b hb, fun h b' hb' => ?_⟩
  obtain rfl := Option.some.inj (hb.symm.trans hb')
  exact h

/-- Before the first settlement the banker's own result is what the losers paid. -/
theorem Collected.paidIn {g : Game} (h : Collected g) : PaidIn g := by
  intro b hb
  have hsplit := Table.sum_split hb fun _ (v : GamePlayer) => v.winmoney
  have hrest : (g.gameplayer.sum fun k v => if k = g.banker then 0 else v.winmoney)
      + g.losses = 0 := by
    unfold losses
    rw [← Table.sum_add]
    refine (Table.sum_congr fun k v hv => ?_).trans (Table.sum_zero g.gameplayer)
    by_cases hk : k = g.banker
    · rw [if_pos hk, if_neg fun hlose => hlose.1 hk, add_zero]
    · by_cases hlose : v.totaladd < 0
      · rw [if_neg hk, if_pos ⟨hk, hlose⟩, add_neg_cancel]
      · rw [if_neg hk, if_neg fun h => hlose h.2, h.loser k v hv hk (not_lt.mp hlose), add_zero]
  have htotal := h.total
  linarith

/-- What the settlement makes of a player's result. -/
private def result (g : Game) (bankermoney : ℚ) (k : Uid) (v : GamePlayer) : ℚ :=
  (if k = g.banker then v.winmoney - g.paid bankermoney g.gameplayer.pairs
    else if 0 < v.totaladd then 0 else v.winmoney) + g.payment bankermoney v

private theorem settledTo_result {g : Game} (hseated : Seated g) {m : ℚ}
    {k : Uid} {v w : GamePlayer} (hv : g.gameplayer.get? k = some v)
    (hset : SettledTo g m g.gameplayer.pairs k v w) :
    w.winmoney = g.result m k v ∧ w.totaladd = v.totaladd := by
  have huid := hseated.gameplayer_uid k v hv
  have hmem : k ∈ g.gameplayer.pairs.map Prod.fst := Table.mem_of_get? hv
  unfold result payment
  by_cases hk : k = g.banker
  · rw [hset.banker hk, if_pos hk, if_neg fun hwin : g.isWinner v => hwin.2 (huid.trans hk)]
    exact ⟨by simp, rfl⟩
  · by_cases hadd : 0 < v.totaladd
    · have hwin : g.isWinner v := ⟨hadd, fun he => hk (huid.symm.trans he)⟩
      rw [hset.winner hk hmem hadd, if_neg hk, if_pos hadd, if_pos hwin, zero_add]
      refine ⟨?_, rfl⟩
      show (g.payment m v : ℚ) = _
      rw [payment, if_pos hwin]
    · rw [hset.other hk (.inr hadd), if_neg hk, if_neg hadd,
        if_neg fun hwin : g.isWinner v => hadd hwin.1]
      exact ⟨by simp, rfl⟩

/-- A winner's result is its payment, and everybody else but the banker keeps its own. -/
private theorem result_other {g : Game} (hseated : Seated g) (m : ℚ) {k : Uid}
    {v : GamePlayer} (hv : g.gameplayer.get? k = some v) (hk : k ≠ g.banker) :
    (0 < v.totaladd → g.isWinner v ∧ g.result m k v = g.payment m v) ∧
      (¬ 0 < v.totaladd → g.payment m v = 0 ∧ g.result m k v = v.winmoney) := by
  have huid := hseated.gameplayer_uid k v hv
  unfold result
  constructor
  · intro hadd
    refine ⟨⟨hadd, fun he => hk (huid.symm.trans he)⟩, ?_⟩
    rw [if_neg hk, if_pos hadd, zero_add]
  · intro hadd
    have hnone : g.payment m v = 0 := if_neg fun hwin : g.isWinner v => hadd hwin.1
    refine ⟨hnone, ?_⟩
    rw [if_neg hk, if_neg hadd, hnone, Int.cast_zero, add_zero]

/-- What the winners get is taken from the banker's result, so what is left over all
results is the banker's before the settlement less what the losers paid. -/
private theorem sum_result {g : Game} (h : Standing g) {b : GamePlayer}
    (hb : g.gameplayer.get? g.banker = some b) (m : ℚ) :
    (g.gameplayer.sum fun k v => g.result m k v) = b.winmoney - g.losses := by
  have hshare : (g.gameplayer.sum fun k v => g.result m k v)
      = (g.gameplayer.sum fun k _ => if k = g.banker then
          b.winmoney - g.paid m g.gameplayer.pairs else 0)
        + ((g.gameplayer.sum fun k v =>
            -if k ≠ g.banker ∧ v.totaladd < 0 then -v.winmoney else 0)
          + g.gameplayer.sum fun _ v => (g.payment m v : ℚ)) := by
    rw [← Table.sum_add, ← Table.sum_add]
    refine Table.sum_congr fun k v hv => ?_
    unfold result
    by_cases hk : k = g.banker
    · obtain rfl : b = v := Option.some.inj (hb.symm.trans (hk ▸ hv))
      rw [if_pos hk, if_pos hk, if_neg fun h => h.1 hk, neg_zero, zero_add]
    · rw [if_neg hk, if_neg hk, h.rest_eq hv hk, zero_add]
  have hlosses : (g.gameplayer.sum fun k v =>
      -if k ≠ g.banker ∧ v.totaladd < 0 then -v.winmoney else 0) = -g.losses := by
    rw [eq_neg_iff_add_eq_zero, losses, ← Table.sum_add]
    exact (Table.sum_congr fun k v _ => neg_add_cancel _).trans (Table.sum_zero g.gameplayer)
  have hpaid : (g.gameplayer.sum fun _ v => (g.payment m v : ℚ))
      = g.paid m g.gameplayer.pairs := rfl
  rw [hshare, Table.sum_single hb fun _ _ => b.winmoney - g.paid m g.gameplayer.pairs, hlosses,
    hpaid]
  ring

/-- **A settlement** is zero-sum and solvent exactly if the banker's own result was
what the losers have paid. -/
theorem settled_zeroSum_iff {g t : Game} (hseated : Seated g) (h : Standing g)
    (hmoney : 0 ≤ g.bankermoney) (hset : Settled g t) :
    ZeroSum g.bankermoney t ↔ PaidIn g := by
  cases hset with
  | mk b gp lr o r p hb hgp ho hcred =>
    set m := g.bankermoney + b.winmoney
    have hresult : ∀ k v w, g.gameplayer.get? k = some v →
        SettledTo g m g.gameplayer.pairs k v w →
        w.winmoney = g.result m k v ∧ w.totaladd = v.totaladd :=
      fun k v w hv hw => settledTo_result hseated hv hw
    have hsum : (gp.sum fun _ w => w.winmoney) = b.winmoney - g.losses := by
      rw [← sum_result h hb m]
      exact hgp.sum_eq fun k v w hv hw => (hresult k v w hv hw).1
    rw [paidIn_iff hb]
    refine ⟨fun hzero => sub_eq_zero.mp (hsum.symm.trans hzero.total), fun hbanker => ?_⟩
    -- the winners share what the banker had and what the losers paid
    have hnonneg := h.losses_nonneg
    have hpool : 0 ≤ m := by linarith
    have hpaid := g.paid_le hpool
    have hwinnings : (gp.sum fun k v =>
        if k ≠ g.banker ∧ 0 < v.totaladd then v.winmoney else 0)
        = g.paid m g.gameplayer.pairs := by
      refine hgp.sum_eq (f := fun _ v => (g.payment m v : ℚ)) fun k v w hv hw => ?_
      obtain ⟨hwin, htotal⟩ := hresult k v w hv hw
      have huid := hseated.gameplayer_uid k v hv
      rw [htotal, hwin]
      by_cases hk : k = g.banker
      · have hnone : g.payment m v = 0 :=
          if_neg fun hwin : g.isWinner v => hwin.2 (huid.trans hk)
        rw [if_neg fun h => h.1 hk, hnone, Int.cast_zero]
      · obtain ⟨hpos, hneg⟩ := result_other hseated m hv hk
        by_cases hadd : 0 < v.totaladd
        · rw [if_pos ⟨hk, hadd⟩, (hpos hadd).2]
        · rw [if_neg fun h => hadd h.2, (hneg hadd).1, Int.cast_zero]
    have hlosses : (gp.sum fun k v =>
        if k ≠ g.banker ∧ v.totaladd < 0 then -v.winmoney else 0) = g.losses := by
      refine hgp.sum_eq fun k v w hv hw => ?_
      obtain ⟨hwin, htotal⟩ := hresult k v w hv hw
      rw [htotal, hwin]
      by_cases hlose : k ≠ g.banker ∧ v.totaladd < 0
      · rw [if_pos hlose, if_pos hlose,
          ((result_other hseated m hv hlose.1).2 (by have := hlose.2; omega)).2]
      · rw [if_neg hlose, if_neg hlose]
    refine ⟨?_, fun k w hw hk hadd => ?_, ?_, ?_⟩
    · rw [← sub_eq_zero.mpr hbanker]
      exact hsum
    · obtain ⟨v, hv, hset⟩ := hgp.get?_of_new hw
      obtain ⟨hwin, htotal⟩ := hresult k v w hv hset
      rw [htotal] at hadd
      obtain ⟨hwinner, hres⟩ := (result_other hseated m hv hk).1 hadd
      have hle := g.payment_le hpool v
      have hclaim : g.claim v = v.totaladd * g.gameconf.basebet := if_pos hwinner
      rw [hclaim] at hle
      rw [hwin, hres, htotal]
      exact_mod_cast hle
    · show (gp.sum fun k v => if k ≠ g.banker ∧ 0 < v.totaladd then v.winmoney else 0)
        ≤ g.bankermoney + gp.sum fun k v =>
          if k ≠ g.banker ∧ v.totaladd < 0 then -v.winmoney else 0
      rw [hwinnings, hlosses]
      linarith
    · show 0 ≤ g.bankermoney + g.bankerWin b
      unfold bankerWin
      linarith

end Game

end DnServer.Bullfight
