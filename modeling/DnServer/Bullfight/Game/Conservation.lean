import DnServer.Bullfight.Game.Account

/-!
# The game service: where the money of a round goes

Losers report and are debited one by one; the settlement runs when nothing is missing,
and the results are shown when `T_WAIT_SHOW_RESULT` comes due, whether it ran or not.

* `settlement_zeroSum`: the first settlement of a round finds its books balanced
  (`books_invariant`), and with fair agents there is no second, as each loser owes until
  it has reported.
* `settled_again`: with a bet below the base bet a loser owes nothing, is told to report
  all the same, and its report settles the round a second time.
* `account_invariant`: while the results are awaited the account is `Pending`, each
  loser due or among the reports, or it is settled and all in; what is shown is `Final`.
* `conserved_iff_timely`: a final account is conserved just when the reports were timely
  (`Final.conserved_iff`), and closing the round reports nothing more.
-/

namespace DnServer.Bullfight

open DnServer.Lib

namespace Game

namespace Account

/-- Every loser told to report has reported money in time, and so has the banker. -/
def AllIn (a : Account) : Prop :=
  (∀ uid ∈ a.losers, ∃ money, (uid, money) ∈ a.reports ∧ 0 < money) ∧ a.heard = true

/-- The reports that came in time are complete and positive, or all are nothing. -/
def Timely (a : Account) : Prop := (∀ r ∈ a.reports, r.2 = 0) ∨ a.AllIn

/-- The round was settled once, and what was debited is what was credited. -/
def Balanced (a : Account) : Prop := a.settlements = 1 ∧ a.debits.sum = a.credits

/-- If a loser was told to pay something, the round was settled. -/
def Conserved (a : Account) : Prop := (∃ d ∈ a.debits, d ≠ 0) → a.Balanced

/-- A report of nothing, and no other, is answered with a debit of nothing. -/
def Answered (a : Account) : Prop :=
  List.Forall₂ (fun (r : Uid × ℚ) d => d = 0 ↔ r.2 = 0) a.reports a.debits

/-- The account of a round that is over, or that waits for nothing any more. -/
def Final (a : Account) : Prop :=
  (a.Balanced ∧ a.AllIn) ∨ a.settlements = 0 ∧ ¬ a.AllIn ∧ a.Answered

private theorem debits_zero_iff : ∀ {reports : List (Uid × ℚ)} {debits : List ℚ},
    List.Forall₂ (fun r d => d = 0 ↔ r.2 = 0) reports debits →
    ((∀ d ∈ debits, d = 0) ↔ ∀ r ∈ reports, r.2 = 0) := by
  intro reports debits h
  induction h with
  | nil => simp
  | cons hrd _ ih => simp only [List.forall_mem_cons, hrd, ih]

/-- What a final account says about the money. -/
theorem Final.conserved_iff {a : Account} (h : a.Final) :
    (a.Conserved ↔ a.Timely) ∧ (a.Balanced ↔ a.AllIn) := by
  rcases h with ⟨hbal, hall⟩ | ⟨hnone, hmissing, hanswered⟩
  · exact ⟨⟨fun _ => .inr hall, fun _ _ => hbal⟩, fun _ => hall, fun _ => hbal⟩
  · have hopen : ¬ a.Balanced := by
      intro hbal
      have hone := hbal.1
      omega
    have hzero := debits_zero_iff hanswered
    refine ⟨⟨fun hcons => .inl (hzero.mp ?_), fun htimely hdebit => ?_⟩,
      fun hbal => absurd hbal hopen, fun hall => absurd hall hmissing⟩
    · by_contra hno
      push Not at hno
      exact hopen (hcons hno)
    · obtain ⟨d, hd, hne⟩ := hdebit
      rcases htimely with hnothing | hall
      · exact absurd (hzero.mpr hnothing d hd) hne
      · exact absurd hall hmissing

/-- A report that comes late changes nothing that matters. -/
theorem Final.hear {a : Account} (h : a.Final) (e : Event) : (a.hear false e).Final := by
  cases e with
  | msg uid address x =>
    cases x with
    | bankerMoney money =>
      have hheard : a.hear false (.msg uid address (.bankerMoney money))
          = { a with asked := false } := by
        show { a with asked := false, heard := a.heard || false } = _
        rw [Bool.or_false]
      rw [hheard]
      exact h
    | _ => exact h
  | _ => exact h

end Account

/-! ## Waiting for the reports -/

/-- Nothing is missing for the settlement: what `CanGetLastResult` looks at. -/
def Complete (g : Game) : Prop :=
  g.bankermoney ≠ 0 ∧
    ∀ k v, g.gameplayer.get? k = some v → ¬ (k ≠ g.banker ∧ v.winmoney = 0 ∧ v.totaladd < 0)

theorem canGetLastResult_iff {g : Game} (h : Seated g) :
    g.canGetLastResult = true ↔ Complete g := by
  unfold canGetLastResult Complete
  rw [decide_eq_true_eq, List.all_eq_true]
  refine and_congr_right fun _ => ⟨fun hall k v hv => ?_, fun hall p hp => ?_⟩
  · have hp := hall (k, v) (Table.get?_eq_some.mp hv)
    rw [decide_eq_true_eq, h.gameplayer_uid k v hv] at hp
    exact hp
  · rw [decide_eq_true_eq, h.uid_of_pairs hp]
    exact hall p.1 p.2 (Table.get?_of_mem_pairs hp)

/-- A table that waits for reports, and its account. -/
structure Pending (g : Game) (a : Account) : Prop where
  fresh : g.havegetresult = false
  unsettled : a.settlements = 0 ∧ a.credits = 0
  heard : g.bankermoney ≠ 0 ↔ a.heard = true
  asked : a.asked = !a.heard
  nodup : a.due.Nodup
  lost : ∀ k v, g.gameplayer.get? k = some v →
    (k ≠ g.banker ∧ v.totaladd < 0 ↔ k ∈ a.losers)
  present : ∀ k ∈ a.losers, k ∈ g.gameplayer
  due : ∀ k ∈ a.due, k ∈ a.losers ∧ ∀ v, g.gameplayer.get? k = some v → v.winmoney = 0
  paid : ∀ k money, (k, money) ∈ a.reports → k ∈ a.losers ∧ k ∉ a.due ∧ 0 ≤ money ∧
    ∀ v, g.gameplayer.get? k = some v → (v.winmoney = 0 ↔ money = 0)
  reported : ∀ k ∈ a.losers, k ∈ a.due ∨ ∃ money, (k, money) ∈ a.reports
  answered : a.Answered
  banker : ∀ b, g.gameplayer.get? g.banker = some b → b.winmoney = a.debits.sum

/-- The account only looks at the records, the banker and its money. -/
private theorem Pending.congr {g t : Game} {a : Account} (h : Pending g a)
    (hget : t.havegetresult = g.havegetresult) (hmoney : t.bankermoney = g.bankermoney)
    (hbanker : t.banker = g.banker)
    (hgp : ∀ k, t.gameplayer.get? k = g.gameplayer.get? k) : Pending t a := by
  refine ⟨hget.trans h.fresh, h.unsettled, by rw [hmoney]; exact h.heard, h.asked, h.nodup,
    fun k v hv => ?_, fun k hk => ?_, fun k hk => ⟨(h.due k hk).1, fun v hv => ?_⟩,
    fun k money hk => ?_, h.reported, h.answered, fun b hb => ?_⟩
  · rw [hbanker]
    exact h.lost k v ((hgp k).symm.trans hv)
  · obtain ⟨v, hv⟩ := Table.mem_iff_get?.mp (h.present k hk)
    exact Table.mem_of_get? ((hgp k).trans hv)
  · exact (h.due k hk).2 v ((hgp k).symm.trans hv)
  · obtain ⟨hlost, hdue, hpos, hpaid⟩ := h.paid k money hk
    exact ⟨hlost, hdue, hpos, fun v hv => hpaid v ((hgp k).symm.trans hv)⟩
  · rw [hbanker] at hb
    exact h.banker b ((hgp g.banker).symm.trans hb)

private theorem Alike.waiting {g t : Game} (ha : Alike g t) (hs : g.curstate = .waitShowResult) :
    t.banker = g.banker ∧ ∀ k, t.gameplayer.get? k = g.gameplayer.get? k := by
  have hstart : g.isGameStart = true := by simp [isGameStart, hs]
  refine ⟨ha.banker hstart (by rw [hs]; decide), fun k => ?_⟩
  exact ((ha.started hstart).1.get? k).symm

/-- A loser whose call is to come owes, and is not the banker. -/
private theorem Pending.owes {g : Game} {a : Account} (h : Pending g a) {uid : Uid}
    (hdue : uid ∈ a.due) : ∃ v, g.gameplayer.get? uid = some v ∧ uid ≠ g.banker ∧
      v.winmoney = 0 ∧ v.totaladd < 0 := by
  obtain ⟨hlost, hzero⟩ := h.due uid hdue
  obtain ⟨v, hv⟩ := Table.mem_iff_get?.mp (h.present uid hlost)
  obtain ⟨hne, hadd⟩ := (h.lost uid v hv).mpr hlost
  exact ⟨v, hv, hne, hzero v hv, hadd⟩

/-- While something is missing the reports are not all in. -/
private theorem Pending.not_allIn {g : Game} {a : Account} (h : Pending g a)
    (hmissing : ¬ Complete g) : ¬ a.AllIn := by
  rintro ⟨hpositive, hheard⟩
  apply hmissing
  refine ⟨h.heard.mpr hheard, fun k v hv ⟨hne, hzero, hadd⟩ => ?_⟩
  obtain ⟨money, hmem, hpos⟩ := hpositive k ((h.lost k v hv).mp ⟨hne, hadd⟩)
  have hnothing := ((h.paid k money hmem).2.2.2 v hv).mp hzero
  exact hpos.ne' hnothing

/-- When nothing is missing all reports are in, and no call is to come. -/
private theorem Pending.allIn {g : Game} {a : Account} (h : Pending g a) (hdone : Complete g) :
    a.AllIn ∧ a.due = [] ∧ a.asked = false := by
  have hheard := h.heard.mp hdone.1
  have hnone : a.due = [] := by
    refine List.eq_nil_iff_forall_not_mem.mpr fun k hk => ?_
    obtain ⟨v, hv, hne, hzero, hadd⟩ := h.owes hk
    exact hdone.2 k v hv ⟨hne, hzero, hadd⟩
  refine ⟨⟨fun k hk => ?_, hheard⟩, hnone, by rw [h.asked, hheard]; rfl⟩
  rcases h.reported k hk with hdue | ⟨money, hmem⟩
  · rw [hnone] at hdue
    exact absurd hdue List.not_mem_nil
  · obtain ⟨v, hv⟩ := Table.mem_iff_get?.mp (h.present k hk)
    obtain ⟨hne, hadd⟩ := (h.lost k v hv).mpr hk
    obtain ⟨-, -, hpos, hpaid⟩ := h.paid k money hmem
    refine ⟨money, hmem, lt_of_le_of_ne hpos fun hzero => ?_⟩
    exact hdone.2 k v hv ⟨hne, (hpaid v hv).mpr hzero.symm, hadd⟩

/-! ## The comparison opens the account -/

private theorem notified_loserNotices {g : Game} (h : Seated g) {losers : List Uid}
    (hmem : ∀ k ∈ losers, k ∈ g.players) : notified (g.loserNotices losers) = losers := by
  induction losers with
  | nil => rfl
  | cons k rest ih =>
    obtain ⟨p, hp⟩ := Table.mem_iff_get?.mp (hmem k List.mem_cons_self)
    have huid : (g.playerOf k).uid = k := by
      unfold playerOf
      rw [hp]
      exact h.players_uid k p hp
    have hrest := ih fun k hk => hmem k (List.mem_cons_of_mem _ hk)
    show (g.playerOf k).uid :: notified (g.loserNotices rest) = k :: rest
    rw [huid, hrest]

private theorem silent_loserNotices (g : Game) (losers : List Uid) :
    told (g.loserNotices losers) = [] ∧ credited (g.loserNotices losers) = 0 := by
  induction losers with
  | nil => exact ⟨rfl, rfl⟩
  | cons k rest ih => exact ih

/-- A bet of at least the base bet is at least one unit. -/
private theorem one_le_betUnits {g : Game} {v : GamePlayer}
    (h : (g.gameconf.basebet : ℚ) ≤ v.betmoney) : 1 ≤ g.betUnits v := by
  have hpos : (0 : ℚ) < g.gameconf.basebet := Nat.cast_pos.mpr g.gameconf.basebet_pos
  unfold betUnits
  rw [Int.le_floor, Int.cast_one]
  exact (one_le_div hpos).mpr h

/-- The comparison of bets that are at least the base bet tells exactly those to
report who lost, and the account it opens is theirs. -/
private theorem Compared.pending {g t : Game} (hseated : Seated g)
    (hun : Untouched g.gameplayer) (hget : g.havegetresult = false)
    (hbets : AtLeast g.gameconf.basebet g.gameplayer) (hall : AllBet g.banker g.gameplayer)
    (hcmp : Compared g t) : ∃ o, t.outbox = g.outbox ++ o ∧ told o = [] ∧ credited o = 0 ∧
      Pending t (.opened (notified o)) ∧ ¬ Complete t := by
  cases hcmp with
  | mk gp losers hgp hsub hnb =>
    have hmem : ∀ k ∈ losers, k ∈ g.gameplayer := fun k hk => hsub.subset hk
    have hnotified : notified (g.loserNotices losers ++
        [.send (g.playerOf g.banker) .getBankerMoney]) = losers := by
      rw [notified_append, notified_loserNotices hseated
        fun k hk => hseated.gameplayer_players (hmem k hk)]
      exact List.append_nil _
    obtain ⟨htold, hcredit⟩ := silent_loserNotices g losers
    have hzero : ∀ k w, gp.get? k = some w → w.winmoney = 0 := by
      intro k w hw
      obtain ⟨v, hv, hvw⟩ := hgp.get?_of_new hw
      rw [hvw.same.1]
      exact (hun k v hv).1
    have hlost : ∀ k w, gp.get? k = some w →
        (k ≠ g.banker ∧ w.totaladd < 0 ↔ k ∈ losers) := by
      intro k w hw
      obtain ⟨v, hv, hvw⟩ := hgp.get?_of_new hw
      by_cases hk : k = g.banker
      · rw [hk]
        exact ⟨fun h => absurd rfl h.1, fun h => absurd h hnb⟩
      -- a player has bet a unit at least, so it wins or loses one at least
      have huid := hseated.gameplayer_uid k v hv
      have hbet := (hbets k v hv).resolve_left (hall k v hv (by rw [huid]; exact hk))
      have hunit := one_le_betUnits hbet
      obtain ⟨m, hm, htotal⟩ := hvw.played hk (Table.mem_of_get? hv)
      rw [(hun k v hv).2, zero_add] at htotal
      have hpos : 1 ≤ g.betUnits v * m := one_le_mul_of_one_le_of_one_le hunit hm
      by_cases hl : k ∈ losers
      · rw [if_pos hl] at htotal
        exact ⟨fun _ => hl, fun _ => ⟨hk, by omega⟩⟩
      · rw [if_neg hl] at htotal
        exact ⟨fun h => by have := h.2; omega, fun h => absurd h hl⟩
    refine ⟨_, rfl, by rw [told_append, htold]; rfl, by rw [credited_append, hcredit, zero_add]; rfl,
      ?_, fun hdone => hdone.1 rfl⟩
    rw [hnotified]
    refine ⟨hget, ⟨rfl, rfl⟩, by simp [Account.opened], rfl, ?_, hlost, fun k hk => ?_,
      fun k hk => ⟨hk, hzero k⟩, fun k money hk => absurd hk List.not_mem_nil,
      fun k hk => .inl hk, List.Forall₂.nil, fun b hb => hzero _ b hb⟩
    · exact hsub.nodup g.gameplayer.nodup
    · exact hgp.mem.mpr (hmem k hk)

/-! ## Reports -/

private theorem loserWin_eq_zero {needlose money : ℚ} (hneed : needlose < 0) :
    loserWin needlose money = 0 ↔ money = 0 := by
  unfold loserWin
  by_cases hall : money ≥ -needlose
  · rw [if_pos hall]
    exact ⟨fun h => absurd h hneed.ne, fun h => by linarith⟩
  · rw [if_neg hall]
    exact neg_eq_zero

/-- A loser's report in time is entered with its debit. -/
private theorem Pending.loser {g : Game} {a : Account} (h : Pending g a) {uid : Uid}
    {money lose : ℚ} {v : GamePlayer} (hdue : uid ∈ a.due) (hmoney : 0 ≤ money)
    (hv : g.gameplayer.get? uid = some v)
    (hlose : uid ≠ g.banker → lose = -loserWin (v.totaladd * g.gameconf.basebet) money)
    (o : List Out) :
    Pending { g with
      gameplayer := g.collect uid (loserWin (v.totaladd * g.gameconf.basebet) money)
      outbox := g.outbox ++ o } { a with
        due := a.due.erase uid
        reports := a.reports ++ [(uid, money)]
        debits := a.debits ++ [lose] } := by
  obtain ⟨v', hv', hne, hw, hadd⟩ := h.owes hdue
  rw [hv] at hv'
  cases hv'
  set win := loserWin (v.totaladd * g.gameconf.basebet) money
  have hneed : (v.totaladd * g.gameconf.basebet : ℚ) < 0 := by
    have hpos : (0 : ℚ) < g.gameconf.basebet := Nat.cast_pos.mpr g.gameconf.basebet_pos
    exact mul_neg_of_neg_of_pos (by exact_mod_cast hadd) hpos
  -- the collection is 0 only if the report is, so a positive report leaves nothing due
  have hzero : win = 0 ↔ money = 0 := loserWin_eq_zero hneed
  have hgp := collect_winmoney hv hw win
  have hother : ∀ k w, k ≠ uid → k ≠ g.banker → (g.collect uid win).get? k = some w →
      ∃ x, g.gameplayer.get? k = some x ∧ w.winmoney = x.winmoney := by
    intro k w hku hkb hk
    obtain ⟨x, hx, -, hxw⟩ := hgp.get?_of_new hk
    rw [if_neg hku, if_neg hkb, add_zero, add_zero] at hxw
    exact ⟨x, hx, hxw⟩
  have hlosers : ∀ k ∈ a.losers, k ≠ g.banker := by
    intro k hk
    obtain ⟨x, hx⟩ := Table.mem_iff_get?.mp (h.present k hk)
    exact ((h.lost k x hx).mpr hk).1
  refine ⟨h.fresh, h.unsettled, h.heard, h.asked, h.nodup.erase uid, fun k w hk => ?_,
    fun k hk => hgp.mem.mpr (h.present k hk), fun k hk => ?_, fun k x hk => ?_, fun k hk => ?_,
    ?_, fun b hb => ?_⟩
  · obtain ⟨x, hx, honly, -⟩ := hgp.get?_of_new hk
    rw [honly]
    exact h.lost k x hx
  · obtain ⟨hku, hkdue⟩ := (h.nodup.mem_erase_iff).mp hk
    obtain ⟨hlost, hnone⟩ := h.due k hkdue
    refine ⟨hlost, fun w hkw => ?_⟩
    obtain ⟨x, hx, hsame⟩ := hother k w hku (hlosers k hlost) hkw
    rw [hsame]
    exact hnone x hx
  · rcases List.mem_append.mp hk with hold | hnew
    · obtain ⟨hlost, hnotdue, hpos, hpaid⟩ := h.paid k x hold
      refine ⟨hlost, fun hmem => hnotdue (List.mem_of_mem_erase hmem), hpos, fun w hkw => ?_⟩
      have hku : k ≠ uid := fun he => hnotdue (he ▸ hdue)
      obtain ⟨y, hy, hsame⟩ := hother k w hku (hlosers k hlost) hkw
      rw [hsame]
      exact hpaid y hy
    · -- the report that is new
      cases List.mem_singleton.mp hnew
      refine ⟨(h.due uid hdue).1, h.nodup.not_mem_erase, hmoney, fun w hkw => ?_⟩
      obtain ⟨x, hx, -, hxw⟩ := hgp.get?_of_new hkw
      rw [hv] at hx
      cases hx
      rw [hxw, if_pos rfl, if_neg hne, hw, add_zero, zero_add]
      exact hzero
  · rcases h.reported k hk with hkdue | ⟨x, hmem⟩
    · by_cases hku : k = uid
      · exact .inr ⟨money, List.mem_append_right _ (by rw [hku]; exact List.mem_singleton_self _)⟩
      · exact .inl ((h.nodup.mem_erase_iff).mpr ⟨hku, hkdue⟩)
    · exact .inr ⟨x, List.mem_append_left _ hmem⟩
  · refine List.rel_append h.answered (List.Forall₂.cons ?_ List.Forall₂.nil)
    rw [hlose hne, neg_eq_zero]
    exact hzero
  · obtain ⟨x, hx, -, hxb⟩ := hgp.get?_of_new hb
    rw [hxb, if_neg hne.symm, if_pos rfl, h.banker x hx, List.sum_append, hlose hne]
    simp

/-- A promised report is entered in the account. -/
private theorem Pending.report {g t : Game} {a : Account} {e : Event} {m : Mtype} {g₀ : Game}
    (h : Pending g a) (hready : Ready g m) (hserves : Serves e m) (hpromise : Promised (g₀, a) e)
    (hrep : Reported g m t) : ∃ o, t.outbox = g.outbox ++ o ∧ credited o = 0 ∧
      Pending t { a.hear true e with debits := (a.hear true e).debits ++ told o } := by
  cases e with
  | timeout n =>
    obtain ⟨id, rfl⟩ := hserves
    cases hrep
  | update conf => exact hserves.elim
  | rehash => exact hserves.elim
  | msg uid address x =>
    obtain rfl : m = .msg uid x := hserves
    cases hrep with
    | loser _ money v lose hv hw hadd hlose =>
      have hmoney : 0 ≤ money := hready.reported uid _ money rfl rfl
      exact ⟨_, rfl, rfl, h.loser hpromise hmoney hv hlose _⟩
    | dropped _ money howes =>
      -- a loser that is due owes, so its report is not dropped
      obtain ⟨v, hv, -, hw, hadd⟩ := h.owes hpromise
      rw [owes_iff.mpr ⟨v, hv, hw, hadd⟩] at howes
      cases howes
    | banker _ money =>
      obtain ⟨-, hpos⟩ : a.asked = true ∧ 0 < money := hpromise
      refine ⟨[], (List.append_nil _).symm, rfl, ?_⟩
      refine ⟨h.fresh, h.unsettled, ?_, ?_, h.nodup, h.lost, h.present, h.due, h.paid,
        h.reported, ?_, fun b hb => ?_⟩
      · show money ≠ 0 ↔ (a.heard || true) = true
        rw [Bool.or_true]
        exact ⟨fun _ => rfl, fun _ => hpos.ne'⟩
      · show false = !(a.heard || true)
        rw [Bool.or_true]
        rfl
      · show List.Forall₂ _ a.reports (a.debits ++ [])
        rw [List.append_nil]
        exact h.answered
      · show b.winmoney = (a.debits ++ []).sum
        rw [List.append_nil]
        exact h.banker b hb

/-! ## The settlement -/

/-- A settlement of complete reports credits what was debited. -/
private theorem Pending.settle {g t : Game} {a : Account} (h : Pending g a) (hdone : Complete g)
    (hset : Settled g t) : ∃ o, t.outbox = g.outbox ++ o ∧ told o = [] ∧
      (a.book o [.getLastResult]).Balanced ∧ (a.book o [.getLastResult]).AllIn ∧
      a.due = [] ∧ a.asked = false := by
  obtain ⟨hall, hdue, hasked⟩ := h.allIn hdone
  obtain ⟨hnone, hcredits⟩ := h.unsettled
  cases hset with
  | mk b gp lr o r p hb hgp ho hcred =>
    have htold := rets_eq_nil_told ho
    refine ⟨o, rfl, htold, ⟨?_, ?_⟩, hall, hdue, hasked⟩
    · show a.settlements + _ = 1
      rw [hnone]
      rfl
    · show (a.debits ++ told o).sum = a.credits + credited o
      rw [htold, List.append_nil, hcredits, zero_add, hcred, h.banker b hb]

/-! ## Runs of fair agents -/

/-- What a table and its account promise each other. -/
structure AccountInv (g : Game) (a : Account) : Prop where
  waiting : g.curstate = .waitShowResult → (Pending g a ∧ ¬ Complete g) ∨
    (a.Balanced ∧ a.AllIn) ∧ a.due = [] ∧ a.asked = false
  shown : g.curstate = .showResult → a.Final

private theorem accountInv_idle {g : Game} {a : Account} (hw : g.curstate ≠ .waitShowResult)
    (hs : g.curstate ≠ .showResult) : AccountInv g a :=
  ⟨fun h => absurd h hw, fun h => absurd h hs⟩

/-- A round that opens is not waited for yet. -/
private theorem accountInv_opened {env : Env} {g t : Game} (h : Opening env g t) (a : Account) :
    AccountInv t a := by
  cases h with
  | close hsit => exact accountInv_idle (by simp) (by simp)
  | grab o hsit hneed ho => exact accountInv_idle (by simp) (by simp)
  | animate hsit hneed hsource => exact accountInv_idle (by simp) (by simp)
  | bet o hsit hneed ho => exact accountInv_idle (by simp) (by simp)

/-- The account of a table that waits is final once nothing more can come. -/
private theorem AccountInv.final {g : Game} {a : Account} (h : AccountInv g a)
    (hs : g.curstate = .waitShowResult) : a.Final := by
  rcases h.waiting hs with ⟨hpending, hmissing⟩ | ⟨hbal, -⟩
  · exact .inr ⟨hpending.unsettled.1, hpending.not_allIn hmissing, hpending.answered⟩
  · exact .inl hbal

private theorem AccountInv.alike {g t : Game} {a : Account} (h : AccountInv g a)
    (ha : Alike g t) : AccountInv t a := by
  refine ⟨fun hs => ?_, fun hs => ?_⟩
  · rw [ha.curstate] at hs
    obtain ⟨hbanker, hgp⟩ := ha.waiting hs
    rcases h.waiting hs with ⟨hpending, hmissing⟩ | hdone
    · refine .inl ⟨hpending.congr ha.havegetresult ha.bankermoney hbanker hgp, fun hc => ?_⟩
      apply hmissing
      refine ⟨by rw [← ha.bankermoney]; exact hc.1, fun k v hv => ?_⟩
      rw [← hbanker]
      exact hc.2 k v ((hgp k).trans hv)
    · exact .inr hdone
  · rw [ha.curstate] at hs
    exact h.shown hs

/-- Every event but a report leaves the account as it is. -/
private theorem hear_of_ignored {env : Env} {g : Game} {a : Account} {e : Event} {m : Mtype}
    (hserves : Serves e m) (hi : Ignored env g m) (hs : g.curstate = .waitShowResult) :
    a.hear true e = a := by
  cases e with
  | msg uid address x =>
    obtain rfl : m = .msg uid x := hserves
    cases x with
    | loserGetResult money => simp [Ignored, hs] at hi
    | bankerMoney money => simp [Ignored, hs] at hi
    | _ => rfl
  | _ => rfl

private theorem noteAccount_within {g t : Game} {e : Event} {a : Account}
    (h : ¬ (g.curstate = .choicePokerType ∧ t.curstate = .waitShowResult)) :
    noteAccount g e t a
      = (a.hear (decide (g.curstate = .waitShowResult)) e).book t.outbox t.calls := by
  unfold noteAccount
  rw [if_neg h]

/-- The comparison opens the account of a table that waits for reports. -/
private theorem accountInv_opening {g t : Game} {e : Event} {a : Account} {o o' : List Out}
    (hs : g.curstate = .choicePokerType) (ht : t.curstate = .waitShowResult)
    (hcalls : t.calls = []) (hout : t.outbox = o ++ o') (ho : Idle o) (htold : told o' = [])
    (hcredit : credited o' = 0) (hpending : Pending t (.opened (notified o')))
    (hopen : ¬ Complete t) : AccountInv t (noteAccount g e t a) := by
  have hnote : noteAccount g e t a = .opened (notified o') := by
    unfold noteAccount
    rw [if_pos ⟨hs, ht⟩, hout, hcalls, notified_append, ho.silent.1,
      Account.book_after_idle _ _ ho]
    exact Account.book_silent _ htold hcredit rfl
  rw [hnote]
  exact ⟨fun _ => .inl ⟨hpending, hopen⟩, fun hshow => by rw [ht] at hshow; cases hshow⟩

/-- No report is promised any more once every loser and the banker were heard. -/
private theorem Reported.not_promised {g t g₀ : Game} {e : Event} {m : Mtype} {a : Account}
    (hrep : Reported g m t) (hserves : Serves e m) (hpromise : Promised (g₀, a) e)
    (hdue : a.due = []) (hasked : a.asked = false) : False := by
  cases e with
  | timeout n =>
    obtain ⟨id, rfl⟩ := hserves
    cases hrep
  | update conf => exact hserves
  | rehash => exact hserves
  | msg uid address x =>
    obtain rfl : m = .msg uid x := hserves
    have hnone : uid ∉ a.due := by
      rw [hdue]
      exact List.not_mem_nil
    cases hrep with
    | loser _ money v lose hv hw hadd hlose => exact hnone hpromise
    | dropped _ money howes => exact hnone hpromise
    | banker _ money =>
      have hask : a.asked = true := hpromise.1
      rw [hasked] at hask
      cases hask

private theorem Chosen.idle {env : Env} {g t : Game} {uid : Uid} {ty : ℤ} {cards : List Card}
    (hch : Chosen env g uid ty cards t) : ∃ o, t.outbox = g.outbox ++ o ∧ Idle o := by
  cases hch with
  | reject o ho => exact ⟨o, rfl, idle_of_direct_nil ho⟩
  | accept v r o hv hcheck ho => exact ⟨o, rfl, idle_of_direct_nil ho⟩

/-- A move keeps table and account in step. -/
private theorem move_account {env : Env} {g t g₀ : Game} {e : Event} {m : Mtype} {a : Account}
    (hready : Ready g m) (hserves : Serves e m) (hpromise : Promised (g₀, a) e) (hbooks : Books g)
    (hbets : Bets g) (hcalls : g.calls = []) (hidle : Idle g.outbox) (h : AccountInv g a)
    (hmove : Move env g m t) : AccountInv t (noteAccount g e t a) := by
  cases hmove with
  | ignore _ hi =>
    rw [noteAccount_within fun hno => by rw [hno.1] at hno; exact absurd hno.2 (by decide),
      Account.book_idle _ hidle hcalls]
    refine ⟨fun hs => ?_, fun hs => ?_⟩
    · rw [hs, decide_eq_true rfl, hear_of_ignored hserves hi hs]
      exact h.waiting hs
    · rw [hs]
      exact (h.shown hs).hear e
  | startRound log o t hs ho hopen =>
    exact accountInv_opened hopen _
  | chooseBanker _ uid source money gp o t hs huid ho hgp hopen =>
    exact accountInv_opened hopen _
  | grab uid x gp o hs ho hgp =>
    exact accountInv_idle (by rw [hs]; decide) (by rw [hs]; decide)
  | bet uid betmoney gp o hs hall ho hgp =>
    exact accountInv_idle (by rw [hs]; decide) (by rw [hs]; decide)
  | choice uid ty cards g₁ hs hch hall =>
    exact accountInv_idle (by rw [hch.same.1, hs]; decide) (by rw [hch.same.1, hs]; decide)
  | compare uid ty cards g₁ g₂ hs hch hall hcmp =>
    have hearly : g.curstate.Early := by
      rw [hs]
      trivial
    obtain ⟨hbanker, hconf, hsame⟩ := hch.bets
    obtain ⟨hun, hget⟩ := hch.untouched (hbooks.untouched hearly)
    have hfresh := hbooks.unsettled (by rw [hs]; decide) (by rw [hs]; decide)
    obtain ⟨o, hout, htold, hcredit, hpending, hopen⟩ := hcmp.pending
      (chosen_sound hready.sound hs hch).1 hun (hget.trans hfresh)
      (by rw [hconf]; exact (hbets.atLeast hearly).updated hsame)
      (by rw [hbanker]; exact (hbets.all (.inr hs)).updated hsame)
    obtain ⟨o₁, hout₁, hidle₁⟩ := hch.idle
    rw [hout₁] at hout
    exact accountInv_opening hs rfl (hcmp.same.2.2.trans (hch.same.2.2.trans hcalls)) hout
      (idle_append hidle hidle₁) htold hcredit (hpending.congr rfl rfl rfl fun _ => rfl) hopen
  | timeUp gp st n r o t hs ho hn hgp hst hcmp =>
    have hearly : g.curstate.Early := by
      rw [hs]
      trivial
    have hsame : Table.Updated (fun _ => SameBet) g.gameplayer gp := hgp.mono fun _ _ _ hvw => by
      rw [hvw]
      exact ⟨rfl, rfl⟩
    have hun : Untouched gp := (hbooks.untouched hearly).updated (hgp.mono fun _ _ _ hvw => by
      rw [hvw]
      exact ⟨rfl, rfl⟩)
    have hfresh := hbooks.unsettled (by rw [hs]; decide) (by rw [hs]; decide)
    obtain ⟨o₂, hout, htold, hcredit, hpending, hopen⟩ := hcmp.pending
      (seated_updated hready.inv.seats.seated hgp (fun _ _ _ hw => by rw [hw]) hst n r o) hun
      hfresh ((hbets.atLeast hearly).updated hsame) ((hbets.all (.inr hs)).updated hsame)
    exact accountInv_opening hs rfl (hcmp.same.2.2.trans hcalls) hout
      (idle_append hidle (idle_of_direct_nil ho)) htold hcredit
      (hpending.congr rfl rfl rfl fun _ => rfl) hopen
  | report _ g₁ hs hrep hcan =>
    have ht : t.curstate = .waitShowResult := hrep.same.1.trans hs
    obtain ⟨hsize, hbanker, hhands⟩ := hready.inv.hand (.inr hs)
    have hseated := (reported_inv hready.inv.seats hsize hbanker hhands hrep).1.seated
    rw [noteAccount_within fun hno => by rw [hs] at hno; exact absurd hno.1 (by decide), hs,
      decide_eq_true rfl]
    refine ⟨fun _ => ?_, fun hshow => by rw [ht] at hshow; cases hshow⟩
    rcases h.waiting hs with ⟨hpending, -⟩ | ⟨-, hdue, hasked⟩
    · obtain ⟨o, hout, hcredit, hnext⟩ := hpending.report hready hserves hpromise hrep
      rw [hout, Account.book_after_idle _ _ hidle]
      refine .inl ⟨?_, fun hc => ?_⟩
      · unfold Account.book
        rw [hrep.same.2.2, hcalls, hcredit, add_zero]
        exact hnext
      · rw [(canGetLastResult_iff hseated).mpr hc] at hcan
        cases hcan
    · exact (hrep.not_promised hserves hpromise hdue hasked).elim
  | settle _ g₁ t hs hrep hcan hset =>
    have ht : t.curstate = .waitShowResult := hset.same.1.trans (hrep.same.1.trans hs)
    obtain ⟨hsize, hbanker, hhands⟩ := hready.inv.hand (.inr hs)
    have hseated := (reported_inv hready.inv.seats hsize hbanker hhands hrep).1.seated
    rw [noteAccount_within fun hno => by rw [hs] at hno; exact absurd hno.1 (by decide), hs,
      decide_eq_true rfl]
    refine ⟨fun _ => .inr ?_, fun hshow => by rw [ht] at hshow; cases hshow⟩
    rcases h.waiting hs with ⟨hpending, -⟩ | ⟨-, hdue, hasked⟩
    · obtain ⟨o, hout, hcredit, hnext⟩ := hpending.report hready hserves hpromise hrep
      obtain ⟨o', hout', -, hbal, hall, hdue, hasked⟩ :=
        hnext.settle ((canGetLastResult_iff hseated).mp hcan) hset
      -- the debit of the report and the credits of the settlement come in one dispatch
      have hbook : (a.hear true e).book t.outbox t.calls
          = Account.book { a.hear true e with debits := (a.hear true e).debits ++ told o } o'
            [.getLastResult] := by
        rw [hout', hout, List.append_assoc, Account.book_after_idle _ _ hidle, hset.same.2.2,
          hrep.same.2.2, hcalls]
        unfold Account.book
        rw [told_append, credited_append, hcredit, zero_add, List.append_assoc]
        rfl
      rw [hbook]
      exact ⟨⟨hbal, hall⟩, hdue, hasked⟩
    · exact (hrep.not_promised hserves hpromise hdue hasked).elim
  | reveal o hs ho =>
    have hhear : a.hear true e = a := by
      cases e with
      | msg uid address x => cases hserves
      | _ => rfl
    rw [noteAccount_within fun hno => by rw [hs] at hno; exact absurd hno.1 (by decide), hs,
      decide_eq_true rfl, hhear,
      Account.book_idle _ (idle_append hidle (idle_of_direct_nil ho)) hcalls]
    exact ⟨by simp, fun _ => h.final hs⟩
  | close t hs hclosed =>
    cases hclosed with
    | mk n r p conf o again hn ho hagain =>
      cases again with
      | _ => exact accountInv_idle (by simp) (by simp)
  | _ => exact accountInv_idle (by simp) (by simp)

/-! ## Whole runs -/

theorem account_inductive : fair.Inductive fun p => AccountInv p.1 p.2 where
  init := by
    rintro p ⟨⟨conf, hconf⟩, -⟩
    rw [hconf]
    exact accountInv_idle (by simp [creatGame]) (by simp [creatGame])
  step := by
    rintro p e q hp h ⟨hpromise, hstep, hnote⟩
    have hreach := hp.of_restrict.of_observe
    have hinv := inv_invariant _ hreach
    have hbooks := books_invariant _ hreach
    have hbets := bets_inductive.invariant p hp
    obtain ⟨g', halike, hcase⟩ := (hstep.stepped hinv).split hinv
    have hsame : noteAccount p.1 e q.1 p.2 = noteAccount g' e q.1 p.2 := by
      unfold noteAccount
      rw [halike.curstate]
    rw [hnote, hsame]
    rcases hcase with ⟨hq, hno⟩ | ⟨env, m, hserves, hready, hmove⟩
    · have hhear : p.2.hear (decide (g'.curstate = .waitShowResult)) e = p.2 := by
        cases e with
        | msg uid address x => exact absurd rfl (hno uid address x)
        | _ => rfl
      rw [hq, noteAccount_within fun hno => by rw [hno.1] at hno; exact absurd hno.2 (by decide),
        hhear, Account.book_idle _ halike.idle halike.calls]
      exact h.alike halike
    · exact move_account hready hserves hpromise (hbooks.alike halike) (hbets.alike halike)
        halike.calls halike.idle (h.alike halike) hmove

theorem account_invariant : fair.Invariant fun p => AccountInv p.1 p.2 :=
  account_inductive.invariant

/-- Fair agents are settled once a round. -/
private theorem settled_first {p q : Game × Account} {e : Event} (hp : fair.Reachable p)
    (hstep : fair.step p e q) (hmem : Proc.getLastResult ∈ q.1.calls) :
    p.1.havegetresult = false := by
  obtain ⟨hpromise, hstep, -⟩ := hstep
  have hinv := inv_invariant _ hp.of_restrict.of_observe
  obtain ⟨g', halike, ⟨hq, -⟩ | ⟨env, m, hserves, -, hmove⟩⟩ :=
    (hstep.stepped hinv).split hinv
  · rw [hq, halike.calls] at hmem
    exact absurd hmem List.not_mem_nil
  · obtain ⟨g₁, hs, hrep, -, -⟩ := hmove.settles halike.calls hmem
    rcases (account_invariant p hp).waiting (halike.curstate.symm.trans hs) with
      ⟨hpending, -⟩ | ⟨-, hdue, hasked⟩
    · exact hpending.fresh
    · exact (hrep.not_promised hserves hpromise hdue hasked).elim

/-- **Settlements.** A settlement by a banker with money is zero-sum and solvent
exactly if it finds the banker's own result to be what the losers have paid. The
first of a round always is, whatever was bet and reported; and with fair agents,
who bet at least the base bet, every settlement is the first of its round. -/
theorem settlement_zeroSum {p q : Game × Account} {e : Event} (hp : roundSystem.Reachable p)
    (hstep : roundSystem.step p e q) (hmem : Proc.getLastResult ∈ q.1.calls) :
    (0 < p.1.moneyBefore e → (ZeroSum (p.1.moneyBefore e) q.1 ↔ PaidIn p.1)) ∧
      (p.1.havegetresult = false → ZeroSum (p.1.moneyBefore e) q.1) ∧
      (fair.Reachable p → fair.step p e q → ZeroSum (p.1.moneyBefore e) q.1) := by
  have hg := hp.of_observe
  refine ⟨settlement_zeroSum_iff hg hstep.1 hmem, first_settlement_zeroSum hg hstep.1 hmem, ?_⟩
  intro hfair hfairstep
  exact first_settlement_zeroSum hg hstep.1 hmem (settled_first hfair hfairstep hmem)

/-- Of three players the third is banker, the first bets 50 and the second `bet`;
the table waits for results, the first having won and the second lost. -/
def threeRound (bet : ℚ) : List Event :=
  [.msg 1 101 .someOneEnter, .msg 2 102 .someOneEnter, .msg 3 103 .someOneEnter,
    .msg 1 101 .someOneSit, .msg 2 102 .someOneSit, .msg 3 103 .someOneSit, .timeout 0,
    .msg 1 101 (.someOneGrab 2 10000), .msg 2 102 (.someOneGrab 2 10000),
    .msg 3 103 (.someOneGrab 1 10000), .msg 1 101 (.someOneBet 50), .msg 2 102 (.someOneBet bet),
    .timeout 2, .timeout 2]

/-- A step that settles at the end of a run. -/
private theorem exists_settlement {l : List Event} {e : Event} {c : Game × Account → Game → Bool}
    (h : (TSys.execAll (TSys.observeExec (exec .quiet) noteAccount)
      (creatGame .base50, Account.blank) l).any (fun p => (exec .quiet p.1 e).any fun t =>
        decide (Proc.getLastResult ∈ t.calls) && c p t) = true) :
    ∃ p t, roundSystem.Reachable p ∧ system.step p.1 e t ∧ Proc.getLastResult ∈ t.calls ∧
      c p t = true := by
  obtain ⟨p, hp, hend⟩ := TSys.reachable_of_exec (T := roundSystem)
    (TSys.observeExec_step (exec_step .quiet)) ⟨⟨_, rfl⟩, rfl⟩ h
  obtain ⟨t, ht, hc⟩ := (Option.any_eq_true _ _).mp hend
  obtain ⟨hmem, hc⟩ := Bool.and_eq_true_iff.mp hc
  exact ⟨p, t, hp, exec_step .quiet p.1 e t ht, of_decide_eq_true hmem, hc⟩

/-- The loser pays 50, then the banker's money settles the round: of its 10000 and
the 50 the winner gets 150. -/
theorem settlement_zeroSum_three : ∃ g t, system.Reachable g ∧
    system.step g (.msg 3 103 (.bankerMoney 10000)) t ∧ Proc.getLastResult ∈ t.calls ∧
    g.losses = 50 ∧ t.winnings = 150 ∧
    (ZeroSum (g.moneyBefore (.msg 3 103 (.bankerMoney 10000))) t ↔ PaidIn g) ∧ PaidIn g := by
  obtain ⟨p, t, hp, hstep, hmem, hc⟩ := exists_settlement
    (l := threeRound 50 ++ [.msg 2 102 (.loserGetResult 10000)])
    (e := .msg 3 103 (.bankerMoney 10000))
    (c := fun p t => decide (p.1.losses = 50 ∧ t.winnings = 150 ∧ PaidIn p.1)) (by decide +kernel)
  obtain ⟨hlosses, hwinnings, hpaidIn⟩ := of_decide_eq_true hc
  have hround : roundSystem.step p (.msg 3 103 (.bankerMoney 10000))
      (t, noteAccount p.1 (.msg 3 103 (.bankerMoney 10000)) t p.2) := ⟨hstep, rfl⟩
  have hzero := (settlement_zeroSum hp hround hmem).1 (by norm_num [moneyBefore])
  exact ⟨p.1, t, hp.of_observe, hstep, hmem, hlosses, hwinnings, hzero, hpaidIn⟩

/-- A bet of less than the base bet loses nothing, but the loser is told to report;
the report, with nothing missing any more, settles the round a second time. -/
theorem settled_again : ∃ p t, roundSystem.Reachable p ∧
    system.step p.1 (.msg 2 102 (.loserGetResult 10000)) t ∧ 2 ∈ p.2.due ∧
    Proc.getLastResult ∈ t.calls ∧ 0 < p.1.bankermoney ∧ t.forcequitplayer = .empty ∧
    ¬ ZeroSum p.1.bankermoney t := by
  obtain ⟨p, t, hp, hstep, hmem, hc⟩ := exists_settlement
    (l := threeRound 10 ++ [.msg 3 103 (.bankerMoney 10000)])
    (e := .msg 2 102 (.loserGetResult 10000))
    (c := fun p t => decide (2 ∈ p.2.due ∧ 0 < p.1.bankermoney ∧ t.forcequitplayer = .empty ∧
      (t.gameplayer.sum fun _ v => v.winmoney) = -150)) (by decide +kernel)
  obtain ⟨hdue, hmoney, hforce, htotal⟩ := of_decide_eq_true hc
  refine ⟨p, t, hp, hstep, hdue, hmem, hmoney, hforce, fun hzero => ?_⟩
  have hsum := hzero.total
  rw [htotal] at hsum
  norm_num at hsum

/-- A round ends in the state that shows its results. -/
private theorem resert_shown {g t : Game} {e : Event} (hg : system.Reachable g)
    (hstep : system.step g e t) (hmem : Proc.resertGame ∈ t.calls) : g.curstate = .showResult := by
  have hinv := inv_invariant g hg
  obtain ⟨g', halike, ⟨rfl, -⟩ | ⟨env, m, -, -, hmove⟩⟩ := (hstep.stepped hinv).split hinv
  · rw [halike.calls] at hmem
    exact absurd hmem List.not_mem_nil
  · rcases hmove.entered with (hnone | hopen) | ⟨g₁, -, -, -, -, hset⟩ | ⟨hs, -⟩
    · simp [hnone, halike.calls] at hmem
    · simp [hopen, halike.calls] at hmem
    · simp [hset, halike.calls] at hmem
    · exact halike.curstate.symm.trans hs

/-- **Conservation.** When a round of fair agents ends, what was debited was
settled once and credited, if and only if the reports that came before
`T_WAIT_SHOW_RESULT` are complete and positive, or all are nothing; and the round
was settled if and only if they are complete and positive. -/
theorem conserved_iff_timely {p q : Game × Account} {e : Event} (hp : fair.Reachable p)
    (hstep : fair.step p e q) (hmem : Proc.resertGame ∈ q.1.calls) :
    (p.2.Conserved ↔ p.2.Timely) ∧ (p.2.Balanced ↔ p.2.AllIn) := by
  have hshown := resert_shown hp.of_restrict.of_observe hstep.2.1 hmem
  exact ((account_invariant p hp).shown hshown).conserved_iff

/-- The last step of a run of fair agents, if it ends a round: it is taken when
`T_SHOW_RESULT` comes due. -/
private theorem exists_resert {l : List Event} {c : Account → Bool} {n : ℕ}
    (h : (TSys.execAll (TSys.restrictExec Promised (TSys.observeExec (exec .quiet) noteAccount))
      (creatGame .base50, Account.blank) l).any (fun p => c p.2 &&
        (TSys.restrictExec Promised (TSys.observeExec (exec .quiet) noteAccount) p
          (.timeout n)).any fun q : Game × Account => decide (Proc.resertGame ∈ q.1.calls))
      = true) :
    ∃ p q, fair.Reachable p ∧ fair.step p (.timeout n) q ∧ Proc.resertGame ∈ q.1.calls ∧
      c p.2 = true := by
  have hexec : ∀ p e q, TSys.restrictExec Promised
      (TSys.observeExec (exec .quiet) noteAccount) p e = some q → fair.step p e q :=
    TSys.restrictExec_step (TSys.observeExec_step (exec_step .quiet))
  obtain ⟨p, hp, hend⟩ := TSys.reachable_of_exec (T := fair) hexec ⟨⟨_, rfl⟩, rfl⟩ h
  obtain ⟨hc, hnext⟩ := Bool.and_eq_true_iff.mp hend
  obtain ⟨q, hq, hmem⟩ := (Option.any_eq_true _ _).mp hnext
  exact ⟨p, q, hp, hexec p _ q hq, of_decide_eq_true hmem, hc⟩

/-- A round in which the loser and the banker report in time. -/
def settledRun : List Event :=
  toResults ++ [.msg 2 102 (.loserGetResult 10000), .msg 1 101 (.bankerMoney 10000), .timeout 2]

/-- A round whose reports come in time is settled. -/
theorem conserved_iff_timely_settled : ∃ p, fair.Reachable p ∧ p.2.debits = [150] ∧
    p.2.Balanced := by
  obtain ⟨p, q, hp, hstep, hmem, hc⟩ := exists_resert (l := settledRun) (n := 2)
    (c := fun a => decide (a.debits = [150] ∧ a.losers = [2] ∧ a.reports = [(2, 10000)] ∧
      a.heard = true)) (by decide +kernel)
  obtain ⟨hdebits, hlosers, hreports, hheard⟩ := of_decide_eq_true hc
  have hall : p.2.AllIn := by
    refine ⟨fun uid huid => ⟨10000, ?_, by norm_num⟩, hheard⟩
    rw [hlosers] at huid
    rw [hreports, List.mem_singleton.mp huid]
    exact List.mem_singleton_self _
  exact ⟨p, hp, hdebits, (conserved_iff_timely hp hstep hmem).2.mpr hall⟩

/-- The loser reports and is debited, and the timer comes before the banker's money. -/
def overtakenBankerRun : List Event :=
  toResults ++ [.msg 2 102 (.loserGetResult 10000), .timeout 2]

/-- A loser can be debited in a round that is never settled. -/
theorem debit_not_settled :
    ∃ p e q, fair.Reachable p ∧ fair.step p e q ∧ Proc.resertGame ∈ q.1.calls ∧
      (∃ d ∈ p.2.debits, d ≠ 0) ∧ p.2.settlements = 0 := by
  obtain ⟨p, q, hp, hstep, hmem, hc⟩ := exists_resert (l := overtakenBankerRun) (n := 2)
    (c := fun a => decide (a.debits = [150] ∧ a.settlements = 0)) (by decide +kernel)
  obtain ⟨hdebits, hnone⟩ := of_decide_eq_true hc
  refine ⟨p, _, q, hp, hstep, hmem, ⟨150, ?_, by norm_num⟩, hnone⟩
  rw [hdebits]
  exact List.mem_singleton_self _

end Game

end DnServer.Bullfight
