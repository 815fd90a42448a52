import DnServer.Bullfight.Game.Accounts
import DnServer.Bullfight.Game.Invariant

/-!
# The game service: the books of a round

No record of a round has a result before the comparison, and from the comparison
on every payment of a loser is booked against the banker. `books_invariant`:
whenever a round is settled for the first time its books balance.
`settlement_zeroSum_iff`: a settlement is zero-sum and solvent exactly if the
banker's own result still is what the losers paid, which a first one finds.
-/

namespace DnServer.Bullfight

open DnServer.Lib

namespace Game

/-! ## Steps up to the handler -/

/-- What is sent before a handler of the states is called: packets, new
configurations, and answers to the requests to leave. -/
def Out.Idle : Out → Prop
  | .relay _ _ => True
  | .send _ (.updateGameconf _) => True
  | .ret (.code _) => True
  | _ => False

def Idle (o : List Out) : Prop := ∀ x ∈ o, x.Idle

theorem idle_nil : Idle [] := fun _ hx => absurd hx List.not_mem_nil

theorem idle_of_direct_nil {o : List Out} (h : direct o = []) : Idle o := by
  intro x hx
  have hrelay := List.filter_eq_nil_iff.mp h x hx
  cases x with
  | relay p m => trivial
  | _ => exact absurd rfl hrelay

theorem idle_append {o o' : List Out} (h : Idle o) (h' : Idle o') : Idle (o ++ o') := by
  intro x hx
  rcases List.mem_append.mp hx with hx | hx
  · exact h x hx
  · exact h' x hx

/-- `t` is `g` as far as the accounts of a round go, and no handler was called. -/
structure Alike (g t : Game) : Prop where
  curstate : t.curstate = g.curstate
  havegetresult : t.havegetresult = g.havegetresult
  bankermoney : t.bankermoney = g.bankermoney
  calls : t.calls = []
  idle : Idle t.outbox
  records : ∀ k v, t.gameplayer.get? k = some v → g.gameplayer.get? k = some v
  started : g.isGameStart = true →
    g.gameplayer.SameEntries t.gameplayer ∧ t.gameconf = g.gameconf
  banker : g.isGameStart = true → g.curstate ≠ .grabTheBanker → t.banker = g.banker

private theorem alike_begin (g : Game) (timers : Timers TimerId) :
    Alike g ({ g with timers := timers } : Game).begin :=
  ⟨rfl, rfl, rfl, rfl, idle_nil, fun _ _ hv => hv,
    fun _ => ⟨Table.SameEntries.refl _, rfl⟩, fun _ _ => rfl⟩

private theorem pretreat_idle (env : Env) (g : Game) (uid : Uid) (address : Address) (m : Msg) :
    Idle (g.begin.pretreat env uid address m).outbox := by
  have hcode : ∀ errcode, Idle [.ret (.code errcode)] := by
    intro errcode x hx
    rw [List.mem_singleton.mp hx]
    trivial
  cases m with
  | someOneEnter =>
    obtain ⟨players, o, ho, henter⟩ := pretreat_enter env g.begin uid address
    rw [henter]
    exact idle_of_direct_nil ho
  | tryStand =>
    by_cases hbusy : uid ∈ g.begin.gameplayer ∧ g.begin.isGameStart = true
    · rw [(pretreat_busy env address hbusy).1]
      exact hcode _
    · rw [(pretreat_leave env address hbusy).1]
      exact hcode _
  | tryQuit =>
    by_cases hbusy : uid ∈ g.begin.gameplayer ∧ g.begin.isGameStart = true
    · rw [(pretreat_busy env address hbusy).2]
      exact hcode _
    · rw [(pretreat_leave env address hbusy).2]
      exact hcode _
  | _ => exact idle_nil

private theorem alike_pretreat {g : Game} (h : Inv g) (env : Env) (uid : Uid) (address : Address)
    (m : Msg) : Alike g (g.begin.pretreat env uid address m) := by
  have hpre := pretreat_pretreated (begin_inv h) env uid address m
  refine ⟨hpre.curstate, hpre.havegetresult, hpre.bankermoney, hpre.calls,
    pretreat_idle env g uid address m, hpre.records, fun hstart => ⟨?_, hpre.gameconf⟩,
    hpre.banker⟩
  rw [hpre.started hstart]
  exact Table.SameEntries.refl _

private theorem alike_update (g : Game) (conf : GameConf) :
    Alike g (g.needUpdateGameconf conf) := by
  have hsends : Idle (g.players.pairs.map fun p => Out.send p.2 (.updateGameconf conf)) := by
    intro x hx
    obtain ⟨p, -, rfl⟩ := List.mem_map.mp hx
    trivial
  by_cases hstart : g.isGameStart = true
  · have hkeep : g.needUpdateGameconf conf = { g.begin with updateconf := some conf } :=
      if_neg (not_not.mpr hstart)
    rw [hkeep]
    exact ⟨rfl, rfl, rfl, rfl, idle_nil, fun _ _ hv => hv,
      fun _ => ⟨Table.SameEntries.refl _, rfl⟩, fun _ _ => rfl⟩
  · -- a new configuration is sent to everybody, which only happens between rounds
    have hnew : g.needUpdateGameconf conf = { g.begin with
        gameconf := conf
        updateconf := none
        outbox := [] ++ g.players.pairs.map fun p => Out.send p.2 (.updateGameconf conf) } :=
      if_pos hstart
    rw [hnew]
    exact ⟨rfl, rfl, rfl, rfl, hsends, fun _ _ hv => hv, fun h => absurd h hstart,
      fun h => absurd h hstart⟩

/-- What the handler is called for, if an event calls one. -/
def Serves : Event → Mtype → Prop
  | .msg uid _ x, m => m = .msg uid x
  | .timeout _, m => ∃ id, m = .timer id
  | _, _ => False

/-- Every step goes through an alike table, and either ends there, which a message
never does, or makes a move from it. -/
theorem Stepped.split {g t : Game} {e : Event} (hinv : Inv g) (h : Stepped g e t) :
    ∃ g', Alike g g' ∧ ((t = g' ∧ ∀ uid address x, e ≠ .msg uid address x) ∨
      ∃ env m, Serves e m ∧ Ready g' m ∧ Move env g' m t) := by
  cases h with
  | msg env uid address m t hready hmove =>
    exact ⟨_, alike_pretreat hinv env uid address m, .inr ⟨env, _, rfl, hready, hmove⟩⟩
  | fire env n p t hp hlive hready hmove =>
    exact ⟨_, alike_begin g _, .inr ⟨env, _, ⟨_, rfl⟩, hready, hmove⟩⟩
  | stale n p hp hlive => exact ⟨_, alike_begin g _, .inl ⟨rfl, by simp⟩⟩
  | idle n => exact ⟨_, alike_begin g g.timers, .inl ⟨rfl, by simp⟩⟩
  | update conf => exact ⟨_, alike_update g conf, .inl ⟨rfl, by simp⟩⟩
  | rehash t ht =>
    obtain ⟨seater, gameplayer, players, -, hgameplayer, -, rfl⟩ := ht
    have halike : Alike g { g.begin with
        seater := seater, gameplayer := gameplayer, players := players } := by
      refine ⟨rfl, rfl, rfl, rfl, idle_nil, fun k v hv => ?_, fun _ => ⟨hgameplayer, rfl⟩,
        fun _ _ => rfl⟩
      rw [hgameplayer.get?]
      exact hv
    exact ⟨_, halike, .inl ⟨rfl, by simp⟩⟩

/-! ## Books that are kept -/

/-- No record has a result. -/
def Untouched (t : Table Uid GamePlayer) : Prop :=
  ∀ k v, t.get? k = some v → v.winmoney = 0 ∧ v.totaladd = 0

/-- `w` has the result of `v`. -/
def SameResult (v w : GamePlayer) : Prop :=
  w.winmoney = v.winmoney ∧ w.totaladd = v.totaladd

theorem OnlyGrab.sameResult {v w : GamePlayer} (h : OnlyGrab v w) : SameResult v w := by
  rw [h.1]
  exact ⟨rfl, rfl⟩

theorem OnlyBet.sameResult {bids : ℚ → Prop} {v w : GamePlayer} (h : OnlyBet bids v w) :
    SameResult v w := by
  rw [h.1]
  exact ⟨rfl, rfl⟩

theorem OnlyCards.sameResult {v w : GamePlayer} (h : OnlyCards v w) : SameResult v w := by
  rw [h]
  exact ⟨rfl, rfl⟩

theorem SameResult.trans {u v w : GamePlayer} (h : SameResult u v) (h' : SameResult v w) :
    SameResult u w := ⟨h'.1.trans h.1, h'.2.trans h.2⟩

theorem Untouched.updated {s t : Table Uid GamePlayer} (h : Untouched s)
    (ht : Table.Updated (fun _ => SameResult) s t) : Untouched t := by
  intro k w hw
  obtain ⟨v, hv, hwin, hadd⟩ := ht.get?_of_new hw
  rw [hwin, hadd]
  exact h k v hv

/-- The states between the start of a round and its comparison. -/
def CurState.Early : CurState → Prop
  | .grabTheBanker | .waitBet | .dealPoker | .choicePokerType => True
  | _ => False

/-- What the state promises about the books of the round. -/
structure Books (g : Game) : Prop where
  unsettled : g.curstate ≠ .waitShowResult → g.curstate ≠ .showResult → g.havegetresult = false
  untouched : g.curstate.Early → Untouched g.gameplayer
  collected : g.curstate = .waitShowResult → g.havegetresult = false → Collected g
  standing : g.curstate = .waitShowResult → Standing g

/-- Books that only need the round not to have been compared. -/
private theorem books_early {g : Game} (hw : g.curstate ≠ .waitShowResult)
    (hget : g.havegetresult = false) (h : g.curstate.Early → Untouched g.gameplayer) : Books g :=
  ⟨fun _ _ => hget, h, fun hs => absurd hs hw, fun hs => absurd hs hw⟩

theorem CurState.Early.started {g : Game} (h : g.curstate.Early) : g.isGameStart = true := by
  cases hs : g.curstate with
  | waitPlayer =>
    rw [hs] at h
    exact h.elim
  | waitStartGame =>
    rw [hs] at h
    exact h.elim
  | showResult =>
    rw [hs] at h
    exact h.elim
  | _ => simp [isGameStart, hs]

theorem Collected.alike {g t : Game} (h : Collected g) (ha : Alike g t)
    (hs : g.curstate = .waitShowResult) : Collected t := by
  have hstart : g.isGameStart = true := by simp [isGameStart, hs]
  obtain ⟨hentries, -⟩ := ha.started hstart
  have hbanker := ha.banker hstart (by rw [hs]; decide)
  refine ⟨?_, fun k v hv hk => ?_, fun k v hv hk hadd => ?_, ?_⟩
  · rw [ha.bankermoney]
    exact h.bankermoney
  · rw [hbanker] at hk
    exact h.paid k v (ha.records k v hv) hk
  · rw [hbanker] at hk
    exact h.loser k v (ha.records k v hv) hk hadd
  · rw [← hentries.sum]
    exact h.total

private theorem Alike.banker_waiting {g t : Game} (ha : Alike g t)
    (hs : g.curstate = .waitShowResult) : t.banker = g.banker :=
  ha.banker (by simp [isGameStart, hs]) (by rw [hs]; decide)

theorem Standing.alike {g t : Game} (h : Standing g) (ha : Alike g t)
    (hs : g.curstate = .waitShowResult) : Standing t := by
  have hbanker := ha.banker_waiting hs
  refine ⟨fun k v hv hk => ?_, fun k v hv hk => ?_⟩
  · rw [hbanker] at hk
    exact h.paid k v (ha.records k v hv) hk
  · rw [hbanker] at hk
    exact h.even k v (ha.records k v hv) hk

theorem paidIn_alike {g t : Game} (ha : Alike g t) (hs : g.curstate = .waitShowResult) :
    PaidIn t ↔ PaidIn g := by
  obtain ⟨hentries, -⟩ := ha.started (by simp [isGameStart, hs])
  have hlosses : t.losses = g.losses := by
    unfold losses
    rw [ha.banker_waiting hs, hentries.sum]
  unfold PaidIn
  rw [ha.banker_waiting hs, hlosses, ← hentries.get?]

theorem Books.alike {g t : Game} (h : Books g) (ha : Alike g t) : Books t := by
  refine ⟨fun hw hs => ?_, fun hearly k v hv => ?_, fun hs hget => ?_, fun hs => ?_⟩
  · rw [ha.curstate] at hw hs
    rw [ha.havegetresult]
    exact h.unsettled hw hs
  · rw [ha.curstate] at hearly
    exact h.untouched hearly k v (ha.records k v hv)
  · rw [ha.curstate] at hs
    rw [ha.havegetresult] at hget
    exact (h.collected hs hget).alike ha hs
  · rw [ha.curstate] at hs
    exact (h.standing hs).alike ha hs

/-! ## Collecting -/

theorem loserWin_nonpos {needlose money : ℚ} (hneed : needlose ≤ 0) (hmoney : 0 ≤ money) :
    loserWin needlose money ≤ 0 := by
  unfold loserWin
  by_cases hall : money ≥ -needlose
  · rw [if_pos hall]
    exact hneed
  · rw [if_neg hall]
    exact neg_nonpos.mpr hmoney

/-- What a player without a result loses is its result, and the banker gains it. -/
theorem collect_winmoney {g : Game} {uid : Uid} {v : GamePlayer}
    (hv : g.gameplayer.get? uid = some v) (hw : v.winmoney = 0) (win : ℚ) :
    Table.Updated (fun k x y => OnlyWin x y ∧ y.winmoney = x.winmoney
      + (if k = uid then win else 0) + if k = g.banker then -win else 0)
      g.gameplayer (g.collect uid win) := by
  have hset : Table.Updated (fun k x y => OnlyWin x y ∧ y.winmoney = x.winmoney
      + if k = uid then win else 0) g.gameplayer
      (g.gameplayer.modify uid fun v => { v with winmoney := win }) := by
    refine ⟨Table.keys_mapVal _ _, fun k x y hx hy => ?_⟩
    rw [Table.get?_modify, hx] at hy
    by_cases hk : k = uid
    · rw [if_pos hk] at hy
      cases hy
      rw [hk, hv] at hx
      cases hx
      exact ⟨rfl, by rw [if_pos hk, hw, zero_add]⟩
    · rw [if_neg hk] at hy
      cases hy
      exact ⟨rfl, by rw [if_neg hk, add_zero]⟩
  refine ⟨(updated_collect g uid win).keys, fun k x z hx hz => ?_⟩
  obtain ⟨y, hy, honly, hwin⟩ := hset.get?_of_old hx
  unfold collect at hz
  rw [Table.get?_modify, hy] at hz
  by_cases hk : k = g.banker
  · rw [if_pos hk] at hz
    cases hz
    refine ⟨honly.trans rfl, ?_⟩
    rw [if_pos hk, ← hwin]
    exact sub_eq_add_neg _ _
  · rw [if_neg hk] at hz
    cases hz
    exact ⟨honly, by rw [if_neg hk, add_zero, hwin]⟩

/-- A loser's payment keeps the books. -/
theorem Collected.collect {g : Game} (h : Collected g) {uid : Uid} {v : GamePlayer}
    (hv : g.gameplayer.get? uid = some v) (hw : v.winmoney = 0) (hadd : v.totaladd < 0)
    (hbanker : g.banker ∈ g.gameplayer) {win : ℚ} (hwin : win ≤ 0) (o : List Out) :
    Collected { g with gameplayer := g.collect uid win, outbox := g.outbox ++ o } := by
  have hgp := collect_winmoney hv hw win
  refine ⟨h.bankermoney, fun k y hy hk => ?_, fun k y hy hk hpos => ?_, ?_⟩
  · obtain ⟨x, hx, -, hxy⟩ := hgp.get?_of_new hy
    rw [hxy, if_neg hk, add_zero]
    have hpaid := h.paid k x hx hk
    by_cases hku : k = uid
    · rw [if_pos hku]
      linarith
    · rw [if_neg hku]
      linarith
  · obtain ⟨x, hx, honly, hxy⟩ := hgp.get?_of_new hy
    have hpos' : 0 ≤ x.totaladd := by
      rw [honly] at hpos
      exact hpos
    have hku : k ≠ uid := by
      rintro rfl
      rw [hv] at hx
      cases hx
      omega
    rw [hxy, if_neg hk, if_neg hku, add_zero, add_zero]
    exact h.loser k x hx hk hpos'
  · obtain ⟨b, hb⟩ := Table.mem_iff_get?.mp hbanker
    have hsum : ((g.collect uid win).sum fun _ v => v.winmoney) = g.gameplayer.sum fun k v =>
        v.winmoney + (if k = uid then win else 0) + if k = g.banker then -win else 0 :=
      hgp.sum_eq fun k x y hx hxy => hxy.2
    show ((g.collect uid win).sum fun _ v => v.winmoney) = 0
    rw [hsum, Table.sum_add, Table.sum_add, h.total, Table.sum_single hv fun _ _ => win,
      Table.sum_single hb fun _ _ => -win]
    ring

/-- A loser's report takes nothing below zero. -/
theorem Ready.loserWin_nonpos {g : Game} {uid : Uid} {money : ℚ} {v : GamePlayer}
    (hready : Ready g (.msg uid (.loserGetResult money))) (hadd : v.totaladd < 0) :
    loserWin (v.totaladd * g.gameconf.basebet) money ≤ 0 := by
  have hneg : (v.totaladd : ℚ) ≤ 0 := by exact_mod_cast hadd.le
  exact Game.loserWin_nonpos (mul_nonpos_of_nonpos_of_nonneg hneg (Nat.cast_nonneg _))
    (hready.reported uid _ money rfl rfl)

/-- A report keeps the books. -/
theorem Collected.reported {g t : Game} {m : Mtype} (h : Collected g) (hready : Ready g m)
    (hs : g.curstate = .waitShowResult) (hrep : Reported g m t) : Collected t := by
  obtain ⟨-, hbanker, -⟩ := hready.inv.hand (.inr hs)
  cases hrep with
  | loser uid money v lose hv hw hadd hlose =>
    exact h.collect hv hw hadd hbanker (hready.loserWin_nonpos hadd) _
  | dropped uid money howes => exact h
  | banker uid money =>
    have hmoney : 0 ≤ money := hready.reported uid _ money rfl rfl
    exact ⟨hmoney, h.paid, h.loser, h.total⟩

/-- A report leaves every player who is no loser alone, and no loser gains by it. -/
theorem Standing.reported {g t : Game} {m : Mtype} (h : Standing g) (hready : Ready g m)
    (hrep : Reported g m t) : Standing t := by
  cases hrep with
  | loser uid money v lose hv hw hadd hlose =>
    have hwin := hready.loserWin_nonpos hadd
    have hgp := collect_winmoney hv hw (loserWin (v.totaladd * g.gameconf.basebet) money)
    refine ⟨fun k y hy hk hneg => ?_, fun k y hy hk hzero => ?_⟩
    · obtain ⟨x, hx, honly, hxy⟩ := hgp.get?_of_new hy
      have hpaid := h.paid k x hx hk (by rw [honly] at hneg; exact hneg)
      rw [hxy, if_neg hk, add_zero]
      by_cases hku : k = uid
      · rw [if_pos hku]
        linarith
      · rw [if_neg hku]
        linarith
    · obtain ⟨x, hx, honly, hxy⟩ := hgp.get?_of_new hy
      have hsame : x.totaladd = 0 := by
        rw [honly] at hzero
        exact hzero
      have hku : k ≠ uid := by
        rintro rfl
        obtain rfl := Option.some.inj (hv.symm.trans hx)
        omega
      rw [hxy, if_neg hk, if_neg hku, add_zero, add_zero]
      exact h.even k x hx hk hsame
  | dropped uid money howes => exact h
  | banker uid money => exact ⟨h.paid, h.even⟩

/-- A loser's payment is entered as one, unless the loser is the banker. -/
private theorem losses_collect {g : Game} {uid : Uid} {v : GamePlayer}
    (hv : g.gameplayer.get? uid = some v) (hw : v.winmoney = 0) (hadd : v.totaladd < 0) (win : ℚ) :
    ({ g with gameplayer := g.collect uid win } : Game).losses
      = g.losses + if uid = g.banker then 0 else -win := by
  have hgp := collect_winmoney hv hw win
  have hsum : ({ g with gameplayer := g.collect uid win } : Game).losses
      = g.gameplayer.sum fun k x => (if k ≠ g.banker ∧ x.totaladd < 0 then -x.winmoney else 0)
        + if k = uid then (if uid = g.banker then 0 else -win) else 0 := by
    refine hgp.sum_eq fun k x y hx hxy => ?_
    obtain ⟨honly, hxw⟩ := hxy
    have hsame : y.totaladd = x.totaladd := by rw [honly]
    rw [hsame, hxw]
    by_cases hku : k = uid
    · subst hku
      obtain rfl := Option.some.inj (hv.symm.trans hx)
      by_cases hk : k = g.banker
      · rw [if_neg fun h => h.1 hk, if_neg fun h => h.1 hk, if_pos rfl, if_pos hk, zero_add]
      · have hlost : k ≠ g.banker ∧ v.totaladd < 0 := ⟨hk, hadd⟩
        rw [if_pos hlost, if_pos hlost, if_pos rfl, if_pos rfl, if_neg hk, if_neg hk]
        ring
    · by_cases hk : k = g.banker
      · rw [if_neg fun h => h.1 hk, if_neg fun h => h.1 hk, if_neg hku, zero_add]
      · rw [if_neg hku, if_neg hku, if_neg hk, add_zero, add_zero, add_zero]
  rw [hsum, Table.sum_add,
    Table.sum_single hv fun _ _ => if uid = g.banker then (0 : ℚ) else -win]
  rfl

/-- What a loser pays the banker gets. -/
theorem paidIn_reported {g t : Game} {m : Mtype} (hready : Ready g m)
    (hs : g.curstate = .waitShowResult) (hrep : Reported g m t) : PaidIn t ↔ PaidIn g := by
  obtain ⟨-, hbanker, -⟩ := hready.inv.hand (.inr hs)
  obtain ⟨b, hb⟩ := Table.mem_iff_get?.mp hbanker
  cases hrep with
  | loser uid money v lose hv hw hadd hlose =>
    set win := loserWin (v.totaladd * g.gameconf.basebet) money
    obtain ⟨b', hb', -, hbwin⟩ := (collect_winmoney hv hw win).get?_of_old hb
    have hlosses : ({ g with
        gameplayer := g.collect uid win
        outbox := g.outbox ++ [.ret (.lose lose g.tablelog.cardsid)] } : Game).losses
        = g.losses + if uid = g.banker then 0 else -win := losses_collect hv hw hadd win
    rw [paidIn_iff hb, paidIn_iff (g := { g with
      gameplayer := g.collect uid win
      outbox := g.outbox ++ [.ret (.lose lose g.tablelog.cardsid)] }) hb', hlosses, hbwin,
      if_pos rfl]
    by_cases hu : uid = g.banker
    · rw [if_pos hu.symm, if_pos hu]
      constructor <;> intro h <;> linarith
    · rw [if_neg fun h => hu h.symm, if_neg hu]
      constructor <;> intro h <;> linarith
  | dropped uid money howes => exact Iff.rfl
  | banker uid money => exact Iff.rfl

/-- A settlement changes neither what a loser has paid nor who neither won nor lost. -/
theorem Standing.settled {g t : Game} (h : Standing g) (hset : Settled g t) : Standing t := by
  cases hset with
  | mk b gp lr o r p hb hgp ho hcred =>
    -- who has not won keeps its record
    have hold : ∀ k w, gp.get? k = some w → k ≠ g.banker → ¬ 0 < w.totaladd →
        g.gameplayer.get? k = some w := by
      intro k w hw hk hadd
      obtain ⟨v, hv, hset⟩ := hgp.get?_of_new hw
      by_cases hpos : v.totaladd > 0
      · rw [hset.winner hk (Table.mem_of_get? hv) hpos] at hadd
        exact absurd hpos hadd
      · rw [hset.other hk (.inr hpos)]
        exact hv
    refine ⟨fun k w hw hk hneg => h.paid k w (hold k w hw hk hneg.le.not_gt) hk hneg,
      fun k w hw hk hzero => h.even k w (hold k w hw hk hzero.le.not_gt) hk hzero⟩

/-! ## Moves -/

private theorem SamePlay.winmoney {v w : GamePlayer} (h : SamePlay v w) :
    w.winmoney = v.winmoney := by rw [h.1]

/-- A round nobody has a result in has its books in order once it was compared. -/
theorem Untouched.compared {g t : Game} (h : Untouched g.gameplayer) (hcmp : Compared g t) :
    Collected t := by
  cases hcmp with
  | mk gp losers hgp hsub hnb =>
    have hzero : ∀ k w, gp.get? k = some w → w.winmoney = 0 := by
      intro k w hw
      obtain ⟨v, hv, hvw⟩ := hgp.get?_of_new hw
      rw [hvw.same.winmoney]
      exact (h k v hv).1
    refine ⟨le_rfl, fun k w hw _ => (hzero k w hw).le, fun k w hw _ _ => hzero k w hw, ?_⟩
    exact (Table.sum_congr hzero).trans (Table.sum_zero gp)

theorem Chosen.untouched {env : Env} {g t : Game} {uid : Uid} {ty : ℤ}
    {cards : List Card} (h : Untouched g.gameplayer) (hch : Chosen env g uid ty cards t) :
    Untouched t.gameplayer ∧ t.havegetresult = g.havegetresult := by
  cases hch with
  | reject o ho => exact ⟨h, rfl⟩
  | accept v r o hv hcheck ho =>
    have hgp : Table.Updated (fun _ => SameResult) g.gameplayer (g.gameplayer.modify uid fun v =>
        { v with pokertype := ty, choicecards := cards, havechoice := true }) :=
      Table.updated_modify (fun _ _ => ⟨rfl, rfl⟩) fun _ _ => ⟨rfl, rfl⟩
    exact ⟨h.updated hgp, rfl⟩

private theorem Compared.havegetresult {g t : Game} (h : Compared g t) :
    t.havegetresult = g.havegetresult := by
  cases h with
  | mk gp losers hgp hsub hnb => rfl

private theorem Reported.havegetresult {g t : Game} {m : Mtype} (h : Reported g m t) :
    t.havegetresult = g.havegetresult := by
  cases h with
  | loser uid money v lose hv hw hadd hlose => rfl
  | dropped uid money howes => rfl
  | banker uid money => rfl

private theorem Settled.havegetresult {g t : Game} (h : Settled g t) :
    t.havegetresult = true := by
  cases h with
  | mk b gp lr o r p hb hgp ho hcred => rfl

/-- However a round opens, it opens without results. -/
private theorem Opening.books {env : Env} {g t : Game} (h : Opening env g t)
    (hget : g.havegetresult = false) (hun : Untouched g.gameplayer) : Books t := by
  cases h with
  | close hsit => exact books_early (by simp) hget fun h => h.elim
  | grab o hsit hneed ho => exact books_early (by simp) hget fun _ => hun
  | animate hsit hneed hsource => exact books_early (by simp) hget fun _ => hun
  | bet o hsit hneed ho => exact books_early (by simp) hget fun _ => hun

/-- A move keeps the books. -/
theorem Move.books {env : Env} {g t : Game} {m : Mtype} (hready : Ready g m) (h : Books g)
    (hmove : Move env g m t) : Books t := by
  -- before the comparison there is nothing to book; it makes the books, and later moves keep them
  have hget : ∀ {s : CurState}, g.curstate = s → s ≠ .waitShowResult → s ≠ .showResult →
      g.havegetresult = false := by
    rintro s rfl
    exact h.unsettled
  have hun : ∀ {s : CurState}, g.curstate = s → s.Early → Untouched g.gameplayer := by
    rintro s rfl
    exact h.untouched
  cases hmove with
  | ignore _ hi => exact h
  | arm uid hs hsit hclose =>
    exact books_early (by simp) (hget hs (by decide) (by decide)) fun h => h.elim
  | disarm _ hs hsit =>
    exact books_early (by simp) (hget hs (by decide) (by decide)) fun h => h.elim
  | startRound log o t hs ho hopen =>
    refine hopen.books (hget hs (by decide) (by decide)) fun k v hv => ?_
    have hv' : (g.seater.mapVal fun _ v => GamePlayer.new v.uid).get? k = some v := hv
    rw [Table.get?_mapVal, Option.map_eq_some_iff] at hv'
    obtain ⟨s, -, rfl⟩ := hv'
    exact ⟨rfl, rfl⟩
  | grab uid x gp o hs ho hgp =>
    have hnew := (hun hs trivial).updated (hgp.mono fun _ _ _ => OnlyGrab.sameResult)
    exact books_early (by rw [hs]; decide) (hget hs (by decide) (by decide)) fun _ => hnew
  | chooseBanker _ uid source money gp o t hs huid ho hgp hopen =>
    refine hopen.books (hget hs (by decide) (by decide)) ?_
    exact (hun hs trivial).updated (hgp.mono fun _ _ _ => OnlyGrab.sameResult)
  | bet uid betmoney gp o hs hall ho hgp =>
    have hnew := (hun hs trivial).updated (hgp.mono fun _ _ _ => OnlyBet.sameResult)
    exact books_early (by rw [hs]; decide) (hget hs (by decide) (by decide)) fun _ => hnew
  | notify o hs ho =>
    exact books_early (by simp) (hget hs (by decide) (by decide)) fun _ => hun hs trivial
  | deal _ bets gp poker pos o hs hm ho hbets hbid hgp =>
    have hboth : Table.Updated (fun _ => SameResult) g.gameplayer gp :=
      hbets.trans hgp fun _ _ _ _ hxy hyz => hxy.sameResult.trans hyz.1.sameResult
    exact books_early (by simp) (hget hs (by decide) (by decide))
      fun _ => (hun hs trivial).updated hboth
  | deckOut _ bets gp poker pos o hs hm ho hbets hbid hgp =>
    have hboth : Table.Updated (fun _ => SameResult) g.gameplayer gp :=
      hbets.trans hgp fun _ _ _ _ hxy hyz => hxy.sameResult.trans hyz.sameResult
    exact books_early (by simp) (hget hs (by decide) (by decide))
      fun _ => (hun hs trivial).updated hboth
  | choose o hs ho =>
    exact books_early (by simp) (hget hs (by decide) (by decide)) fun _ => hun hs trivial
  | choice uid ty cards g₁ hs hch hall =>
    obtain ⟨hnew, hsame⟩ := hch.untouched (hun hs trivial)
    refine books_early ?_ (hsame.trans (hget hs (by decide) (by decide))) fun _ => hnew
    rw [hch.same.1, hs]
    decide
  | compare uid ty cards g₁ g₂ hs hch hall hcmp =>
    have hcol := (hch.untouched (hun hs trivial)).1.compared hcmp
    refine ⟨fun hw => absurd rfl hw, fun h => h.elim, fun _ _ => ?_, fun _ => ?_⟩
    · exact ⟨hcol.bankermoney, hcol.paid, hcol.loser, hcol.total⟩
    · exact ⟨hcol.standing.paid, hcol.standing.even⟩
  | timeUp gp st n r o t hs ho hn hgp hst hcmp =>
    have hnew : Untouched gp := (hun hs trivial).updated (hgp.mono fun _ _ _ hvw => by
      rw [hvw]
      exact ⟨rfl, rfl⟩)
    have hcol := Untouched.compared hnew hcmp
    refine ⟨fun hw => absurd rfl hw, fun h => h.elim, fun _ _ => ?_, fun _ => ?_⟩
    · exact ⟨hcol.bankermoney, hcol.paid, hcol.loser, hcol.total⟩
    · exact ⟨hcol.standing.paid, hcol.standing.even⟩
  | report _ g₁ hs hrep hcan =>
    have hw : t.curstate = .waitShowResult := hrep.same.1.trans hs
    refine ⟨fun hno => absurd hw hno, fun hearly => ?_, fun _ hno => ?_,
      fun _ => (h.standing hs).reported hready hrep⟩
    · rw [hw] at hearly
      exact hearly.elim
    · rw [hrep.havegetresult] at hno
      exact (h.collected hs hno).reported hready hs hrep
  | settle _ g₁ t hs hrep hcan hset =>
    have hw : t.curstate = .waitShowResult := hset.same.1.trans (hrep.same.1.trans hs)
    refine ⟨fun hno => absurd hw hno, fun hearly => ?_, fun _ hno => ?_,
      fun _ => ((h.standing hs).reported hready hrep).settled hset⟩
    · rw [hw] at hearly
      exact hearly.elim
    · rw [hset.havegetresult] at hno
      cases hno
  | reveal o hs ho => exact ⟨fun _ hno => absurd rfl hno, fun h => h.elim, by simp, by simp⟩
  | close t hs hclosed =>
    cases hclosed with
    | mk n r p conf o again hn ho hagain =>
      cases again with
      | _ => exact books_early (by simp) rfl fun h => h.elim

theorem books_inductive : system.Inductive Books where
  init := by
    rintro g ⟨conf, rfl⟩
    exact books_early (by simp [creatGame]) rfl fun h => h.elim
  step := by
    intro g e t hg h hstep
    have hinv := inv_invariant g hg
    obtain ⟨g', halike, ⟨rfl, -⟩ | ⟨env, m, -, hready, hmove⟩⟩ := (hstep.stepped hinv).split hinv
    · exact h.alike halike
    · exact hmove.books hready (h.alike halike)

/-- No round has a result before its comparison, and every payment is booked. -/
theorem books_invariant : system.Invariant Books := books_inductive.invariant

/-! ## The settlement -/

/-- The banker's money as a settlement in this step finds it. -/
def moneyBefore (g : Game) : Event → ℚ
  | .msg _ _ (.bankerMoney money) => money
  | _ => g.bankermoney

private theorem Opening.entered {env : Env} {g t : Game} (h : Opening env g t) :
    t.calls = g.calls ∨ t.calls = g.calls ++ [.notifyBet, .takeFee] := by
  cases h with
  | bet o hsit hneed ho => exact .inr rfl
  | _ => exact .inl rfl

/-- What a move enters: nothing, the opening of the bets, the settlement of a table
that waits for results, or the end of a round whose results were shown. -/
theorem Move.entered {env : Env} {g t : Game} {m : Mtype} (h : Move env g m t) :
    (t.calls = g.calls ∨ t.calls = g.calls ++ [.notifyBet, .takeFee]) ∨
      (∃ g₁, g.curstate = .waitShowResult ∧ Reported g m g₁ ∧ g₁.canGetLastResult = true ∧
        Settled g₁ t ∧ t.calls = g.calls ++ [.getLastResult]) ∨
      g.curstate = .showResult ∧ t.calls = g.calls ++ [.resertGame] := by
  cases h with
  | startRound log o t hs ho hopen => exact .inl hopen.entered
  | chooseBanker _ uid source money gp o t hs huid ho hgp hopen => exact .inl hopen.entered
  | notify o hs ho => exact .inl (.inr rfl)
  | choice uid ty cards g₁ hs hch hall => exact .inl (.inl hch.same.2.2)
  | compare uid ty cards g₁ g₂ hs hch hall hcmp =>
    exact .inl (.inl (hcmp.same.2.2.trans hch.same.2.2))
  | timeUp gp st n r o t hs ho hn hgp hst hcmp => exact .inl (.inl hcmp.same.2.2)
  | report _ g₁ hs hrep hcan => exact .inl (.inl hrep.same.2.2)
  | settle _ g₁ t hs hrep hcan hset =>
    refine .inr (.inl ⟨g₁, hs, hrep, hcan, hset, ?_⟩)
    rw [hset.same.2.2, hrep.same.2.2]
  | close t hs hclosed =>
    cases hclosed with
    | mk n r p conf o again hn ho hagain => exact .inr (.inr ⟨hs, rfl⟩)
  | _ => exact .inl (.inl rfl)

/-- A dispatch enters `GetLastResult` only to settle a table that waits for results. -/
theorem Move.settles {env : Env} {g t : Game} {m : Mtype} (h : Move env g m t)
    (hcalls : g.calls = []) (hmem : Proc.getLastResult ∈ t.calls) :
    ∃ g₁, g.curstate = .waitShowResult ∧ Reported g m g₁ ∧ g₁.canGetLastResult = true ∧
      Settled g₁ t := by
  rcases h.entered with (hnone | hopen) | ⟨g₁, hs, hrep, hcan, hset, -⟩ | ⟨-, hend⟩
  · simp [hnone, hcalls] at hmem
  · simp [hopen, hcalls] at hmem
  · exact ⟨g₁, hs, hrep, hcan, hset⟩
  · simp [hend, hcalls] at hmem

/-- What a settlement starts from: the books after the report that made it possible. -/
private theorem settles_from {g t : Game} {e : Event} (hg : system.Reachable g)
    (hstep : system.step g e t) (hmem : Proc.getLastResult ∈ t.calls) :
    ∃ g₁, Seated g₁ ∧ Standing g₁ ∧ g₁.bankermoney = g.moneyBefore e ∧
      (PaidIn g₁ ↔ PaidIn g) ∧ (g.havegetresult = false → Collected g₁) ∧ Settled g₁ t := by
  have hinv := inv_invariant g hg
  obtain ⟨g', halike, ⟨rfl, -⟩ | ⟨env, m, hserves, hready, hmove⟩⟩ :=
    (hstep.stepped hinv).split hinv
  · rw [halike.calls] at hmem
    exact absurd hmem List.not_mem_nil
  · obtain ⟨g₁, hs, hrep, -, hset⟩ := hmove.settles halike.calls hmem
    have hbooks := (books_invariant g hg).alike halike
    obtain ⟨hsize, hbanker, hhands⟩ := hready.inv.hand (.inr hs)
    have hmoney : g₁.bankermoney = g.moneyBefore e := by
      cases e with
      | msg uid address x =>
        obtain rfl : m = .msg uid x := hserves
        cases hrep with
        | loser _ money v lose hv hw hadd hlose => exact halike.bankermoney
        | dropped _ money howes => exact halike.bankermoney
        | banker _ money => rfl
      | timeout n =>
        obtain ⟨id, rfl⟩ := hserves
        cases hrep
      | update conf => exact hserves.elim
      | rehash => exact hserves.elim
    have hsame := (paidIn_reported hready hs hrep).trans
      (paidIn_alike halike (halike.curstate.symm.trans hs))
    refine ⟨g₁, (reported_inv hready.inv.seats hsize hbanker hhands hrep).1.seated,
      (hbooks.standing hs).reported hready hrep, hmoney, hsame, fun hfirst => ?_, hset⟩
    exact (hbooks.collected hs (halike.havegetresult.trans hfirst)).reported hready hs hrep

/-- A settlement in which the banker has money is zero-sum and solvent exactly if
the banker's own result is what the losers have paid. -/
theorem settlement_zeroSum_iff {g t : Game} {e : Event} (hg : system.Reachable g)
    (hstep : system.step g e t) (hmem : Proc.getLastResult ∈ t.calls)
    (hmoney : 0 < g.moneyBefore e) : ZeroSum (g.moneyBefore e) t ↔ PaidIn g := by
  obtain ⟨g₁, hseated, hstanding, hbank, hsame, -, hset⟩ := settles_from hg hstep hmem
  rw [← hsame, ← hbank]
  exact settled_zeroSum_iff hseated hstanding (hbank ▸ hmoney.le) hset

/-- The first settlement of a round is zero-sum and solvent. -/
theorem first_settlement_zeroSum {g t : Game} {e : Event} (hg : system.Reachable g)
    (hstep : system.step g e t) (hmem : Proc.getLastResult ∈ t.calls)
    (hfirst : g.havegetresult = false) : ZeroSum (g.moneyBefore e) t := by
  obtain ⟨g₁, hseated, hstanding, hbank, -, hcol, hset⟩ := settles_from hg hstep hmem
  rw [← hbank]
  exact (settled_zeroSum_iff hseated hstanding (hcol hfirst).bankermoney hset).mpr
    (hcol hfirst).paidIn

end Game

end DnServer.Bullfight
