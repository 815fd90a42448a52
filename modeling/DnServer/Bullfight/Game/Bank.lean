import DnServer.Bullfight.Game.Spec

/-!
# The game service: the bank and the bets

Grabbing the bank, choosing the banker, betting, and leaving a seat.
-/

namespace DnServer.Bullfight

open DnServer.Lib

namespace Game

/-! ## Grabbing -/

/-- Only the reported money and the wish for the bank changed, and no money
became negative. -/
def OnlyGrab (v w : GamePlayer) : Prop :=
  w = { v with money := w.money, grabbanker := w.grabbanker } ∧ (0 ≤ v.money → 0 ≤ w.money)

theorem OnlyGrab.refl (v : GamePlayer) : OnlyGrab v v := ⟨rfl, fun h => h⟩

theorem OnlyGrab.trans {u v w : GamePlayer} (h : OnlyGrab u v) (h' : OnlyGrab v w) :
    OnlyGrab u w := by
  refine ⟨?_, h'.2 ∘ h.2⟩
  rw [h'.1, h.1]

theorem OnlyGrab.uid {v w : GamePlayer} (h : OnlyGrab v w) : w.uid = v.uid := by rw [h.1]

theorem someOneGrab_spec (g : Game) (uid : Uid) (sign : ℤ) {money : ℚ} (hm : 0 ≤ money) :
    ∃ gp o, direct o = [] ∧ Table.Updated (fun _ => OnlyGrab) g.gameplayer gp ∧
      g.someOneGrab uid sign money = { g with gameplayer := gp, outbox := g.outbox ++ o } := by
  have hsame : g = { g with gameplayer := g.gameplayer, outbox := g.outbox ++ [] } := by simp
  unfold someOneGrab
  cases hv : g.gameplayer.get? uid with
  | none => exact ⟨_, [], rfl, Table.Updated.refl fun _ v _ => OnlyGrab.refl v, hsame⟩
  | some plr =>
    by_cases h0 : plr.grabbanker = 0
    · exact ⟨g.gameplayer.modify uid fun v => { v with money := money, grabbanker := sign },
        g.broadcastOut none (.someOneGrabBanker uid sign), direct_broadcastOut _ _ _,
        Table.updated_modify (fun _ v => OnlyGrab.refl v) fun v _ => ⟨rfl, fun _ => hm⟩,
        if_pos h0⟩
    · exact ⟨_, [], rfl, Table.Updated.refl fun _ v _ => OnlyGrab.refl v,
        (if_neg h0).trans hsame⟩

private theorem allHaveGrabedFrom_spec (basemoney : ℚ) : ∀ (l : List (Uid × GamePlayer)) (g : Game),
    ∃ gp b, Table.Updated (fun _ => OnlyGrab) g.gameplayer gp ∧
      allHaveGrabedFrom basemoney l g = ({ g with gameplayer := gp }, b)
  | [], g => ⟨g.gameplayer, true, Table.Updated.refl fun _ v _ => OnlyGrab.refl v, rfl⟩
  | (k, v) :: rest, g => by
    unfold allHaveGrabedFrom
    by_cases hm : v.money ≠ 0 ∧ v.money < basemoney
    · obtain ⟨gp, b, hgp, hrest⟩ := allHaveGrabedFrom_spec basemoney rest
        (g.setPlayer k fun v => { v with grabbanker := 2 })
      refine ⟨gp, b, ?_, (if_pos hm).trans hrest⟩
      have hset : Table.Updated (fun _ => OnlyGrab) g.gameplayer
          (g.gameplayer.modify k fun v => { v with grabbanker := 2 }) :=
        Table.updated_modify (fun _ v => OnlyGrab.refl v) fun v _ => ⟨rfl, fun h => h⟩
      exact hset.trans hgp fun _ _ _ _ => OnlyGrab.trans
    · rw [if_neg hm]
      by_cases h0 : v.grabbanker = 0
      · exact ⟨g.gameplayer, false, Table.Updated.refl fun _ v _ => OnlyGrab.refl v, if_pos h0⟩
      · rw [if_neg h0]
        exact allHaveGrabedFrom_spec basemoney rest g

theorem allHaveGrabed_spec (g : Game) :
    ∃ gp b, Table.Updated (fun _ => OnlyGrab) g.gameplayer gp ∧
      g.allHaveGrabed = ({ g with gameplayer := gp }, b) := allHaveGrabedFrom_spec _ _ g

theorem forResPlayerGrab_spec (g : Game) :
    ∃ o, direct o = [] ∧ g.forResPlayerGrab = g.emit o := by
  refine foldl_relay (fun g p => ?_) g.gameplayer.pairs g
  by_cases h : p.2.grabbanker = 0 ∨ p.2.grabbanker = 2
  · exact ⟨_, direct_broadcastOut _ _ _, if_pos h⟩
  · exact ⟨[], rfl, (if_neg h).trans (by simp [emit])⟩

/-! ## Choosing the banker -/

/-- Nobody reported a negative amount. -/
def MoneyNonneg (g : Game) : Prop := ∀ k v, g.gameplayer.get? k = some v → 0 ≤ v.money

/-- The richest player is a player of the round, once the round has one. -/
private theorem topMoney_from : ∀ (l : List (Uid × GamePlayer)) (top : Uid × ℚ),
    (∀ p ∈ l, 0 ≤ p.2.money) →
    (l.foldl (fun top p => if p.2.money ≥ top.2 then (p.2.uid, p.2.money) else top) top).1 = top.1 ∨
      ∃ p ∈ l,
        (l.foldl (fun top p => if p.2.money ≥ top.2 then (p.2.uid, p.2.money) else top) top).1
          = p.2.uid
  | [], _, _ => .inl rfl
  | p :: rest, top, h => by
    rw [List.foldl_cons]
    rcases topMoney_from rest (if p.2.money ≥ top.2 then (p.2.uid, p.2.money) else top)
      fun q hq => h q (List.mem_cons_of_mem _ hq) with hr | ⟨q, hq, hr⟩
    · rw [hr]
      by_cases hp : p.2.money ≥ top.2
      · exact .inr ⟨p, List.mem_cons_self, by rw [if_pos hp]⟩
      · exact .inl (by rw [if_neg hp])
    · exact .inr ⟨q, List.mem_cons_of_mem _ hq, hr⟩

theorem topMoney_mem {g : Game} (h : Seated g) (hm : MoneyNonneg g) (hne : 0 < g.gameplayer.size) :
    g.topMoney.1 ∈ g.gameplayer := by
  unfold topMoney
  obtain ⟨p, rest, hl⟩ : ∃ p rest, g.gameplayer.pairs = p :: rest := by
    cases hl : g.gameplayer.pairs with
    | nil => simp [Table.size, hl] at hne
    | cons p rest => exact ⟨p, rest, rfl⟩
  have hmoney : ∀ q ∈ g.gameplayer.pairs, 0 ≤ q.2.money := fun q hq =>
    hm q.1 q.2 (Table.get?_of_mem_pairs hq)
  have hmem : ∀ q ∈ g.gameplayer.pairs, q.2.uid ∈ g.gameplayer := fun q hq => by
    rw [h.uid_of_pairs hq]
    exact Table.mem_of_mem_pairs hq
  rw [hl] at hmoney hmem ⊢
  rw [List.foldl_cons, if_pos (hmoney p List.mem_cons_self)]
  rcases topMoney_from rest (p.2.uid, p.2.money)
    fun q hq => hmoney q (List.mem_cons_of_mem _ hq) with hr | ⟨q, hq, hr⟩
  · rw [hr]
    exact hmem p List.mem_cons_self
  · rw [hr]
    exact hmem q (List.mem_cons_of_mem _ hq)

theorem grabers_mem {g : Game} (h : Seated g) {uid : Uid} (hu : uid ∈ g.grabers) :
    uid ∈ g.gameplayer := by
  obtain ⟨p, hp, hpu⟩ := List.mem_filterMap.mp hu
  split at hpu
  · cases hpu
    rw [h.uid_of_pairs hp]
    exact Table.mem_of_mem_pairs hp
  · cases hpu

/-- The banker chosen is a player of the round. -/
theorem chooseBanker_spec (env : Env) {g : Game} (h : Seated g) (hm : MoneyNonneg g)
    (hne : 0 < g.gameplayer.size) :
    ∃ uid source, uid ∈ g.gameplayer ∧
      g.chooseBanker env = { g with banker := uid, bankersourcetype := source } := by
  unfold chooseBanker
  cases hl : g.grabers with
  | nil => exact ⟨_, 1, topMoney_mem h hm hne, rfl⟩
  | cons uid uids =>
    have hmem : ∀ u ∈ uid :: uids, u ∈ g.gameplayer := fun u hu => grabers_mem h (hl ▸ hu)
    cases uids with
    | nil => exact ⟨uid, g.bankersourcetype, hmem uid List.mem_cons_self, rfl⟩
    | cons u rest =>
      refine ⟨_, 2, hmem _ ?_, rfl⟩
      have hlt := Nat.mod_lt (env.rnd 0) (show 0 < (uid :: u :: rest).length by simp)
      rw [List.getD_eq_getElem _ _ hlt]
      exact List.getElem_mem hlt

/-- The table when the banker was chosen and announced. -/
def bankerChosen (env : Env) (g : Game) (b : GamePlayer) : Game :=
  { g with
    banker := (g.chooseBanker env).banker
    bankersourcetype := (g.chooseBanker env).bankersourcetype
    needgrabbanker := false
    grabresontype := 0
    playcount := 0
    bankermoney := b.money
    gameplayer := g.gameplayer.mapVal fun _ v => { v with grabbanker := 0 }
    outbox := g.outbox ++ g.broadcastOut none
      (.notifyTheBanker (g.chooseBanker env).banker (g.chooseBanker env).bankersourcetype) }

theorem bankerChosen_grabbed (env : Env) (g : Game) (b : GamePlayer) :
    Table.Updated (fun _ => OnlyGrab) g.gameplayer (bankerChosen env g b).gameplayer := by
  show Table.Updated _ g.gameplayer (g.gameplayer.mapVal fun _ v => { v with grabbanker := 0 })
  exact Table.updated_mapVal fun _ v _ => ⟨rfl, fun h => h⟩

/-- Choosing the banker changes nothing else. -/
theorem chooseBanker_same (env : Env) (g : Game) : g.chooseBanker env = { g with
    banker := (g.chooseBanker env).banker
    bankersourcetype := (g.chooseBanker env).bankersourcetype } := by
  unfold chooseBanker
  cases g.grabers with
  | nil => rfl
  | cons uid uids =>
    cases uids with
    | nil => rfl
    | cons u rest => rfl

theorem notifyTheGrab_eq (env : Env) {g : Game} {b : GamePlayer}
    (hb : g.gameplayer.get? (g.chooseBanker env).banker = some b) :
    g.notifyTheGrab env = (bankerChosen env g b).checkStartGame env := by
  unfold notifyTheGrab
  rw [chooseBanker_same]
  exact Handler.bind_of_ok (Handler.index_of_some hb _ _) _

/-- The end of the grab: the chosen player becomes banker with the money it reported, and the
round goes on as `CheckStartGame` does. -/
theorem notifyTheGrab_chosen (env : Env) {g : Game} (h : Seated g) (hm : MoneyNonneg g)
    (hne : 0 < g.gameplayer.size) :
    ∃ b t, g.gameplayer.get? (g.chooseBanker env).banker = some b ∧ g.notifyTheGrab env = .ok t ∧
      Opening env (bankerChosen env g b) t := by
  obtain ⟨uid, source, huid, hchoose⟩ := chooseBanker_spec env h hm hne
  obtain ⟨b, hb⟩ := Table.mem_iff_get?.mp huid
  have hbanker : (g.chooseBanker env).banker = uid := by rw [hchoose]
  have hgp := bankerChosen_grabbed env g b
  have hs : Seated (bankerChosen env g b) := by
    refine ⟨h.1, h.2, fun k v hv => ?_, h.4, fun k hk => h.5 k (hgp.mem.mp hk)⟩
    obtain ⟨u, hu, hsame⟩ := hgp.get?_of_new hv
    exact hsame.uid.trans (h.gameplayer_uid k u hu)
  rw [← hbanker] at hb
  obtain ⟨t, ht, hopen⟩ := checkStartGame_spec env hs
  exact ⟨b, t, hb, (notifyTheGrab_eq env hb).trans ht, hopen⟩

/-- The end of the grab: a player of the round becomes banker, and the round goes on as
`CheckStartGame` does. -/
theorem notifyTheGrab_spec (env : Env) {g : Game} (h : Seated g) (hm : MoneyNonneg g)
    (hne : 0 < g.gameplayer.size) :
    ∃ uid source money gp o t, uid ∈ g.gameplayer ∧ direct o = [] ∧
      Table.Updated (fun _ => OnlyGrab) g.gameplayer gp ∧ g.notifyTheGrab env = .ok t ∧
      Opening env { g with
        banker := uid
        bankersourcetype := source
        needgrabbanker := false
        grabresontype := 0
        playcount := 0
        bankermoney := money
        gameplayer := gp
        outbox := g.outbox ++ o } t := by
  obtain ⟨b, t, hb, ht, hopen⟩ := notifyTheGrab_chosen env h hm hne
  exact ⟨_, _, _, _, _, t, Table.mem_of_get? hb, direct_broadcastOut _ _ _,
    bankerChosen_grabbed env g b, ht, hopen⟩

/-! ## Betting -/

/-- Only the bet changed, if it did to one of the `bids`. -/
def OnlyBet (bids : ℚ → Prop) (v w : GamePlayer) : Prop :=
  w = { v with betmoney := w.betmoney } ∧ (w.betmoney = v.betmoney ∨ bids w.betmoney)

theorem OnlyBet.refl (bids : ℚ → Prop) (v : GamePlayer) : OnlyBet bids v v := ⟨rfl, .inl rfl⟩

theorem OnlyBet.trans {bids : ℚ → Prop} {u v w : GamePlayer} (h : OnlyBet bids u v)
    (h' : OnlyBet bids v w) : OnlyBet bids u w := by
  refine ⟨by rw [h'.1, h.1], ?_⟩
  rcases h'.2 with hsame | hbid
  · rw [hsame]
    exact h.2
  · exact .inr hbid

theorem OnlyBet.mono {bids bids' : ℚ → Prop} {v w : GamePlayer} (h : OnlyBet bids v w)
    (hsub : ∀ x, bids x → bids' x) : OnlyBet bids' v w := ⟨h.1, h.2.imp_right (hsub _)⟩

theorem OnlyBet.uid {bids : ℚ → Prop} {v w : GamePlayer} (h : OnlyBet bids v w) :
    w.uid = v.uid := by rw [h.1]

/-- Everybody but the banker has bet. -/
def AllBet (banker : Uid) (t : Table Uid GamePlayer) : Prop :=
  ∀ k v, t.get? k = some v → v.uid ≠ banker → v.betmoney ≠ 0

theorem isAllHaveBet_iff {g : Game} : g.isAllHaveBet = true ↔ AllBet g.banker g.gameplayer := by
  unfold isAllHaveBet AllBet
  rw [List.all_eq_true]
  constructor
  · intro h k v hv hne h0
    have := h (k, v) (Table.get?_eq_some.mp hv)
    simp [h0, hne] at this
  · intro h p hp
    have := h p.1 p.2 (Table.get?_of_mem_pairs hp)
    simp only [decide_eq_true_eq]
    exact fun hno => this hno.2 hno.1

private theorem updated_setBet (t : Table Uid GamePlayer) (k : Uid) (bet : ℚ) :
    Table.Updated (fun _ => OnlyBet (· = bet)) t
      (t.modify k fun v => { v with betmoney := bet }) :=
  Table.updated_modify (fun _ v => OnlyBet.refl _ v) fun _ _ => ⟨rfl, .inr rfl⟩

theorem someOneBet_spec (g : Game) (uid : Uid) (betmoney : ℚ) :
    ∃ gp o, direct o = [] ∧ Table.Updated (fun _ => OnlyBet (· = betmoney)) g.gameplayer gp ∧
      g.someOneBet uid betmoney = { g with gameplayer := gp, outbox := g.outbox ++ o } := by
  have hrefl : Table.Updated (fun _ => OnlyBet (· = betmoney)) g.gameplayer g.gameplayer :=
    Table.Updated.refl fun _ v _ => OnlyBet.refl _ v
  unfold someOneBet
  by_cases hmem : uid ∈ g.gameplayer
  · rw [if_pos hmem]
    by_cases hcap : betmoney > g.topupling * g.gameconf.basebet
    · obtain ⟨o, ho, hsend⟩ := sendTo_spec g uid (.someOneBet uid 0 errorcode.BET_MONEY_ERROR)
      exact ⟨g.gameplayer, o, ho, hrefl, (if_pos hcap).trans hsend⟩
    · exact ⟨_, g.broadcastOut none (.someOneBet uid betmoney 0), direct_broadcastOut _ _ _,
        updated_setBet g.gameplayer uid betmoney, if_neg hcap⟩
  · rw [if_neg hmem]
    exact ⟨g.gameplayer, [], rfl, hrefl, by simp⟩

/-- The loop of `BetForResPlayer` over `l` bets for whoever of `l` has not. -/
private theorem betForResPlayer_loop (l : List (Uid × GamePlayer)) (g : Game) :
    ∃ gp o, direct o = [] ∧
      Table.Updated (fun _ => OnlyBet (· = (g.gameconf.basebet : ℚ))) g.gameplayer gp ∧
      (∀ p ∈ l, p.2.betmoney = 0 → p.2.uid ≠ g.banker → ∀ w, gp.get? p.1 = some w →
        w.betmoney = g.gameconf.basebet) ∧
      l.foldl (fun g p =>
        if p.2.betmoney = 0 ∧ p.2.uid ≠ g.banker then
          (g.setPlayer p.1 fun v => { v with betmoney := g.gameconf.basebet }).broadcast none
            (.someOneBet p.2.uid g.gameconf.basebet 0)
        else g) g = { g with gameplayer := gp, outbox := g.outbox ++ o } := by
  induction l generalizing g with
  | nil =>
    exact ⟨g.gameplayer, [], rfl, Table.Updated.refl fun _ v _ => OnlyBet.refl _ v,
      fun p hp => absurd hp List.not_mem_nil, by simp⟩
  | cons p rest ih =>
    rw [List.foldl_cons]
    by_cases hp : p.2.betmoney = 0 ∧ p.2.uid ≠ g.banker
    · rw [if_pos hp]
      obtain ⟨gp, o, ho, hgp, hbet, hrest⟩ := ih ((g.setPlayer p.1 fun v =>
        { v with betmoney := g.gameconf.basebet }).broadcast none
          (.someOneBet p.2.uid g.gameconf.basebet 0))
      have hset := updated_setBet g.gameplayer p.1 g.gameconf.basebet
      refine ⟨gp, g.broadcastOut none (.someOneBet p.2.uid g.gameconf.basebet 0) ++ o,
        by rw [direct_append, direct_broadcastOut, ho]; rfl,
        hset.trans hgp fun _ _ _ _ => OnlyBet.trans, fun q hq h0 hne w hw => ?_, ?_⟩
      · rcases List.mem_cons.mp hq with rfl | hq
        · -- the bet just made is not taken back
          obtain ⟨u, hu, huw⟩ := hgp.get?_of_new hw
          have hnew : u.betmoney = g.gameconf.basebet := by
            have hget : (g.gameplayer.modify q.1 fun v =>
                { v with betmoney := (g.gameconf.basebet : ℚ) }).get? q.1 = some u := hu
            rw [Table.get?_modify_self, Option.map_eq_some_iff] at hget
            obtain ⟨v, -, rfl⟩ := hget
            rfl
          rcases huw.2 with hsame | hbid
          · rw [hsame, hnew]
          · exact hbid
        · exact hbet q hq h0 hne w hw
      · rw [hrest, ← List.append_assoc]
        rfl
    · rw [if_neg hp]
      obtain ⟨gp, o, ho, hgp, hbet, hrest⟩ := ih g
      refine ⟨gp, o, ho, hgp, fun q hq h0 hne w hw => ?_, hrest⟩
      rcases List.mem_cons.mp hq with rfl | hq
      · exact absurd ⟨h0, hne⟩ hp
      · exact hbet q hq h0 hne w hw

/-- `BetForResPlayer` bets the base bet for everybody who has not bet. -/
theorem betForResPlayer_spec (g : Game) :
    ∃ gp o, direct o = [] ∧
      Table.Updated (fun _ => OnlyBet (· = (g.gameconf.basebet : ℚ))) g.gameplayer gp ∧
      AllBet g.banker gp ∧
      g.betForResPlayer = { g with gameplayer := gp, outbox := g.outbox ++ o } := by
  obtain ⟨gp, o, ho, hgp, hbet, hres⟩ := betForResPlayer_loop g.gameplayer.pairs g
  refine ⟨gp, o, ho, hgp, fun k w hw hne h0 => ?_, hres⟩
  obtain ⟨v, hv, hvw⟩ := hgp.get?_of_new hw
  have hpos : (g.gameconf.basebet : ℚ) ≠ 0 := by
    have := g.gameconf.basebet_pos
    positivity
  rcases hvw.2 with hsame | hbid
  · have hnew := hbet (k, v) (Table.get?_eq_some.mp hv) (hsame.symm.trans h0)
      (by rw [← hvw.uid]; exact hne) w hw
    exact hpos (hnew.symm.trans h0)
  · exact hpos (hbid.symm.trans h0)

/-- Bets changed, and what was sent, and nothing else. -/
def Rebid (g t : Game) : Prop :=
  ∃ gp o, Table.Updated (fun _ v w => w = { v with betmoney := w.betmoney }) g.gameplayer gp ∧
    t = { g with gameplayer := gp, outbox := g.outbox ++ o }

theorem Rebid.refl (g : Game) : Rebid g g :=
  ⟨g.gameplayer, [], Table.Updated.refl fun _ _ _ => rfl, by simp⟩

theorem someOneBet_rebid (g : Game) (uid : Uid) (betmoney : ℚ) :
    Rebid g (g.someOneBet uid betmoney) := by
  obtain ⟨gp, o, -, hgp, hbet⟩ := someOneBet_spec g uid betmoney
  exact ⟨gp, o, hgp.mono fun _ _ _ h => h.1, hbet⟩

theorem betForResPlayer_rebid (g : Game) : Rebid g g.betForResPlayer := by
  obtain ⟨gp, o, -, hgp, -, hres⟩ := betForResPlayer_spec g
  exact ⟨gp, o, hgp.mono fun _ _ _ h => h.1, hres⟩

/-- The tables on which the bets can end: with the bets as they are, with the base bet of all
who have not bet, and with one more bet. -/
inductive Bid (g : Game) : Game → Prop
  | same : Bid g g
  | rest : Bid g g.betForResPlayer
  | one (uid : Uid) (betmoney : ℚ) : Bid g (g.someOneBet uid betmoney)

theorem Bid.rebid {g u : Game} (h : Bid g u) : Rebid g u := by
  cases h with
  | same => exact .refl g
  | rest => exact betForResPlayer_rebid g
  | one uid betmoney => exact someOneBet_rebid g uid betmoney

/-- While bets are taken a dispatch opens them, or notes a bet or none, or ends them. -/
theorem waitBet_cases (env : Env) (g : Game) (m : Mtype) :
    (m = .timer .waitBet ∧ g.waitBet env m = g.notifyBet env) ∨
      ∃ u, Bid g u ∧ (g.waitBet env m = .ok u ∨ g.waitBet env m = u.endBet env) := by
  cases m with
  | timer i =>
    cases i with
    | bet =>
      unfold waitBet
      by_cases hall : ¬ g.isAllHaveBet = true
      · exact .inr ⟨_, .rest, .inr (by rw [if_pos hall])⟩
      · exact .inr ⟨g, .same, .inr (by rw [if_neg hall])⟩
    | waitBet => exact .inl ⟨rfl, rfl⟩
    | _ => exact .inr ⟨g, .same, .inl rfl⟩
  | msg uid x =>
    cases x with
    | someOneBet betmoney =>
      refine .inr ⟨_, .one uid betmoney, ?_⟩
      by_cases hall : (g.someOneBet uid betmoney).isAllHaveBet = true
      · exact .inr (if_pos hall)
      · exact .inl (if_neg hall)
    | _ => exact .inr ⟨g, .same, .inl rfl⟩

end Game

end DnServer.Bullfight
