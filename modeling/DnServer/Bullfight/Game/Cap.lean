import DnServer.Bullfight.Game.Balance
import DnServer.Bullfight.Game.Fee
import DnServer.Bullfight.Game.Grab

/-!
# The game service: the cap of the bets

`NotifyBet` reads the banker's balance off `game.bankermoney`. A balance kept beside the
table, from the money the banker reported, its results and its fees, is the same as long as
every round chooses its banker anew and the fee taken is the banker's: `ResertGame` clears
`bankermoney` also for a banker who stays.

* `cap_follows_balance`: `CapInv` goes with the balance from the grab to the bets, state
  by state: before the bets the cap is 1, at `waitBet` the two balances agree, and a bet
  taken later is under the cap it was made under.
-/

namespace DnServer.Bullfight

open DnServer.Lib

namespace Game

/-! ## The banker's balance -/

/-- The money the banker has reported. -/
def bankerReported (g : Game) : ℚ := ((g.gameplayer.get? g.banker).map GamePlayer.money).getD 0

/-- What the banker has won in the round. -/
def bankerResult (g : Game) : ℚ := ((g.gameplayer.get? g.banker).map GamePlayer.winmoney).getD 0

/-- The banker's balance after a step: the money reported when the banker is chosen, less the
fee, plus the result. -/
def noteBalance (g : Game) (_ : Event) (t : Game) (balance : ℚ) : ℚ :=
  (if g.curstate = .grabTheBanker ∧ t.curstate = .waitBet then t.bankerReported else balance)
    - (if Proc.takeFee ∈ t.calls ∧ t.gameconf.ticket ≠ 0 then (t.bankerFee : ℚ) else 0)
    + (if Proc.getLastResult ∈ t.calls then t.bankerResult else 0)

/-- The game service where `pairs` visits `types.upling`, a sequence, in order. -/
def orderedSystem : TSys Game Event where
  init := system.init
  step := StepIn fun env => env.upling = types.upling

/-- The table with the banker's balance. -/
def balanceSystem : TSys (Game × ℚ) Event := orderedSystem.observe (fun _ => 0) noteBalance

/-- The cap for a quotient: the largest entry of `types.upling` if the quotient reaches it, else
the first above the quotient. -/
def CapFor (quotient : ℤ) (cap : ℕ) : Prop :=
  ((types.uplingTop : ℤ) ≤ quotient → cap = types.uplingTop) ∧
    (quotient < types.uplingTop →
      cap ∈ types.upling ∧ quotient < cap ∧ ∀ v ∈ types.upling, quotient < v → cap ≤ v)

/-- Nobody has bet more than the cap. -/
def WithinCap (g : Game) : Prop :=
  ∀ k v, g.gameplayer.get? k = some v → v.betmoney ≤ g.topupling * g.gameconf.basebet

/-! ## The condition -/

/-- The fee `TakeFee` would take from the balance is that of `banker`. -/
def FeeExact (g : Game) (banker : Uid) : Prop :=
  g.gameconf.ticket = 0 ∨ g.gameplayer.keys.getLast? = some banker ∨ g.playerFee = g.bankerFee

/-- No round is started by a banker who stays, and where betting opens, at once with the choice
of a single volunteer or after the choice was shown, the banker is charged its own fee. -/
structure Careful (g : Game) (e : Event) : Prop where
  anew : g.curstate = .waitStartGame → g.handled e = some (.timer .waitStart) → 2 ≤ g.sitnum →
    g.needgrabbanker = true
  shown : g.curstate = .waitBet → g.handled e = some (.timer .waitBet) → FeeExact g g.banker
  chosen : ∀ u banker, g.notifies e = some u → u.grabers = [banker] → FeeExact u banker

instance (g : Game) (banker : Uid) : Decidable (FeeExact g banker) :=
  inferInstanceAs (Decidable (_ ∨ _ ∨ _))

instance (g : Game) (e : Event) : Decidable (Careful g e) :=
  decidable_of_iff
    ((g.curstate = .waitStartGame → g.handled e = some (.timer .waitStart) → 2 ≤ g.sitnum →
        g.needgrabbanker = true) ∧
      (g.curstate = .waitBet → g.handled e = some (.timer .waitBet) → FeeExact g g.banker) ∧
      ∀ u ∈ g.notifies e, ∀ banker ∈ u.grabers, u.grabers = [banker] → FeeExact u banker)
    ⟨fun h => ⟨h.1, h.2.1, fun u banker hu hone => h.2.2 u hu banker (by simp [hone]) hone⟩,
      fun h => ⟨h.anew, h.shown, fun u hu banker _ hone => h.chosen u banker hu hone⟩⟩

/-! ## The cap -/

/-- In an ascending list the first entry that passes is the least. -/
theorem find?_least {p : ℕ → Bool} : ∀ {l : List ℕ}, l.Pairwise (· < ·) → ∀ {v : ℕ},
    l.find? p = some v → ∀ w ∈ l, p w = true → v ≤ w
  | a :: l, h, v, hf, w, hw, hp => by
    obtain ⟨hhead, htail⟩ := List.pairwise_cons.mp h
    rw [List.find?_cons] at hf
    cases ha : p a with
    | true =>
      rw [ha] at hf
      obtain rfl := Option.some.inj hf
      rcases List.mem_cons.mp hw with rfl | hw
      · exact le_refl _
      · exact (hhead w hw).le
    | false =>
      rw [ha] at hf
      rcases List.mem_cons.mp hw with rfl | hw
      · rw [ha] at hp
        cases hp
      · exact find?_least htail hf w hw hp

/-- `NotifyBet` finds the cap for its quotient. -/
theorem topUpling_capFor (quotient : ℤ) (topupling : ℕ) :
    CapFor quotient (topUpling types.upling quotient topupling) := by
  unfold topUpling
  by_cases htop : quotient ≥ types.uplingTop
  · rw [if_pos htop]
    exact ⟨fun _ => rfl, fun hlt => absurd hlt (not_lt.mpr htop)⟩
  · rw [if_neg htop]
    refine ⟨fun hle => absurd hle htop, fun hlt => ?_⟩
    obtain ⟨cap, hcap⟩ : ∃ cap, types.upling.find? (fun v : ℕ => decide (quotient < (v : ℤ)))
        = some cap :=
      Option.isSome_iff_exists.mp (List.find?_isSome.mpr
        ⟨types.uplingTop, by decide, decide_eq_true hlt⟩)
    rw [hcap, Option.getD_some]
    have habove := List.find?_some hcap
    refine ⟨List.mem_of_find?_eq_some hcap, of_decide_eq_true habove,
      fun v hv hq => find?_least (by decide) hcap v hv (decide_eq_true hq)⟩

theorem CapFor.pos {quotient : ℤ} {cap : ℕ} (h : CapFor quotient cap) : 1 ≤ cap := by
  by_cases htop : (types.uplingTop : ℤ) ≤ quotient
  · rw [h.1 htop]
    decide
  · have hall : ∀ v ∈ types.upling, 1 ≤ v := by decide
    exact hall cap (h.2 (not_le.mp htop)).1

/-! ## The invariant -/

/-- The cap is 1 until betting opens, and while bets are taken the balance is the banker's. -/
def CapInv (g : Game) (balance : ℚ) : Prop :=
  match g.curstate with
  | .waitPlayer | .waitStartGame => g.topupling = 1
  | .grabTheBanker => g.topupling = 1 ∧ WithinCap g
  | .waitBet => 1 ≤ g.topupling ∧ (0 < g.timers.live .waitBet → g.topupling = 1) ∧ WithinCap g ∧
      g.bankermoney = balance
  | .dealPoker | .choicePokerType | .waitShowResult => WithinCap g
  | .showResult => True

variable {env : Env} {g g' t u : Game} {e : Event} {m : Mtype} {balance : ℚ}

theorem WithinCap.updated {R : Uid → GamePlayer → GamePlayer → Prop} (h : WithinCap g)
    (hgp : Table.Updated R g.gameplayer t.gameplayer)
    (hR : ∀ k v w, R k v w → w.betmoney = v.betmoney) (htop : t.topupling = g.topupling)
    (hconf : t.gameconf = g.gameconf) : WithinCap t := by
  intro k w hw
  obtain ⟨v, hv, hvw⟩ := hgp.get?_of_new hw
  rw [hR k v w hvw, htop, hconf]
  exact h k v hv

theorem Found.withinCap (h : Found g t) (hstart : g.isGameStart = true) (hcap : WithinCap g) :
    WithinCap t := by
  intro k v hv
  rw [h.topupling, h.gameconf hstart]
  exact hcap k v (h.records k v hv)

/-- The table a dispatch finds. -/
theorem Found.capInv (h : Found g t) (hlive : t.timers.live .waitBet ≤ g.timers.live .waitBet)
    (hinv : CapInv g balance) : CapInv t balance := by
  unfold CapInv at hinv ⊢
  rw [h.curstate]
  cases hs : g.curstate with
  | waitPlayer =>
    rw [hs] at hinv
    exact h.topupling.trans hinv
  | waitStartGame =>
    rw [hs] at hinv
    exact h.topupling.trans hinv
  | grabTheBanker =>
    rw [hs] at hinv
    exact ⟨h.topupling.trans hinv.1, h.withinCap (by simp [isGameStart, hs]) hinv.2⟩
  | waitBet =>
    rw [hs] at hinv
    obtain ⟨hpos, hwait, hcap, hmoney⟩ := hinv
    refine ⟨h.topupling ▸ hpos, fun hpos' => ?_, h.withinCap (by simp [isGameStart, hs]) hcap,
      h.bankermoney.trans hmoney⟩
    rw [h.topupling]
    exact hwait (by omega)
  | dealPoker =>
    rw [hs] at hinv
    exact h.withinCap (by simp [isGameStart, hs]) hinv
  | choicePokerType =>
    rw [hs] at hinv
    exact h.withinCap (by simp [isGameStart, hs]) hinv
  | waitShowResult =>
    rw [hs] at hinv
    exact h.withinCap (by simp [isGameStart, hs]) hinv
  | showResult => trivial

/-- Only while bets are taken does the invariant speak of the balance. -/
theorem CapInv.any (h : CapInv g balance) (hs : g.curstate ≠ .waitBet) (balance' : ℚ) :
    CapInv g balance' := by
  unfold CapInv at h ⊢
  cases hs' : g.curstate with
  | waitBet => exact absurd hs' hs
  | _ =>
    rw [hs'] at h
    exact h

/-- A table past the bets is in order when every bet is within the cap. -/
theorem capInv_late (hs : t.curstate = .choicePokerType ∨ t.curstate = .waitShowResult)
    (hcap : WithinCap t) : CapInv t balance := by
  unfold CapInv
  rcases hs with hs | hs
  · rw [hs]
    exact hcap
  · rw [hs]
    exact hcap

theorem CapInv.withinCap (h : CapInv g balance)
    (hs : g.curstate = .choicePokerType ∨ g.curstate = .waitShowResult) : WithinCap g := by
  unfold CapInv at h
  rcases hs with hs | hs
  · rwa [hs] at h
  · rwa [hs] at h

theorem Chosen.withinCap {uid : Uid} {ty : ℤ} {cards : List Card}
    (h : Chosen env g uid ty cards t) (hcap : WithinCap g) : WithinCap t := by
  cases h with
  | reject o ho => exact hcap
  | accept v r o hv hcheck ho =>
    have hgp : Table.Updated (fun _ (v w : GamePlayer) => w.betmoney = v.betmoney) g.gameplayer
        (g.gameplayer.modify uid fun v =>
          { v with pokertype := ty, choicecards := cards, havechoice := true }) :=
      Table.updated_modify (fun _ _ => rfl) fun _ _ => rfl
    exact hcap.updated hgp (fun _ _ _ h => h) rfl rfl

theorem Compared.withinCap (h : Compared g t) (hcap : WithinCap g) : WithinCap t := by
  cases h with
  | mk gp losers hgp hsub hnb =>
    exact hcap.updated hgp (fun _ v w hw => by rw [hw.same.1]) rfl rfl

theorem Reported.withinCap (h : Reported g m t) (hcap : WithinCap g) : WithinCap t := by
  cases h with
  | loser uid money v lose hv hw ha hl =>
    exact hcap.updated (updated_collect g uid _) (fun _ v w hw => by rw [hw]) rfl rfl
  | dropped uid money hno => exact hcap
  | banker uid money => exact hcap

theorem Settled.withinCap (h : Settled g t) (hcap : WithinCap g) : WithinCap t := by
  cases h with
  | mk b gp lr o r p hb hgp ho hcred =>
    exact hcap.updated hgp (fun _ v w hw => by rw [hw.onlyWin]) rfl rfl

/-- A fresh round has no bets. -/
theorem fresh_withinCap (hgp : t.gameplayer = g.seater.mapVal fun _ v => GamePlayer.new v.uid) : WithinCap t := by
  intro k v hv
  rw [hgp, Table.get?_mapVal, Option.map_eq_some_iff] at hv
  obtain ⟨s, -, rfl⟩ := hv
  show (0 : ℚ) ≤ _
  positivity

/-! ## Outside the grab and the bets -/

/-- Elsewhere no move sets the cap, but for the end of a round, which sets it back. -/
theorem move_cap (h : Move env g m t) (hinv : CapInv g balance) (hcalls : g.calls = [])
    (hgrab : g.curstate ≠ .grabTheBanker) (hbet : g.curstate ≠ .waitBet)
    (hanew : g.curstate = .waitStartGame → m = .timer .waitStart → 2 ≤ g.sitnum →
      g.needgrabbanker = true) :
    (∀ b, CapInv t b) ∧ Proc.notifyBet ∉ t.calls := by
  have hnone : Proc.notifyBet ∉ g.calls := by simp [hcalls]
  cases h with
  | ignore _ hi => exact ⟨hinv.any hbet, hnone⟩
  | arm uid hs hsit hclose =>
    rw [CapInv, hs] at hinv
    exact ⟨fun _ => hinv, hnone⟩
  | disarm _ hs hsit =>
    rw [CapInv, hs] at hinv
    exact ⟨fun _ => hinv, hnone⟩
  | startRound log o t hs ho hopen =>
    rw [CapInv, hs] at hinv
    have hneed := hanew hs rfl
    cases hopen with
    | close hsit => exact ⟨fun _ => hinv, hnone⟩
    | grab o' hsit hneed' ho' => exact ⟨fun _ => ⟨hinv, fresh_withinCap (g := g) rfl⟩, hnone⟩
    | animate hsit hneed' hsource =>
      have hno : g.needgrabbanker = false := hneed'
      rw [hneed hsit] at hno
      cases hno
    | bet o' hsit hneed' ho' =>
      have hno : g.needgrabbanker = false := hneed'
      rw [hneed hsit] at hno
      cases hno
  -- the states of the grab and the bets are not here: `grab_cap` and `waitBet_cap`
  | grab uid x gp o hs ho hgp => exact absurd hs hgrab
  | chooseBanker _ uid source money gp o t hs huid ho hgp hopen => exact absurd hs hgrab
  | bet uid betmoney gp o hs hall ho hgp => exact absurd hs hbet
  | notify o hs ho => exact absurd hs hbet
  | deal _ bets gp poker pos o hs hm ho hbets hbid hgp => exact absurd hs hbet
  | deckOut _ bets gp poker pos o hs hm ho hbets hbid hgp => exact absurd hs hbet
  | choose o hs ho =>
    rw [CapInv, hs] at hinv
    exact ⟨fun _ => hinv, hnone⟩
  | choice uid ty cards g₁ hs hch hall =>
    have hcap := hch.withinCap (hinv.withinCap (.inl hs))
    exact ⟨fun _ => capInv_late (.inl (hch.same.1.trans hs)) hcap, by rwa [hch.same.2.2]⟩
  | compare uid ty cards g₁ g₂ hs hch hall hcmp =>
    have hcap := hcmp.withinCap (hch.withinCap (hinv.withinCap (.inl hs)))
    refine ⟨fun _ => hcap, ?_⟩
    show Proc.notifyBet ∉ g₂.calls
    rwa [hcmp.same.2.2, hch.same.2.2]
  | timeUp gp st n r o t hs ho hn hgp hst hcmp =>
    have hcap := hcmp.withinCap (WithinCap.updated (hinv.withinCap (.inl hs)) hgp
      (fun _ v w hw => by rw [hw]) rfl rfl)
    refine ⟨fun _ => hcap, ?_⟩
    show Proc.notifyBet ∉ t.calls
    rw [hcmp.same.2.2]
    exact hnone
  | report _ g₁ hs hrep hcan =>
    have hcap := hrep.withinCap (hinv.withinCap (.inr hs))
    exact ⟨fun _ => capInv_late (.inr (hrep.same.1.trans hs)) hcap, by rwa [hrep.same.2.2]⟩
  | settle _ g₁ t hs hrep hcan hset =>
    have hcap := hset.withinCap (hrep.withinCap (hinv.withinCap (.inr hs)))
    refine ⟨fun _ => capInv_late (.inr (hset.same.1.trans (hrep.same.1.trans hs))) hcap, ?_⟩
    rw [hset.same.2.2, hrep.same.2.2, hcalls]
    decide
  | reveal o hs ho => exact ⟨fun _ => trivial, hnone⟩
  | close t hs hclosed =>
    cases hclosed with
    | mk n r p conf o again hn ho hagain =>
      refine ⟨fun _ => ?_, by simp [hcalls]⟩
      cases again with
      | false => rfl
      | true => rfl

/-! ## The grab -/

/-- What betting opens with: the balance left after the fee, and where bets are called for
the cap for it. -/
structure Opened (g t : Game) (balance : ℚ) : Prop where
  curstate : t.curstate = .waitBet
  cap : CapInv t balance
  settled : Proc.getLastResult ∉ t.calls
  fee : balance = g.bankermoney -
    (if Proc.takeFee ∈ t.calls ∧ t.gameconf.ticket ≠ 0 then (t.bankerFee : ℚ) else 0)
  topupling : Proc.notifyBet ∈ t.calls →
    CapFor ⌊balance / ((t.gameplayer.size : ℚ) * t.gameconf.basebet)⌋ t.topupling

/-- The balance after the fee, if the banker pays its own. -/
theorem moneyAfterFee_exact (hfee : FeeExact g g.banker) (hb : g.banker ∈ g.gameplayer) :
    g.moneyAfterFee =
      g.bankermoney - (if g.gameconf.ticket ≠ 0 then (g.bankerFee : ℚ) else 0) := by
  unfold moneyAfterFee
  rcases hfee with hfree | hlast
  · rw [if_neg (not_not.mpr hfree), if_neg (not_not.mpr hfree), sub_zero]
  · rw [(lastFee_eq_iff hb).mpr hlast]
    split_ifs
    · rfl
    · rw [sub_zero]

/-- A cap that is raised keeps the bets within it. -/
theorem WithinCap.raised (h : WithinCap g) (hrec : t.gameplayer = g.gameplayer)
    (hconf : t.gameconf = g.gameconf) (hone : g.topupling = 1) (hpos : 1 ≤ t.topupling) :
    WithinCap t := by
  intro k v hv
  rw [hrec] at hv
  have hle := h k v hv
  have hbase : (0 : ℚ) ≤ g.gameconf.basebet := by positivity
  have hcap : (1 : ℚ) ≤ t.topupling := by exact_mod_cast hpos
  rw [hone] at hle
  rw [hconf]
  calc v.betmoney ≤ ((1 : ℕ) : ℚ) * g.gameconf.basebet := hle
    _ ≤ t.topupling * g.gameconf.basebet := by
        rw [Nat.cast_one]
        exact mul_le_mul_of_nonneg_right hcap hbase

/-- `NotifyBet` on a table whose cap is 1 and whose banker pays its own fee. -/
theorem notifyBet_opened (hE : env.upling = types.upling) (hone : g.topupling = 1)
    (hcap : WithinCap g) (hcalls : g.calls = []) (hlive : g.timers.live .waitBet = 0)
    (hfee : FeeExact g g.banker) (hb : g.banker ∈ g.gameplayer) (o : List Out) (p : ℕ) (s : ℕ) :
    Opened g { g with
      calls := g.calls ++ [.notifyBet, .takeFee]
      curstate := .waitBet
      timers := g.timers.start .bet (g.gameconf.bettime * 100)
      starttime := env.now
      outbox := g.outbox ++ o
      bankermoney := g.moneyAfterFee
      playcount := p
      topupling := topUpling env.upling
        ⌊g.moneyAfterFee / ((g.gameplayer.size : ℚ) * g.gameconf.basebet)⌋ g.topupling
      bankersourcetype := s } g.moneyAfterFee := by
  have hfor := topUpling_capFor
    ⌊g.moneyAfterFee / ((g.gameplayer.size : ℚ) * g.gameconf.basebet)⌋ g.topupling
  rw [← hE] at hfor
  refine ⟨rfl, ⟨hfor.pos, fun hpos => ?_, hcap.raised rfl rfl hone hfor.pos, rfl⟩, ?_, ?_,
    fun _ => hfor⟩
  · have hbet : (g.timers.start .bet (g.gameconf.bettime * 100)).live .waitBet = 0 := by
      rw [Timers.live_start, if_neg (by decide), hlive]
    exact absurd hbet (Nat.pos_iff_ne_zero.mp hpos)
  · simp [hcalls]
  · rw [moneyAfterFee_exact hfee hb]
    have hmem : Proc.takeFee ∈ g.calls ++ [.notifyBet, .takeFee] := by simp
    show _ = g.bankermoney - (if Proc.takeFee ∈ g.calls ++ [.notifyBet, .takeFee] ∧
      g.gameconf.ticket ≠ 0 then (g.bankerFee : ℚ) else 0)
    simp only [hmem, true_and]

/-- While the grab goes on no bet is made and nothing is opened. -/
theorem Regrabbed.cap (h : Regrabbed g t) (hs : g.curstate = .grabTheBanker)
    (hinv : CapInv g balance) (hcalls : g.calls = []) (balance' : ℚ) :
    CapInv t balance' ∧ Proc.notifyBet ∉ t.calls := by
  obtain ⟨gp, o, -, hgp, rfl⟩ := h
  rw [CapInv, hs] at hinv
  refine ⟨?_, by simp [hcalls]⟩
  unfold CapInv
  rw [show ({ g with gameplayer := gp, outbox := g.outbox ++ o } : Game).curstate
    = .grabTheBanker from hs]
  exact ⟨hinv.1, hinv.2.updated hgp (fun _ v w hw => by rw [hw.1]) rfl rfl⟩

/-- A round that opens its bets, with a cap of 1 until then. -/
theorem opening_opened (hopen : Opening env g t) (hE : env.upling = types.upling)
    (hsit : 2 ≤ g.sitnum) (hneed : g.needgrabbanker = false) (hone : g.topupling = 1)
    (hcap : WithinCap g) (hcalls : g.calls = []) (hlive : g.timers.live .waitBet = 0)
    (hfee : Proc.notifyBet ∈ t.calls → FeeExact g g.banker) (hb : g.banker ∈ g.gameplayer) :
    Opened g t t.bankermoney := by
  cases hopen with
  | close hfew => omega
  | grab o _ hgrab _ =>
    rw [hneed] at hgrab
    cases hgrab
  | animate _ _ _ =>
    refine ⟨rfl, ⟨hone.ge, fun _ => hone, hcap, rfl⟩, by simp [hcalls], ?_, by simp [hcalls]⟩
    simp [hcalls]
  | bet o _ _ _ =>
    exact notifyBet_opened hE hone hcap hcalls hlive (hfee (by simp)) hb o _ _

/-- The balance noted when the bets open. -/
theorem Opened.note {c : Game} {money : ℚ} (h : Opened c t money) (e : Event)
    (hmoney : (if g.curstate = .grabTheBanker ∧ t.curstate = .waitBet then t.bankerReported
      else balance) = c.bankermoney) : noteBalance g e t balance = money := by
  unfold noteBalance
  rw [hmoney, if_neg h.settled, add_zero, h.fee]

/-- The banker chosen, the balance is the money it reported, less the fee if betting opens at
once. -/
theorem grab_cap (e : Event) (h : Ready g m) (hs : g.curstate = .grabTheBanker)
    (hinv : CapInv g balance)
    (hcalls : g.calls = []) (hlive : g.timers.live .waitBet = 0)
    (hE : env.upling = types.upling)
    (hfee : ∀ u banker, g.grabEnds m = some u → u.grabers = [banker] → FeeExact u banker)
    (ht : t = Handler.after (g.grabTheBanker env m)) :
    CapInv t (noteBalance g e t balance) ∧ (Proc.notifyBet ∈ t.calls →
      CapFor ⌊noteBalance g e t balance / ((t.gameplayer.size : ℚ) * t.gameconf.basebet)⌋
        t.topupling) := by
  cases hends : g.grabEnds m with
  | none =>
    obtain ⟨t', hok, hre⟩ := grab_goesOn env h.sound hends
    rw [hok] at ht
    obtain rfl : t = t' := ht
    obtain ⟨hcap, hno⟩ := hre.cap hs hinv hcalls (noteBalance g e t balance)
    exact ⟨hcap, fun hmem => absurd hmem hno⟩
  | some u =>
    obtain ⟨b, t', hb, hok, hopen⟩ := grab_ends env h.sound hs hends
    rw [hok] at ht
    obtain rfl : t = t' := ht
    have hre := grabEnds_regrabbed h.sound hends
    have hsit := grabEnds_sitnum h hs hends
    have hcap := (hre.cap hs hinv hcalls balance).1
    obtain ⟨gp, o, -, -, hu⟩ := hre
    have hsame : u.curstate = .grabTheBanker ∧ u.calls = [] ∧ u.timers = g.timers := by
      rw [hu]
      exact ⟨hs, hcalls, rfl⟩
    rw [CapInv, hsame.1] at hcap
    have hfee' : Proc.notifyBet ∈ t.calls →
        FeeExact (bankerChosen env u b) (bankerChosen env u b).banker := by
      intro hmem
      by_cases hmany : ∀ uid, u.grabers ≠ [uid]
      · -- the choice is shown first, so nothing has been opened
        obtain ⟨t', ht', hcalls'⟩ := notifyTheGrab_shown env hb hmany hsit
        rw [grabTheBanker_ends env hends, ht'] at hok
        obtain rfl := Except.ok.inj hok
        rw [hcalls', hsame.2.1] at hmem
        cases hmem
      · obtain ⟨banker, hone⟩ := not_forall_not.mp hmany
        have hexact := hfee u banker hends hone
        rw [← chooseBanker_single env hone] at hexact
        rcases hexact with hfree | hlast | heq
        · exact .inl hfree
        · refine .inr (.inl ?_)
          show (u.gameplayer.mapVal _).keys.getLast? = _
          rw [Table.keys_mapVal]
          exact hlast
        · exact .inr (.inr heq)
    have hopened := opening_opened hopen hE hsit rfl hcap.1
      (hcap.2.updated (bankerChosen_grabbed env u b) (fun _ v w hw => by rw [hw.1]) rfl rfl)
      hsame.2.1 (by rw [show (bankerChosen env u b).timers = u.timers from rfl, hsame.2.2]; exact hlive)
      hfee' (Table.mem_of_get? (bankerChosen_record hb))
    have hmoney : t.bankerReported = (bankerChosen env u b).bankermoney := by
      obtain ⟨hbanker, hrecords, -⟩ := hopen.kept (show 2 ≤ u.sitnum from hsit)
      unfold bankerReported
      rw [hbanker, hrecords, bankerChosen_record hb]
      rfl
    rw [hopened.note e ((if_pos ⟨hs, hopened.curstate⟩).trans hmoney)]
    exact ⟨hopened.cap, hopened.topupling⟩

/-! ## The bets -/

/-- Where no procedure was entered the balance is as it was. -/
theorem noteBalance_none (e : Event) (hs : g.curstate ≠ .grabTheBanker) (hcalls : t.calls = []) :
    noteBalance g e t balance = balance := by
  unfold noteBalance
  simp [hs, hcalls]

/-- A bet above the cap is refused, and the base bet is within every cap. -/
theorem Bid.withinCap (h : Bid g u) (hcap : WithinCap g) (hpos : 1 ≤ g.topupling) :
    WithinCap u := by
  cases h with
  | same => exact hcap
  | rest =>
    obtain ⟨gp, o, -, hgp, -, hres⟩ := betForResPlayer_spec g
    rw [hres]
    intro k w hw
    obtain ⟨v, hv, hvw⟩ := hgp.get?_of_new hw
    rcases hvw.2 with hsame | hbase
    · rw [hsame]
      exact hcap k v hv
    · rw [hbase]
      have htop : (1 : ℚ) ≤ g.topupling := by exact_mod_cast hpos
      exact le_mul_of_one_le_left (by positivity) htop
  | one uid betmoney =>
    unfold someOneBet
    by_cases hmem : uid ∈ g.gameplayer
    · by_cases hover : betmoney > g.topupling * g.gameconf.basebet
      · obtain ⟨o', -, hsend⟩ := sendTo_spec g uid (.someOneBet uid 0 errorcode.BET_MONEY_ERROR)
        rw [if_pos hmem, if_pos hover, hsend]
        exact hcap
      · rw [if_pos hmem, if_neg hover]
        intro k w hw
        have hget : (g.gameplayer.modify uid fun v => { v with betmoney := betmoney }).get? k
          = some w := hw
        rw [Table.get?_modify] at hget
        by_cases hk : k = uid
        · rw [if_pos hk, Option.map_eq_some_iff] at hget
          obtain ⟨v, -, rfl⟩ := hget
          exact not_lt.mp hover
        · rw [if_neg hk] at hget
          exact hcap k w hget
    · rw [if_neg hmem]
      exact hcap

/-- The end of the bets deals, and keeps them. -/
theorem Rebid.endBet (h : Rebid g u) (hch : NoChoice g) (hcalls : g.calls = [])
    (hcap : WithinCap u) (ht : t = Handler.after (u.endBet env)) :
    t.curstate = .dealPoker ∧ t.calls = [] ∧ WithinCap t := by
  obtain ⟨gp, o, hgp, rfl⟩ := h
  have hch' : NoChoice (({ g with gameplayer := gp, outbox := g.outbox ++ o } : Game).changeState
      .dealPoker) := by
    intro k v hv
    obtain ⟨w, hw, hsame⟩ := hgp.get?_of_new hv
    rw [hsame]
    exact hch k w hw
  unfold endBet at ht
  obtain ⟨gp', poker, pos, o', -, ⟨hgp', hok⟩ | ⟨hgp', herr⟩⟩ := dealPoker_spec env hch'
  · rw [Handler.bind_of_ok hok] at ht
    rw [ht]
    exact ⟨rfl, hcalls, hcap.updated hgp' (fun _ v w hw => by rw [hw.1]) rfl rfl⟩
  · rw [Handler.bind_of_error herr] at ht
    rw [ht]
    exact ⟨rfl, hcalls, hcap.updated hgp' (fun _ v w hw => by rw [hw]) rfl rfl⟩

/-- While bets are taken the handler opens them with the cap for the balance, or keeps them
within the cap: the timeout that shows the choice of the banker comes before the cap was set. -/
theorem waitBet_cap (e : Event) (h : Ready g m) (hs : g.curstate = .waitBet)
    (hinv : CapInv g balance) (hcalls : g.calls = []) (hE : env.upling = types.upling)
    (hwait : m = .timer .waitBet → g.timers.live .waitBet = 0 ∧ g.topupling = 1)
    (hfee : m = .timer .waitBet → FeeExact g g.banker)
    (ht : t = Handler.after (g.waitBet env m)) :
    CapInv t (noteBalance g e t balance) ∧ (Proc.notifyBet ∈ t.calls →
      CapFor ⌊noteBalance g e t balance / ((t.gameplayer.size : ℚ) * t.gameconf.basebet)⌋
        t.topupling) := by
  obtain ⟨-, hbank, hch⟩ := h.inv.bet hs
  have hgrab : g.curstate ≠ .grabTheBanker := by
    rw [hs]
    decide
  rw [CapInv, hs] at hinv
  obtain ⟨hpos, hone, hcap, hmoney⟩ := hinv
  rcases waitBet_cases env g m with ⟨hm, hopen⟩ | ⟨u, hbid, hbet⟩
  · obtain ⟨hlive, htop⟩ := hwait hm
    obtain ⟨o, -, hok⟩ := notifyBet_spec env h.inv.seats.seated
    rw [hopen, hok] at ht
    have hopened : Opened g t g.moneyAfterFee := by
      rw [ht]
      exact notifyBet_opened hE htop hcap hcalls hlive (hfee hm) hbank o _ _
    rw [hopened.note e ((if_neg fun hgr => hgrab hgr.1).trans hmoney.symm)]
    exact ⟨hopened.cap, hopened.topupling⟩
  · have hcap' := hbid.withinCap hcap hpos
    obtain ⟨hnone, hkept⟩ : t.calls = [] ∧ CapInv t balance := by
      rcases hbet with hstay | hend
      · rw [hstay] at ht
        obtain rfl : t = u := ht
        obtain ⟨gp, o, -, heq⟩ := hbid.rebid
        rw [heq] at hcap' ⊢
        refine ⟨hcalls, ?_⟩
        unfold CapInv
        rw [show ({ g with gameplayer := gp, outbox := g.outbox ++ o } : Game).curstate
          = .waitBet from hs]
        exact ⟨hpos, hone, hcap', hmoney⟩
      · rw [hend] at ht
        obtain ⟨hdeal, hcalls', hcap''⟩ := hbid.rebid.endBet hch hcalls hcap' ht
        refine ⟨hcalls', ?_⟩
        rw [CapInv, hdeal]
        exact hcap''
    rw [noteBalance_none e hgrab hnone, hnone]
    exact ⟨hkept, fun hmem => absurd hmem List.not_mem_nil⟩

/-! ## Runs -/

/-- The timeout that shows the choice of the banker is pending at most once, and only while bets
are taken. -/
theorem shown_timer (h : system.Reachable g) :
    (g.curstate = .grabTheBanker → g.timers.live .waitBet = 0) ∧
      (g.curstate = .waitBet → g.timers.live .waitBet ≤ 1) := by
  obtain ⟨calls, hcalls⟩ : ∃ calls, feeSystem.Reachable (g, calls) := h.observe
  have hfee := fee_inductive.invariant _ hcalls
  unfold FeeInv at hfee
  refine ⟨fun hs => ?_, fun hs => ?_⟩
  · rw [show (g, calls).1.curstate = _ from hs] at hfee
    exact hfee.2.1
  · rw [show (g, calls).1.curstate = _ from hs] at hfee
    rcases hfee with ⟨-, hnone⟩ | ⟨-, hone, -⟩
    · exact hnone.le.trans (by decide)
    · exact hone.le

/-- A careful step keeps the invariant, and what it calls for bets it calls for with the cap for
the banker's balance. -/
theorem cap_step (h : system.Reachable g) (hinv : CapInv g balance) (hcareful : Careful g e)
    (hstep : orderedSystem.step g e t) :
    CapInv t (noteBalance g e t balance) ∧ (Proc.notifyBet ∈ t.calls →
      CapFor ⌊noteBalance g e t balance / ((t.gameplayer.size : ℚ) * t.gameconf.basebet)⌋
        t.topupling) := by
  have hsound := inv_invariant g h
  obtain ⟨hgrabLive, hbetLive⟩ := shown_timer h
  rcases StepIn.cases hsound hstep with
    ⟨env, g', m, hE, hf, hready, ht⟩ | ⟨hfound, hlive⟩
  · have hfound := found_found hsound hf
    have hcur := hfound.curstate
    have hdue := live_found hsound hf .waitBet
    have hinv' := hfound.capInv (by omega) hinv
    have hnote : noteBalance g e t balance = noteBalance g' e t balance := by
      unfold noteBalance
      rw [hcur]
    have hhandled := handled_of_found hf
    rw [hnote]
    -- the two states in which the cap is set or used have lemmas of their own
    by_cases hgrab : g'.curstate = .grabTheBanker
    · have hs := hcur.symm.trans hgrab
      rw [command, hgrab] at ht
      exact grab_cap e hready hgrab hinv' hfound.calls (by have := hgrabLive hs; omega) hE
        (fun u banker hu => hcareful.chosen u banker (notifies_of_found hs hf hu)) ht
    by_cases hbet : g'.curstate = .waitBet
    · have hs := hcur.symm.trans hbet
      rw [command, hbet] at ht
      refine waitBet_cap e hready hbet hinv' hfound.calls hE (fun hm => ?_) (fun hm => ?_) ht
      · rw [if_pos hm] at hdue
        have hle := hbetLive hs
        refine ⟨by omega, ?_⟩
        rw [CapInv, hs] at hinv
        rw [hfound.topupling]
        exact hinv.2.1 (by omega)
      · rw [hm] at hf hhandled
        obtain ⟨timers, rfl⟩ := found_timer hf
        exact hcareful.shown hs hhandled
    · have hmove : Move env g' m t := by
        rw [ht]
        exact moves_after (command_moves hready.sound)
      obtain ⟨hcap, hno⟩ := move_cap hmove hinv' hfound.calls hgrab hbet fun hs hm => by
        rw [hm] at hf hhandled
        obtain ⟨timers, rfl⟩ := found_timer hf
        exact hcareful.anew hs hhandled
      exact ⟨hcap _, fun hmem => absurd hmem hno⟩
  · have hsame : noteBalance g e t balance = balance := by
      unfold noteBalance
      rw [hfound.curstate, hfound.calls, if_neg]
      · simp
      · rintro ⟨hgrab, hbet⟩
        rw [hgrab] at hbet
        cases hbet
    rw [hsame]
    refine ⟨hfound.capInv (hlive _).le hinv, fun hmem => ?_⟩
    rw [hfound.calls] at hmem
    cases hmem

theorem orderedSystem_reachable (h : orderedSystem.Reachable g) : system.Reachable g :=
  TSys.Reachable.mono (T := orderedSystem) (U := system) (fun _ h0 => h0)
    (fun _ _ _ hs => StepIn.step hs) h

/-- A run whose steps are all careful. -/
def carefulSystem : TSys (Game × ℚ) Event := balanceSystem.restrict fun p e => Careful p.1 e

theorem cap_inductive : carefulSystem.Inductive fun p => CapInv p.1 p.2 where
  init := by
    rintro p ⟨⟨conf, hconf⟩, -⟩
    rw [hconf]
    exact rfl
  step := by
    rintro p e q hp ih ⟨hcareful, hstep, hnote⟩
    rw [hnote]
    exact (cap_step (orderedSystem_reachable hp.of_restrict.of_observe) ih hcareful hstep).1

/-- **The cap follows the banker's balance.** In a run whose steps are all careful, whenever
`NotifyBet` sets the cap it is the one for the banker's balance, and in every round nobody's bet
is above it. -/
theorem cap_follows_balance {p : Game × ℚ} (h : carefulSystem.Reachable p) :
    (∀ e q, carefulSystem.step p e q → Proc.notifyBet ∈ q.1.calls →
      CapFor ⌊q.2 / ((q.1.gameplayer.size : ℚ) * q.1.gameconf.basebet)⌋ q.1.topupling) ∧
    (p.1.isGameStart = true → WithinCap p.1) := by
  have hinv := cap_inductive.invariant p h
  constructor
  · rintro e q ⟨hcareful, hstep, hnote⟩ hmem
    rw [hnote]
    exact (cap_step (orderedSystem_reachable h.of_restrict.of_observe) hinv hcareful hstep).2 hmem
  · intro hstart
    unfold CapInv at hinv
    cases hs : p.1.curstate with
    | waitPlayer => simp [isGameStart, hs] at hstart
    | waitStartGame => simp [isGameStart, hs] at hstart
    | grabTheBanker =>
      rw [hs] at hinv
      exact hinv.2
    | waitBet =>
      rw [hs] at hinv
      exact hinv.2.2.1
    | dealPoker =>
      rw [hs] at hinv
      exact hinv
    | choicePokerType =>
      rw [hs] at hinv
      exact hinv
    | waitShowResult =>
      rw [hs] at hinv
      exact hinv
    | showResult => simp [isGameStart, hs] at hstart

/-- Draws after which no hand is a bull of bulls, so that the banker may stay. -/
def plainDraws : Env := { Env.quiet with rnd := fun _ => 1 }

/-- The first player alone wants the bank. -/
def oneVolunteer : List Event := twoSit ++ [.msg 1 101 (.someOneGrab 1 10000)]

def carefulExec : Game × ℚ → Event → Option (Game × ℚ) :=
  TSys.restrictExec (fun p e => Careful p.1 e) (TSys.observeExec (exec plainDraws) noteBalance)

/-- The second player's answer is about to open the bets. -/
def firstShown (p : Game × ℚ) : Bool :=
  (carefulExec p (.msg 2 102 (.someOneGrab 2 10000))).any fun q =>
    decide (Proc.notifyBet ∈ q.1.calls ∧ q.2 = 9975)

/-- The bets of a careful run are opened with the cap for the banker's balance. -/
theorem cap_follows_first_choice : ∃ p q : Game × ℚ, carefulSystem.Reachable p ∧
    Proc.notifyBet ∈ q.1.calls ∧ q.2 = 9975 ∧
    CapFor ⌊q.2 / ((q.1.gameplayer.size : ℚ) * q.1.gameconf.basebet)⌋ q.1.topupling := by
  have hexec : ∀ p e q, carefulExec p e = some q → carefulSystem.step p e q :=
    TSys.restrictExec_step (T := balanceSystem)
      (TSys.observeExec_step (T := orderedSystem) (exec_stepIn rfl))
  obtain ⟨p, hp, hend⟩ := TSys.reachable_of_exec (T := carefulSystem) (l := oneVolunteer)
    (p := firstShown) hexec (s := (creatGame .base50, 0)) ⟨⟨_, rfl⟩, rfl⟩ (by decide +kernel)
  obtain ⟨q, hq, hopen⟩ := (Option.any_eq_true _ _).mp hend
  obtain ⟨hmem, hbalance⟩ := of_decide_eq_true hopen
  exact ⟨p, q, hp, hmem, hbalance, (cap_follows_balance hp).1 _ q (hexec _ _ _ hq) hmem⟩

/-- A whole round of a banker who stays. -/
def keptRound : List Event :=
  oneVolunteer ++ [.msg 2 102 (.someOneGrab 2 10000), .msg 2 102 (.someOneBet 50), .timeout 2,
    .timeout 2, .msg 1 101 (.bankerMoney 9975), .timeout 2, .timeout 2]

/-- The table is about to open the bets of a second round, with a balance for the highest cap. -/
def keptShown (p : Game × ℚ) : Bool :=
  (TSys.observeExec (exec plainDraws) noteBalance p (.timeout 2)).any fun q =>
    decide (Proc.notifyBet ∈ q.1.calls ∧ q.2 = 9850 ∧ q.1.gameplayer.size = 2 ∧
      q.1.gameconf.basebet = 50 ∧ q.1.topupling = 1)

/-- A banker who stays is taken for one without money: its second round has the lowest cap. -/
theorem kept_banker_cap : ∃ p q : Game × ℚ, balanceSystem.Reachable p ∧
    balanceSystem.step p (.timeout 2) q ∧ Proc.notifyBet ∈ q.1.calls ∧
    ¬ CapFor ⌊q.2 / ((q.1.gameplayer.size : ℚ) * q.1.gameconf.basebet)⌋ q.1.topupling := by
  have hexec : ∀ p e q, TSys.observeExec (exec plainDraws) noteBalance p e = some q →
      balanceSystem.step p e q :=
    TSys.observeExec_step (T := orderedSystem) (exec_stepIn rfl)
  obtain ⟨p, hp, hend⟩ := TSys.reachable_of_exec (T := balanceSystem) (l := keptRound)
    (p := keptShown) hexec (s := (creatGame .base50, 0)) ⟨⟨_, rfl⟩, rfl⟩ (by decide +kernel)
  obtain ⟨q, hq, hopen⟩ := (Option.any_eq_true _ _).mp hend
  obtain ⟨hmem, hbalance, hsize, hbase, htop⟩ := of_decide_eq_true hopen
  refine ⟨p, q, hp, hexec _ _ _ hq, hmem, fun hcap => ?_⟩
  rw [hbalance, hsize, hbase, htop] at hcap
  have hreach : ((types.uplingTop : ℕ) : ℤ) ≤ ⌊(9850 : ℚ) / (((2 : ℕ) : ℚ) * ((50 : ℕ) : ℚ))⌋ := by
    decide +kernel
  have hone := hcap.1 hreach
  exact absurd hone (by decide)

end Game

end DnServer.Bullfight
