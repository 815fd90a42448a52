import DnServer.Bullfight.Game.Moves
import DnServer.Bullfight.Game.System

/-!
# The game service: the table invariant

`Inv` says what every reachable table satisfies: the seats and their count, the
bank, and what the state of the round promises about the hands. Every move keeps
it, and so does what a dispatch does before it moves.

* `Move.inv`: each move keeps `Inv`, one lemma for each move that starts, deals,
  compares, pays or closes.
* `inv_invariant`: so does a dispatch, whose leave requests and update of the
  configuration come first (`pretreat_inv`, `begin_inv`).
* `handle_error`: at a table with `Inv` the one error is the assertion of `dealPoker`.
-/

namespace DnServer.Bullfight

open DnServer.Lib

namespace Game

/-! ## The invariant -/

/-- What holds of the seats in every state. -/
structure Seats (g : Game) : Prop where
  seated : Seated g
  sitnum : g.sitnum = g.seater.size
  money : MoneyNonneg g
  force : g.forcequitplayer = .empty
  carried : g.needgrabbanker = false → g.banker ∈ g.seater

/-- What the state promises about the round. -/
def RoundInv (g : Game) : Prop :=
  match g.curstate with
  | .waitPlayer | .waitStartGame => True
  | .grabTheBanker => 2 ≤ g.gameplayer.size ∧ NoChoice g
  | .waitBet => 2 ≤ g.gameplayer.size ∧ g.banker ∈ g.gameplayer ∧ NoChoice g
  | .dealPoker => 2 ≤ g.gameplayer.size ∧ g.banker ∈ g.gameplayer ∧
      (0 < g.timers.live .dealPoker → Hands g.gameplayer)
  | .choicePokerType | .waitShowResult =>
    2 ≤ g.gameplayer.size ∧ g.banker ∈ g.gameplayer ∧ Hands g.gameplayer
  | .showResult => Hands g.gameplayer

/-- The invariant of a table. At most one timeout ends the deal. -/
structure Inv (g : Game) : Prop where
  seats : Seats g
  round : RoundInv g
  dealTimer : g.timers.live .dealPoker ≤ if g.curstate = .dealPoker then 1 else 0

section Read

variable {g : Game} (h : Inv g)
include h

theorem Inv.grab (hs : g.curstate = .grabTheBanker) : 2 ≤ g.gameplayer.size ∧ NoChoice g := by
  have hround := h.round
  rwa [RoundInv, hs] at hround

theorem Inv.bet (hs : g.curstate = .waitBet) :
    2 ≤ g.gameplayer.size ∧ g.banker ∈ g.gameplayer ∧ NoChoice g := by
  have hround := h.round
  rwa [RoundInv, hs] at hround

theorem Inv.deal (hs : g.curstate = .dealPoker) :
    2 ≤ g.gameplayer.size ∧ g.banker ∈ g.gameplayer ∧
      (0 < g.timers.live .dealPoker → Hands g.gameplayer) := by
  have hround := h.round
  rwa [RoundInv, hs] at hround

theorem Inv.hand (hs : g.curstate = .choicePokerType ∨ g.curstate = .waitShowResult) :
    2 ≤ g.gameplayer.size ∧ g.banker ∈ g.gameplayer ∧ Hands g.gameplayer := by
  have hround := h.round
  rcases hs with hs | hs
  · rwa [RoundInv, hs] at hround
  · rwa [RoundInv, hs] at hround

theorem Inv.shown (hs : g.curstate = .showResult) : Hands g.gameplayer := by
  have hround := h.round
  rwa [RoundInv, hs] at hround

theorem Inv.noDeal (hs : g.curstate ≠ .dealPoker) : g.timers.live .dealPoker = 0 := by
  have htimer := h.dealTimer
  rw [if_neg hs] at htimer
  omega

end Read

/-! ## Records that are replaced -/

/-- `w` is a record of the same player, and no poorer than nothing if `v` was. -/
structure Kept (v w : GamePlayer) : Prop where
  uid : w.uid = v.uid
  money : 0 ≤ v.money → 0 ≤ w.money

theorem OnlyGrab.kept {v w : GamePlayer} (h : OnlyGrab v w) : Kept v w := ⟨h.uid, h.2⟩

theorem OnlyBet.kept {bids : ℚ → Prop} {v w : GamePlayer} (h : OnlyBet bids v w) : Kept v w :=
  ⟨h.uid, fun hm => by rw [h.1]; exact hm⟩

theorem OnlyCards.kept {v w : GamePlayer} (h : OnlyCards v w) : Kept v w :=
  ⟨by rw [h], fun hm => by rw [h]; exact hm⟩

theorem SamePlay.kept {v w : GamePlayer} (h : SamePlay v w) : Kept v w :=
  ⟨h.uid, fun hm => by rw [h.1]; exact hm⟩

theorem OnlyWin.kept {v w : GamePlayer} (h : OnlyWin v w) : Kept v w :=
  ⟨by rw [h], fun hm => by rw [h]; exact hm⟩

theorem SettledTo.onlyWin {g : Game} {money : ℚ} {done : List (Uid × GamePlayer)} {k : Uid}
    {v w : GamePlayer} (h : SettledTo g money done k v w) : OnlyWin v w := by
  by_cases hk : k = g.banker
  · rw [h.banker hk]
    rfl
  by_cases hwin : k ∈ done.map Prod.fst ∧ v.totaladd > 0
  · rw [h.winner hk hwin.1 hwin.2]
    rfl
  · rw [h.other hk (not_and_or.mp hwin)]
    rfl

theorem OnlyWin.hand {v w : GamePlayer} (h : OnlyWin v w) (hv : Hand v) : Hand w := by
  rw [h]
  exact ⟨hv.size, hv.same, hv.typed⟩

theorem SamePlay.hand {v w : GamePlayer} (h : SamePlay v w) (hv : Hand v) : Hand w := by
  refine ⟨?_, ?_, ?_⟩
  · rw [h.1]
    exact hv.size
  · refine h.2.trans ?_
    rw [h.1]
    exact hv.same
  · rw [h.1]
    exact hv.typed

/-- A hand that was just dealt. -/
theorem Dealt.hand {v w : GamePlayer} (h : Dealt v w) : Hand w := by
  obtain ⟨t, ret, hret, -, -, hperm⟩ := Poker.getBFType_ok h.2.1
  rw [h.2.2] at hret
  cases hret
  exact ⟨h.2.1, hperm, .inr ⟨_, h.2.2⟩⟩

theorem Hands.updated {s t : Table Uid GamePlayer} {R : Uid → GamePlayer → GamePlayer → Prop}
    (h : Hands s) (hst : Table.Updated R s t)
    (hR : ∀ k v w, R k v w → Hand v → Hand w) : Hands t := by
  intro k w hw
  obtain ⟨v, hv, hvw⟩ := hst.get?_of_new hw
  exact hR k v w hvw (h k v hv)

/-! ## Tables with the same seats -/

/-- `t` is a table with the seats of `g`: the records may have changed, the
players have not. -/
structure SameSeats (g t : Game) : Prop where
  gameplayer : Table.Updated (fun _ => Kept) g.gameplayer t.gameplayer
  seater : Table.Updated (fun _ (x y : Seater) => y.uid = x.uid) g.seater t.seater
  players : t.players = g.players
  sitnum : t.sitnum = g.sitnum
  force : t.forcequitplayer = g.forcequitplayer
  banker : t.banker = g.banker
  need : g.needgrabbanker = true → t.needgrabbanker = true

theorem SameSeats.seats {g t : Game} (h : SameSeats g t) (hg : Seats g) : Seats t where
  seated := by
    refine ⟨fun k p hp => ?_, fun k s hs => ?_, fun k v hv => ?_, fun k hk => ?_, fun k hk => ?_⟩
    · rw [h.players] at hp
      exact hg.seated.players_uid k p hp
    · obtain ⟨x, hx, hsame⟩ := h.seater.get?_of_new hs
      exact hsame.trans (hg.seated.seater_uid k x hx)
    · obtain ⟨u, hu, hsame⟩ := h.gameplayer.get?_of_new hv
      exact hsame.uid.trans (hg.seated.gameplayer_uid k u hu)
    · rw [h.players]
      exact hg.seated.seater_players k (h.seater.mem.mp hk)
    · exact h.seater.mem.mpr (hg.seated.gameplayer_seater k (h.gameplayer.mem.mp hk))
  sitnum := by rw [h.sitnum, h.seater.size, hg.sitnum]
  money := by
    intro k v hv
    obtain ⟨u, hu, hsame⟩ := h.gameplayer.get?_of_new hv
    exact hsame.money (hg.money k u hu)
  force := h.force.trans hg.force
  carried := by
    intro hneed
    rw [h.banker, h.seater.mem]
    refine hg.carried ?_
    cases hn : g.needgrabbanker with
    | false => rfl
    | true => exact absurd (h.need hn) (by rw [hneed]; exact Bool.false_ne_true)

private theorem kept_refl (t : Table Uid GamePlayer) : Table.Updated (fun _ => Kept) t t :=
  Table.Updated.refl fun _ _ _ => ⟨rfl, fun h => h⟩

private theorem seater_refl (t : Table Uid Seater) :
    Table.Updated (fun _ (x y : Seater) => y.uid = x.uid) t t :=
  Table.Updated.refl fun _ _ _ => rfl

/-- New records and nothing else. -/
private theorem sameSeats_of {g t : Game} {R : Uid → GamePlayer → GamePlayer → Prop}
    (hgp : Table.Updated R g.gameplayer t.gameplayer) (hR : ∀ k v w, R k v w → Kept v w)
    (hseater : t.seater = g.seater) (hplayers : t.players = g.players)
    (hsit : t.sitnum = g.sitnum) (hforce : t.forcequitplayer = g.forcequitplayer)
    (hbanker : t.banker = g.banker) (hneed : g.needgrabbanker = true → t.needgrabbanker = true) :
    SameSeats g t :=
  ⟨hgp.mono hR, by rw [hseater]; exact seater_refl _, hplayers, hsit, hforce, hbanker, hneed⟩

theorem NoChoice.updated {g t : Game} {R : Uid → GamePlayer → GamePlayer → Prop}
    (h : NoChoice g) (hgp : Table.Updated R g.gameplayer t.gameplayer)
    (hR : ∀ k v w, R k v w → w.choicecards = v.choicecards) : NoChoice t := by
  intro k w hw
  obtain ⟨v, hv, hvw⟩ := hgp.get?_of_new hw
  exact (hR k v w hvw).trans (h k v hv)

/-! ## Every move keeps the invariant -/

/-- What holds when the handler is called for `m`: a timeout that ends the deal
has left the schedule, and reported money is not negative. -/
structure Ready (g : Game) (m : Mtype) : Prop where
  inv : Inv g
  dealt : m = .timer .dealPoker → g.curstate = .dealPoker →
    Hands g.gameplayer ∧ g.timers.live .dealPoker = 0
  reported : ∀ uid x money, m = .msg uid x → x.reported = some money → 0 ≤ money

theorem Ready.sound {g : Game} {m : Mtype} (h : Ready g m) : Sound g m where
  seated := h.inv.seats.seated
  money := h.inv.seats.money
  force := h.inv.seats.force
  nonempty hs := by
    have := (h.inv.grab hs).1
    omega
  banker hs := (h.inv.hand hs).2.1
  undealt hs := (h.inv.bet hs).2.2
  hands hs := (h.inv.hand (.inl hs)).2.2
  reported := h.reported

private theorem live_start_ne (t : Timers TimerId) {i : TimerId} (hi : .dealPoker ≠ i) (ti : ℕ) :
    (t.start i ti).live .dealPoker = t.live .dealPoker := by
  rw [Timers.live_start, if_neg hi, Nat.add_zero]

/-- Only what no seat depends on has changed. -/
private theorem sameSeats_records {g t : Game}
    (h : (t.gameplayer, t.seater, t.players, t.sitnum, t.forcequitplayer, t.banker,
        t.needgrabbanker) =
      (g.gameplayer, g.seater, g.players, g.sitnum, g.forcequitplayer, g.banker,
        g.needgrabbanker)) : SameSeats g t := by
  simp only [Prod.mk.injEq] at h
  obtain ⟨hgp, hseater, hplayers, hsit, hforce, hbanker, hneed⟩ := h
  exact sameSeats_of (hgp ▸ kept_refl _) (fun _ _ _ h => h) hseater hplayers hsit hforce hbanker
    fun h => hneed.trans h

/-- A table with the seats of a sound one, once its round is in order. -/
private theorem inv_of_same {g t : Game} (hg : Seats g) (h : SameSeats g t) (hround : RoundInv t)
    (htimer : t.timers.live .dealPoker ≤ if t.curstate = .dealPoker then 1 else 0) : Inv t :=
  ⟨h.seats hg, hround, htimer⟩

/-- A round that opens is a round of all who were given a record. -/
private theorem opening_inv {env : Env} {g t : Game} (ht : Opening env g t) (hseats : Seats g)
    (hch : NoChoice g) (hsize : 2 ≤ g.sitnum → 2 ≤ g.gameplayer.size)
    (hbank : g.needgrabbanker = false → g.banker ∈ g.gameplayer)
    (htimer : g.timers.live .dealPoker = 0) : Inv t := by
  cases ht with
  | close hsit =>
    refine ⟨⟨⟨hseats.seated.1, hseats.seated.2, fun k v hv => ?_, hseats.seated.4,
      fun k hk => absurd hk (Table.not_mem_empty k)⟩, hseats.sitnum, fun k v hv => ?_,
      hseats.force, hseats.carried⟩, trivial, ?_⟩
    · simp at hv
    · simp at hv
    · simp
  | grab o hsit hneed ho =>
    refine inv_of_same hseats (sameSeats_records rfl) ⟨hsize hsit, hch⟩ ?_
    show (g.timers.start .grabBanker _).live .dealPoker ≤ 0
    rw [live_start_ne _ (by decide), htimer]
  | animate hsit hneed hsource =>
    refine inv_of_same hseats (sameSeats_records rfl)
      ⟨hsize hsit, hbank hneed, hch⟩ ?_
    show (g.timers.start .waitBet _).live .dealPoker ≤ 0
    rw [live_start_ne _ (by decide), htimer]
  | bet o hsit hneed ho =>
    refine inv_of_same hseats (sameSeats_records rfl)
      ⟨hsize hsit, hbank hneed, hch⟩ ?_
    show (g.timers.start .bet _).live .dealPoker ≤ 0
    rw [live_start_ne _ (by decide), htimer]

/-- The comparison leaves every hand as it is. -/
private theorem compared_inv {g t : Game} (hseats : Seats g) (hsize : 2 ≤ g.gameplayer.size)
    (hbank : g.banker ∈ g.gameplayer) (hhands : Hands g.gameplayer) (ht : Compared g t) :
    Seats t ∧ 2 ≤ t.gameplayer.size ∧ t.banker ∈ t.gameplayer ∧ Hands t.gameplayer := by
  cases ht with
  | mk gp losers hgp hsub hnb =>
    refine ⟨SameSeats.seats (g := g) (sameSeats_of hgp (fun _ _ _ h => h.same.kept)
      rfl rfl rfl rfl rfl fun h => h) hseats, ?_, hgp.mem.mpr hbank,
      hhands.updated hgp fun _ _ _ h => h.same.hand⟩
    show 2 ≤ gp.size
    rwa [hgp.size]

/-- An accepted choice is an arrangement of the player's own hand. -/
private theorem chosen_inv {env : Env} {g t : Game} {uid : Uid} {ty : ℤ} {cards : List Card}
    (hseats : Seats g) (hsize : 2 ≤ g.gameplayer.size) (hbank : g.banker ∈ g.gameplayer)
    (hhands : Hands g.gameplayer) (ht : Chosen env g uid ty cards t) :
    Seats t ∧ 2 ≤ t.gameplayer.size ∧ t.banker ∈ t.gameplayer ∧ Hands t.gameplayer := by
  cases ht with
  | reject o ho =>
    refine ⟨SameSeats.seats (g := g) (sameSeats_records rfl) hseats, hsize, hbank, hhands⟩
  | accept v r o hv hcheck ho =>
    obtain ⟨hperm, htype⟩ := checkChoice_ok hcheck (hhands uid v hv).size
    have hgp : Table.Updated (fun k (x y : GamePlayer) => Kept x y ∧ (Hand x → Hand y))
        g.gameplayer (g.gameplayer.modify uid fun v =>
          { v with pokertype := ty, choicecards := cards, havechoice := true }) := by
      refine Table.updated_modify (fun _ _ => ⟨⟨rfl, fun h => h⟩, fun h => h⟩) fun x hx => ?_
      rw [hv] at hx
      cases hx
      refine ⟨⟨rfl, fun h => h⟩, fun hand => ⟨hand.size, hperm, ?_⟩⟩
      rcases htype with rfl | rfl
      · exact hand.typed
      · exact .inl rfl
    have hst : Table.Updated (fun _ (x y : Seater) => y.uid = x.uid) g.seater
        (g.seater.modify uid fun s => { s with timeouttimes := 0 }) :=
      Table.updated_modify (fun _ _ => rfl) fun _ _ => rfl
    refine ⟨SameSeats.seats (g := g) ⟨hgp.mono fun _ _ _ h => h.1, hst, rfl, rfl, rfl, rfl,
      fun h => by simp [h]⟩ hseats, ?_, hgp.mem.mpr hbank,
      hhands.updated hgp fun _ _ _ h => h.2⟩
    show 2 ≤ (g.gameplayer.modify uid _).size
    rwa [Table.size_modify]

/-- A report changes results only. -/
theorem reported_inv {g t : Game} {m : Mtype} (hseats : Seats g)
    (hsize : 2 ≤ g.gameplayer.size) (hbank : g.banker ∈ g.gameplayer)
    (hhands : Hands g.gameplayer) (ht : Reported g m t) :
    Seats t ∧ 2 ≤ t.gameplayer.size ∧ t.banker ∈ t.gameplayer ∧ Hands t.gameplayer := by
  cases ht with
  | loser uid money v lose hv hw ha hl =>
    have hgp := updated_collect g uid (loserWin (v.totaladd * g.gameconf.basebet) money)
    refine ⟨SameSeats.seats (g := g) (sameSeats_of hgp (fun _ _ _ h => h.kept)
      rfl rfl rfl rfl rfl fun h => h) hseats, ?_, hgp.mem.mpr hbank,
      hhands.updated hgp fun _ _ _ h => h.hand⟩
    show 2 ≤ (g.collect uid _).size
    rwa [hgp.size]
  | dropped uid money hno => exact ⟨hseats, hsize, hbank, hhands⟩
  | banker uid money =>
    exact ⟨SameSeats.seats (g := g) (sameSeats_records rfl) hseats, hsize, hbank, hhands⟩

/-- The settlement changes results only. -/
private theorem settled_inv {g t : Game} (hseats : Seats g) (hsize : 2 ≤ g.gameplayer.size)
    (hbank : g.banker ∈ g.gameplayer) (hhands : Hands g.gameplayer) (ht : Settled g t) :
    Seats t ∧ 2 ≤ t.gameplayer.size ∧ t.banker ∈ t.gameplayer ∧ Hands t.gameplayer := by
  cases ht with
  | mk b gp lr o r p hb hgp ho hcred =>
    refine ⟨SameSeats.seats (g := g) (sameSeats_of hgp (fun _ _ _ h => h.onlyWin.kept)
      rfl rfl rfl rfl rfl fun h => by simp [h]) hseats, ?_, hgp.mem.mpr hbank,
      hhands.updated hgp fun _ _ _ h => h.onlyWin.hand⟩
    show 2 ≤ gp.size
    rwa [hgp.size]

/-- A table that waits for the results, or shows them. -/
private theorem hands_inv {t : Game} (hseats : Seats t) (hsize : 2 ≤ t.gameplayer.size)
    (hbank : t.banker ∈ t.gameplayer) (hhands : Hands t.gameplayer)
    (hs : t.curstate = .choicePokerType ∨ t.curstate = .waitShowResult)
    (htimer : t.timers.live .dealPoker = 0) : Inv t := by
  refine ⟨hseats, ?_, by omega⟩
  unfold RoundInv
  rcases hs with hs | hs
  · rw [hs]
    exact ⟨hsize, hbank, hhands⟩
  · rw [hs]
    exact ⟨hsize, hbank, hhands⟩

/-- A fresh round has a record for every seat. -/
private theorem fresh_seats {g : Game} (h : Seats g) (log : TableLog) (o : List Out) : Seats { g with
    gameplayer := g.seater.mapVal fun _ v => GamePlayer.new v.uid
    tablelog := log
    outbox := g.outbox ++ o } := by
  refine ⟨seated_fresh h.seated log o, h.sitnum, fun k v hv => ?_, h.force, h.carried⟩
  rw [Table.get?_mapVal, Option.map_eq_some_iff] at hv
  obtain ⟨s, -, rfl⟩ := hv
  exact le_refl 0

private theorem fresh_noChoice (g : Game) (log : TableLog) (o : List Out) : NoChoice { g with
    gameplayer := g.seater.mapVal fun _ v => GamePlayer.new v.uid
    tablelog := log
    outbox := g.outbox ++ o } := by
  intro k v hv
  rw [Table.get?_mapVal, Option.map_eq_some_iff] at hv
  obtain ⟨s, -, rfl⟩ := hv
  rfl

/-- A closed round leaves a banker only where nothing asked for another. -/
private theorem closed_inv {env : Env} {g t : Game} (h : Seats g) (ht : Closed env g t) :
    Inv t := by
  cases ht with
  | mk n r p conf o again hn ho hagain =>
    refine ⟨⟨⟨h.seated.1, h.seated.2, fun k v hv => ?_, h.seated.4,
      fun k hk => absurd hk (Table.not_mem_empty k)⟩, h.sitnum, fun k v hv => ?_, rfl,
      fun hneed => ?_⟩, ?_, ?_⟩
    · simp at hv
    · simp at hv
    · have hfalse : n = false := hneed
      subst hfalse
      refine h.carried ?_
      cases hg : g.needgrabbanker with
      | false => rfl
      | true => exact absurd (hn hg) Bool.false_ne_true
    · cases again with
      | false => trivial
      | true => trivial
    · cases again with
      | false =>
        show g.timers.removeAll.live .dealPoker ≤ 0
        rw [Timers.live_removeAll]
      | true =>
        show (g.timers.removeAll.start .waitStart _).live .dealPoker ≤ 0
        rw [live_start_ne _ (by decide), Timers.live_removeAll]

/-- Every move keeps the invariant. -/
theorem Move.inv {env : Env} {g t : Game} {m : Mtype} (h : Ready g m) (hmove : Move env g m t) :
    Inv t := by
  have hinv := h.inv
  have hseats := hinv.seats
  cases hmove with
  -- by the move: what its guard says of the state gives the part of `Inv` that is needed
  | ignore _ hi => exact hinv
  | arm uid hs hsit hclose =>
    refine inv_of_same hseats (sameSeats_records rfl) trivial ?_
    show (g.timers.start .waitStart _).live .dealPoker ≤ 0
    rw [live_start_ne _ (by decide), hinv.noDeal (by rw [hs]; decide)]
  | disarm _ hs hsit =>
    refine inv_of_same hseats (sameSeats_records rfl) trivial ?_
    show (g.timers.remove .waitStart).live .dealPoker ≤ 0
    rw [Timers.live_remove, if_neg (by decide), hinv.noDeal (by rw [hs]; decide)]
  | startRound log o t hs ho hopen =>
    exact opening_inv hopen (fresh_seats hseats log o) (fresh_noChoice g log o)
      (fun hsit => by
        have hcount := hseats.sitnum
        show 2 ≤ (g.seater.mapVal _).size
        rw [Table.size_mapVal]
        show 2 ≤ g.seater.size
        have : (2 : ℤ) ≤ g.sitnum := hsit
        omega)
      (fun hneed => Table.mem_mapVal.mpr (hseats.carried hneed))
      (hinv.noDeal (by rw [hs]; decide))
  | grab uid x gp o hs ho hgp =>
    obtain ⟨hsize, hch⟩ := hinv.grab hs
    refine inv_of_same hseats (sameSeats_of hgp (fun _ _ _ h => h.kept)
      rfl rfl rfl rfl rfl fun h => h) ?_ hinv.dealTimer
    unfold RoundInv
    rw [show ({ g with gameplayer := gp, outbox := g.outbox ++ o } : Game).curstate
      = .grabTheBanker from hs]
    exact ⟨hgp.size ▸ hsize, hch.updated hgp fun _ v w h => by rw [h.1]⟩
  | chooseBanker _ uid source money gp o t hs huid ho hgp hopen =>
    obtain ⟨hsize, hch⟩ := hinv.grab hs
    have hmem : uid ∈ gp := hgp.mem.mpr huid
    have hch' : NoChoice { g with gameplayer := gp } :=
      hch.updated hgp fun _ v w h => by rw [h.1]
    refine opening_inv hopen ?_ hch' (fun _ => hgp.size ▸ hsize) (fun _ => hmem)
      (hinv.noDeal (by rw [hs]; decide))
    have hsame : SameSeats g { g with gameplayer := gp } :=
      sameSeats_of hgp (fun _ _ _ h => h.kept) rfl rfl rfl rfl rfl fun h => h
    have hnew := hsame.seats hseats
    exact ⟨⟨hnew.seated.1, hnew.seated.2, hnew.seated.3, hnew.seated.4, hnew.seated.5⟩,
      hnew.sitnum, hnew.money, hnew.force, fun _ => hnew.seated.gameplayer_seater uid hmem⟩
  | bet uid betmoney gp o hs hall ho hgp =>
    obtain ⟨hsize, hbank, hch⟩ := hinv.bet hs
    refine inv_of_same hseats (sameSeats_of hgp (fun _ _ _ h => h.kept)
      rfl rfl rfl rfl rfl fun h => h) ?_ hinv.dealTimer
    unfold RoundInv
    rw [show ({ g with gameplayer := gp, outbox := g.outbox ++ o } : Game).curstate
      = .waitBet from hs]
    exact ⟨hgp.size ▸ hsize, hgp.mem.mpr hbank, hch.updated hgp fun _ v w h => by rw [h.1]⟩
  | notify o hs ho =>
    obtain ⟨hsize, hbank, hch⟩ := hinv.bet hs
    refine inv_of_same hseats (sameSeats_records rfl) ⟨hsize, hbank, hch⟩ ?_
    show (g.timers.start .bet _).live .dealPoker ≤ 0
    rw [live_start_ne _ (by decide), hinv.noDeal (by rw [hs]; decide)]
  | deal _ bets gp poker pos o hs hm ho hbets hbid hgp =>
    obtain ⟨hsize, hbank, -⟩ := hinv.bet hs
    -- the bets that were filled in, and then the hands
    have hboth : Table.Updated (fun _ v w => Kept v w ∧ Hand w) g.gameplayer gp :=
      hbets.trans hgp fun _ _ _ _ h h' =>
        ⟨⟨h'.1.kept.uid.trans h.kept.uid, h'.1.kept.money ∘ h.kept.money⟩, h'.hand⟩
    refine inv_of_same hseats (sameSeats_of hboth (fun _ _ _ h => h.1)
      rfl rfl rfl rfl rfl fun h => h) ⟨hboth.size ▸ hsize, hboth.mem.mpr hbank, fun _ => ?_⟩ ?_
    · intro k w hw
      obtain ⟨v, -, hvw⟩ := hboth.get?_of_new hw
      exact hvw.2
    · show (g.timers.start .dealPoker _).live .dealPoker ≤ 1
      rw [Timers.live_start, if_pos rfl, hinv.noDeal (by rw [hs]; decide)]
  | deckOut _ bets gp poker pos o hs hm ho hbets hbid hgp =>
    obtain ⟨hsize, hbank, -⟩ := hinv.bet hs
    have hboth : Table.Updated (fun _ => Kept) g.gameplayer gp :=
      hbets.trans hgp fun _ _ _ _ h h' =>
        ⟨h'.kept.uid.trans h.kept.uid, h'.kept.money ∘ h.kept.money⟩
    have hlive := hinv.noDeal (by rw [hs]; decide)
    refine inv_of_same hseats (sameSeats_of hboth (fun _ _ _ h => h)
      rfl rfl rfl rfl rfl fun h => h)
      ⟨hboth.size ▸ hsize, hboth.mem.mpr hbank, fun hpos => ?_⟩ ?_
    -- too few cards: the timer of the deal is not started
    · exact absurd hlive (Nat.pos_iff_ne_zero.mp hpos)
    · show g.timers.live .dealPoker ≤ 1
      omega
  | choose o hs ho =>
    obtain ⟨hsize, hbank, -⟩ := hinv.deal hs
    obtain ⟨hhands, hlive⟩ := h.dealt rfl hs
    refine inv_of_same hseats (sameSeats_records rfl) ⟨hsize, hbank, hhands⟩ ?_
    show (g.timers.start .choicePoker _).live .dealPoker ≤ 0
    rw [live_start_ne _ (by decide), hlive]
  | choice uid ty cards g₁ hs hch hall =>
    obtain ⟨hsize, hbank, hhands⟩ := hinv.hand (.inl hs)
    obtain ⟨hseats₁, hsize₁, hbank₁, hhands₁⟩ := chosen_inv hseats hsize hbank hhands hch
    obtain ⟨hcur, htimers, -⟩ := hch.same
    refine hands_inv hseats₁ hsize₁ hbank₁ hhands₁ (.inl (hcur.trans hs)) ?_
    rw [htimers, hinv.noDeal (by rw [hs]; decide)]
  | compare uid ty cards g₁ g₂ hs hch hall hcmp =>
    obtain ⟨hsize, hbank, hhands⟩ := hinv.hand (.inl hs)
    obtain ⟨hseats₁, hsize₁, hbank₁, hhands₁⟩ := chosen_inv hseats hsize hbank hhands hch
    obtain ⟨hseats₂, hsize₂, hbank₂, hhands₂⟩ :=
      compared_inv hseats₁ hsize₁ hbank₁ hhands₁ hcmp
    refine inv_of_same hseats₂ (sameSeats_records rfl) ⟨hsize₂, hbank₂, hhands₂⟩ ?_
    show ((g₂.timers.start .waitShowResult _).remove .choicePoker).live .dealPoker ≤ 0
    rw [Timers.live_remove, if_neg (by decide), live_start_ne _ (by decide), hcmp.same.2.1,
      hch.same.2.1, hinv.noDeal (by rw [hs]; decide)]
  | timeUp gp st n r o t hs ho hn hgp hst hcmp =>
    obtain ⟨hsize, hbank, hhands⟩ := hinv.hand (.inl hs)
    have hkept : Table.Updated (fun _ => Kept) g.gameplayer gp :=
      hgp.mono fun _ v w h => by rw [h]; exact ⟨rfl, fun h => h⟩
    have hhands' : Hands gp := hhands.updated hgp fun _ v w h hv => by
      rw [h]
      exact ⟨hv.size, hv.same, hv.typed⟩
    have hsame : SameSeats g { g with
        gameplayer := gp, seater := st, needgrabbanker := n, grabresontype := r
        outbox := g.outbox ++ o } := ⟨hkept, hst, rfl, rfl, rfl, rfl, hn⟩
    obtain ⟨hseats₂, hsize₂, hbank₂, hhands₂⟩ := compared_inv (hsame.seats hseats)
      (hgp.size ▸ hsize) (hgp.mem.mpr hbank) hhands' hcmp
    refine inv_of_same hseats₂ (sameSeats_records rfl) ⟨hsize₂, hbank₂, hhands₂⟩ ?_
    show (t.timers.start .waitShowResult _).live .dealPoker ≤ 0
    rw [live_start_ne _ (by decide), hcmp.same.2.1]
    exact (hinv.noDeal (by rw [hs]; decide)).le
  | report _ g₁ hs hrep hcan =>
    obtain ⟨hsize, hbank, hhands⟩ := hinv.hand (.inr hs)
    obtain ⟨hseats₁, hsize₁, hbank₁, hhands₁⟩ := reported_inv hseats hsize hbank hhands hrep
    obtain ⟨hcur, htimers, -⟩ := hrep.same
    refine hands_inv hseats₁ hsize₁ hbank₁ hhands₁ (.inr (hcur.trans hs)) ?_
    rw [htimers, hinv.noDeal (by rw [hs]; decide)]
  | settle _ g₁ t hs hrep hcan hset =>
    obtain ⟨hsize, hbank, hhands⟩ := hinv.hand (.inr hs)
    obtain ⟨hseats₁, hsize₁, hbank₁, hhands₁⟩ := reported_inv hseats hsize hbank hhands hrep
    obtain ⟨hseats₂, hsize₂, hbank₂, hhands₂⟩ :=
      settled_inv hseats₁ hsize₁ hbank₁ hhands₁ hset
    obtain ⟨hcur, htimers, -⟩ := hset.same
    refine hands_inv hseats₂ hsize₂ hbank₂ hhands₂
      (.inr (hcur.trans (hrep.same.1.trans hs))) ?_
    rw [htimers, hrep.same.2.1, hinv.noDeal (by rw [hs]; decide)]
  | reveal o hs ho =>
    obtain ⟨-, -, hhands⟩ := hinv.hand (.inr hs)
    refine inv_of_same hseats (sameSeats_records rfl) hhands ?_
    show (g.timers.start .showResult _).live .dealPoker ≤ 0
    rw [live_start_ne _ (by decide), hinv.noDeal (by rw [hs]; decide)]
  | close t hs hclosed => exact closed_inv hseats hclosed

/-! ## What happens before a move -/

/-- The state, the records and the timers decide the round's part of the invariant. -/
private theorem roundInv_congr {g t : Game} (hcur : t.curstate = g.curstate)
    (hgp : t.gameplayer = g.gameplayer) (hbanker : t.banker = g.banker)
    (htimers : t.timers.live .dealPoker ≤ g.timers.live .dealPoker) (h : RoundInv g) :
    RoundInv t := by
  unfold RoundInv NoChoice at *
  rw [hcur, hgp, hbanker]
  cases hs : g.curstate with
  | dealPoker =>
    rw [hs] at h
    exact ⟨h.1, h.2.1, fun hpos => h.2.2 (by omega)⟩
  | _ =>
    rw [hs] at h
    exact h

theorem begin_inv {g : Game} (h : Inv g) : Inv g.begin :=
  ⟨⟨⟨h.seats.seated.1, h.seats.seated.2, h.seats.seated.3, h.seats.seated.4, h.seats.seated.5⟩,
    h.seats.sitnum, h.seats.money, h.seats.force, h.seats.carried⟩,
    roundInv_congr rfl rfl rfl le_rfl h.round, h.dealTimer⟩

/-- Entering, also again, changes `players` and nothing else. -/
private theorem enterTable_inv {g : Game} (h : Inv g) (env : Env) (uid : Uid) (address : Address) :
    Inv (g.enterTable env uid address) := by
  set players : Table Uid Player :=
    if uid ∈ g.players then g.players.modify uid fun p => { p with address := address }
    else g.players.set uid ⟨uid, address⟩ with hplayers
  have hget : ∀ k p, players.get? k = some p → p.uid = k := by
    intro k p hp
    by_cases hmem : uid ∈ g.players
    · rw [hplayers, if_pos hmem, Table.get?_modify] at hp
      by_cases hk : k = uid
      · rw [if_pos hk, Option.map_eq_some_iff] at hp
        obtain ⟨x, hx, rfl⟩ := hp
        exact h.seats.seated.players_uid k x hx
      · rw [if_neg hk] at hp
        exact h.seats.seated.players_uid k p hp
    · rw [hplayers, if_neg hmem, Table.get?_set] at hp
      by_cases hk : k = uid
      · rw [if_pos hk] at hp
        cases hp
        exact hk.symm
      · rw [if_neg hk] at hp
        exact h.seats.seated.players_uid k p hp
  have hmem : ∀ k, k ∈ g.players → k ∈ players := by
    intro k hk
    by_cases hmem : uid ∈ g.players
    · rw [hplayers, if_pos hmem]
      exact Table.mem_modify.mpr hk
    · rw [hplayers, if_neg hmem]
      exact Table.mem_set.mpr (.inr hk)
  have hseated := h.seats.seated
  obtain ⟨msg, hmsg⟩ : ∃ msg, g.enterTable env uid address
      = ({ g with players := players } : Game).sendTo uid msg := ⟨_, rfl⟩
  obtain ⟨o, -, hsend⟩ := sendTo_spec { g with players := players } uid msg
  rw [hmsg, hsend]
  exact ⟨⟨⟨hget, hseated.2, hseated.3, fun k hk => hmem k (hseated.4 k hk), hseated.5⟩,
    h.seats.sitnum, h.seats.money, h.seats.force, h.seats.carried⟩,
    roundInv_congr rfl rfl rfl le_rfl h.round, h.dealTimer⟩

private theorem sit_inv {g : Game} (h : Inv g) {uid : Uid} (hin : uid ∈ g.players) :
    Inv (g.sit uid) := by
  have hseated := h.seats.seated
  refine ⟨⟨⟨hseated.1, fun k s hs => ?_, hseated.3, fun k hk => ?_, fun k hk => ?_⟩, ?_,
    h.seats.money, h.seats.force, fun hneed => ?_⟩, roundInv_congr rfl rfl rfl le_rfl h.round,
    h.dealTimer⟩
  · rw [show (g.sit uid).seater = g.seater.set uid ⟨uid, 0⟩ from rfl, Table.get?_set] at hs
    by_cases hk : k = uid
    · rw [if_pos hk] at hs
      cases hs
      exact hk.symm
    · rw [if_neg hk] at hs
      exact hseated.2 k s hs
  · rcases Table.mem_set.mp hk with rfl | hk
    · exact hin
    · exact hseated.4 k hk
  · exact Table.mem_set.mpr (.inr (hseated.5 k hk))
  · show (if uid ∈ g.seater then g.sitnum else g.sitnum + 1) = ((g.seater.set uid ⟨uid, 0⟩).size : ℤ)
    rw [Table.size_set]
    have hcount := h.seats.sitnum
    by_cases hmem : uid ∈ g.seater
    · rw [if_pos hmem, if_pos hmem, hcount]
    · rw [if_neg hmem, if_neg hmem, hcount]
      push_cast
      rfl
  · exact Table.mem_set.mpr (.inr (h.seats.carried hneed))

/-- Leaving a seat: the bank is given up by the banker, and by a table with one
player left. -/
theorem leaveSeat_spec (g : Game) (uid : Uid) : ∃ n r b p,
    g.leaveSeat uid = { g with
      seater := g.seater.erase uid
      sitnum := if uid ∈ g.seater then g.sitnum - 1 else g.sitnum
      needgrabbanker := n
      grabresontype := r
      banker := b
      playcount := p } ∧
    ((n = g.needgrabbanker ∧ b = g.banker ∧ (uid ∈ g.seater → uid ≠ g.banker)) ∨
      (n = true ∧ uid ∈ g.seater ∧ (uid = g.banker ∨ g.sitnum - 1 < 2))) := by
  unfold leaveSeat
  by_cases hmem : uid ∈ g.seater
  · rw [if_pos hmem, if_pos hmem]
    by_cases hbank : uid = g.banker ∨ g.sitnum - 1 < 2
    · exact ⟨true, _, 0, 0, if_pos hbank, .inr ⟨rfl, hmem, hbank⟩⟩
    · exact ⟨g.needgrabbanker, g.grabresontype, g.banker, g.playcount, if_neg hbank,
        .inl ⟨rfl, rfl, fun _ he => hbank (.inl he)⟩⟩
  · rw [if_neg hmem, if_neg hmem, Table.erase_of_not_mem hmem]
    exact ⟨g.needgrabbanker, g.grabresontype, g.banker, g.playcount, rfl,
      .inl ⟨rfl, rfl, fun h => absurd h hmem⟩⟩

/-- A started round keeps its banker when somebody outside the round leaves. -/
private theorem leaveSeat_banker {g : Game} (h : Inv g) {uid : Uid} (hout : uid ∉ g.gameplayer)
    (hsize : 2 ≤ g.gameplayer.size) (hbank : g.banker ∈ g.gameplayer) :
    (g.leaveSeat uid).banker = g.banker := by
  obtain ⟨n, r, b, p, hleave, ⟨-, hb, -⟩ | ⟨-, hmem, hcause⟩⟩ := leaveSeat_spec g uid
  · rw [hleave]
    exact hb
  · exfalso
    rcases hcause with rfl | hfew
    · exact hout hbank
    · have hsub : g.gameplayer.size ≤ (g.seater.erase uid).size :=
        Table.size_le_of_subset fun k hk =>
          Table.mem_erase.mpr ⟨fun he => hout (he ▸ hk), h.seats.seated.gameplayer_seater k hk⟩
      have herase := Table.size_erase_of_mem hmem
      have hcount := h.seats.sitnum
      omega

private theorem leave_inv {g : Game} (h : Inv g) {uid : Uid}
    (hfree : ¬ (uid ∈ g.gameplayer ∧ g.isGameStart = true)) {players : Table Uid Player}
    (hplayers : players = g.players ∨ players = g.players.erase uid) (o : List Out) :
    Inv { g.leaveSeat uid with
      players := players
      gameplayer := g.gameplayer.erase uid
      outbox := g.outbox ++ o } := by
  have hseated := h.seats.seated
  have hsub : ∀ k v, (g.gameplayer.erase uid).get? k = some v → g.gameplayer.get? k = some v := by
    intro k v hv
    rw [Table.get?_erase] at hv
    by_cases hk : k = uid
    · rw [if_pos hk] at hv
      cases hv
    · rwa [if_neg hk] at hv
  -- who is in a started round does not leave it
  have herase : g.isGameStart = true → g.gameplayer.erase uid = g.gameplayer := fun hstart =>
    Table.erase_of_not_mem fun hmem => hfree ⟨hmem, hstart⟩
  obtain ⟨n, r, b, p, hleave, hbank⟩ := leaveSeat_spec g uid
  have hbanker : g.isGameStart = true → 2 ≤ g.gameplayer.size → g.banker ∈ g.gameplayer →
      b = g.banker := by
    intro hstart hsize hmem
    have hsame := leaveSeat_banker h (fun hin => hfree ⟨hin, hstart⟩) hsize hmem
    rwa [hleave] at hsame
  rw [hleave]
  refine ⟨⟨⟨fun k x hx => ?_, fun k s hs => ?_, fun k v hv => hseated.3 k v (hsub k v hv),
    fun k hk => ?_, fun k hk => ?_⟩, ?_, fun k v hv => h.seats.money k v (hsub k v hv),
    h.seats.force, fun hneed => ?_⟩, ?_, h.dealTimer⟩
  · refine hseated.1 k x ?_
    rcases hplayers with rfl | rfl
    · exact hx
    · rw [Table.get?_erase] at hx
      by_cases hk : k = uid
      · rw [if_pos hk] at hx
        cases hx
      · rwa [if_neg hk] at hx
  · rw [Table.get?_erase] at hs
    by_cases hk : k = uid
    · rw [if_pos hk] at hs
      cases hs
    · rw [if_neg hk] at hs
      exact hseated.2 k s hs
  · obtain ⟨hne, hin⟩ := Table.mem_erase.mp hk
    rcases hplayers with rfl | rfl
    · exact hseated.4 k hin
    · exact Table.mem_erase.mpr ⟨hne, hseated.4 k hin⟩
  · obtain ⟨hne, hin⟩ := Table.mem_erase.mp hk
    exact Table.mem_erase.mpr ⟨hne, hseated.5 k hin⟩
  · show (if uid ∈ g.seater then g.sitnum - 1 else g.sitnum) = ((g.seater.erase uid).size : ℤ)
    have hcount := h.seats.sitnum
    by_cases hmem : uid ∈ g.seater
    · have hsize := Table.size_erase_of_mem hmem
      rw [if_pos hmem]
      omega
    · rw [if_neg hmem, Table.erase_of_not_mem hmem, hcount]
  -- a banker that leaves is not carried into the next round
  · rcases hbank with ⟨rfl, rfl, hne⟩ | ⟨rfl, -, -⟩
    · have hin := h.seats.carried hneed
      exact Table.mem_erase.mpr ⟨fun he => hne (he ▸ hin) he.symm, hin⟩
    · exact absurd hneed (by simp)
  · unfold RoundInv
    show match g.curstate with
      | .waitPlayer | .waitStartGame => True
      | .grabTheBanker => 2 ≤ (g.gameplayer.erase uid).size ∧ NoChoice _
      | .waitBet => 2 ≤ (g.gameplayer.erase uid).size ∧ b ∈ g.gameplayer.erase uid ∧ NoChoice _
      | .dealPoker => 2 ≤ (g.gameplayer.erase uid).size ∧ b ∈ g.gameplayer.erase uid ∧
          (0 < g.timers.live .dealPoker → Hands (g.gameplayer.erase uid))
      | .choicePokerType | .waitShowResult => 2 ≤ (g.gameplayer.erase uid).size ∧
          b ∈ g.gameplayer.erase uid ∧ Hands (g.gameplayer.erase uid)
      | .showResult => Hands (g.gameplayer.erase uid)
    have hch : NoChoice g → ∀ k v, (g.gameplayer.erase uid).get? k = some v →
        v.choicecards = [] := fun hno k v hv => hno k v (hsub k v hv)
    cases hs : g.curstate with
    | waitPlayer => trivial
    | waitStartGame => trivial
    | grabTheBanker =>
      obtain ⟨hsize, hno⟩ := h.grab hs
      exact ⟨by rwa [herase (by simp [isGameStart, hs])], hch hno⟩
    | waitBet =>
      obtain ⟨hsize, hin, hno⟩ := h.bet hs
      rw [herase (by simp [isGameStart, hs]), hbanker (by simp [isGameStart, hs]) hsize hin]
      exact ⟨hsize, hin, fun k v hv => hno k v hv⟩
    | dealPoker =>
      obtain ⟨hsize, hin, hhands⟩ := h.deal hs
      rw [herase (by simp [isGameStart, hs]), hbanker (by simp [isGameStart, hs]) hsize hin]
      exact ⟨hsize, hin, hhands⟩
    | choicePokerType =>
      obtain ⟨hsize, hin, hhands⟩ := h.hand (.inl hs)
      rw [herase (by simp [isGameStart, hs]), hbanker (by simp [isGameStart, hs]) hsize hin]
      exact ⟨hsize, hin, hhands⟩
    | waitShowResult =>
      obtain ⟨hsize, hin, hhands⟩ := h.hand (.inr hs)
      rw [herase (by simp [isGameStart, hs]), hbanker (by simp [isGameStart, hs]) hsize hin]
      exact ⟨hsize, hin, hhands⟩
    | showResult => exact fun k v hv => h.shown hs k v (hsub k v hv)

private theorem emit_inv {g : Game} (h : Inv g) (o : List Out) : Inv (g.emit o) :=
  ⟨⟨⟨h.seats.seated.1, h.seats.seated.2, h.seats.seated.3, h.seats.seated.4, h.seats.seated.5⟩,
    h.seats.sitnum, h.seats.money, h.seats.force, h.seats.carried⟩,
    roundInv_congr rfl rfl rfl le_rfl h.round, h.dealTimer⟩

/-- What a message changes before its state's handler is called: never the state
of the round, and in a started round neither its records nor its banker. -/
structure Pretreated (g t : Game) : Prop where
  curstate : t.curstate = g.curstate
  timers : t.timers = g.timers
  calls : t.calls = g.calls
  gameconf : t.gameconf = g.gameconf
  bankermoney : t.bankermoney = g.bankermoney
  havegetresult : t.havegetresult = g.havegetresult
  topupling : t.topupling = g.topupling
  records : ∀ k v, t.gameplayer.get? k = some v → g.gameplayer.get? k = some v
  started : g.isGameStart = true → t.gameplayer = g.gameplayer
  banker : g.isGameStart = true → g.curstate ≠ .grabTheBanker → t.banker = g.banker

private theorem pretreated_refl {g t : Game} (h : t = { g with
    seater := t.seater, players := t.players, sitnum := t.sitnum, outbox := t.outbox }) :
    Pretreated g t := by
  rw [h]
  exact ⟨rfl, rfl, rfl, rfl, rfl, rfl, rfl, fun _ _ hv => hv, fun _ => rfl, fun _ _ => rfl⟩

theorem Inv.banked {g : Game} (h : Inv g) (hstart : g.isGameStart = true)
    (hgrab : g.curstate ≠ .grabTheBanker) :
    2 ≤ g.gameplayer.size ∧ g.banker ∈ g.gameplayer := by
  have hround := h.round
  unfold RoundInv at hround
  cases hs : g.curstate with
  | waitPlayer => simp [isGameStart, hs] at hstart
  | waitStartGame => simp [isGameStart, hs] at hstart
  | grabTheBanker => exact absurd hs hgrab
  | waitBet => exact ⟨(h.bet hs).1, (h.bet hs).2.1⟩
  | dealPoker => exact ⟨(h.deal hs).1, (h.deal hs).2.1⟩
  | choicePokerType => exact ⟨(h.hand (.inl hs)).1, (h.hand (.inl hs)).2.1⟩
  | waitShowResult => exact ⟨(h.hand (.inr hs)).1, (h.hand (.inr hs)).2.1⟩
  | showResult => simp [isGameStart, hs] at hstart

private theorem left_pretreated {g : Game} (h : Inv g) {uid : Uid}
    (hfree : ¬ (uid ∈ g.gameplayer ∧ g.isGameStart = true)) (players : Table Uid Player)
    (o : List Out) : Pretreated g { g.leaveSeat uid with
      players := players
      gameplayer := g.gameplayer.erase uid
      outbox := g.outbox ++ o } := by
  obtain ⟨n, r, b, p, hleave, -⟩ := leaveSeat_spec g uid
  have hbanker : g.isGameStart = true → g.curstate ≠ .grabTheBanker → b = g.banker := by
    intro hstart hgrab
    obtain ⟨hsize, hin⟩ := h.banked hstart hgrab
    have hsame := leaveSeat_banker h (fun hmem => hfree ⟨hmem, hstart⟩) hsize hin
    rwa [hleave] at hsame
  rw [hleave]
  refine ⟨rfl, rfl, rfl, rfl, rfl, rfl, rfl, fun k v hv => ?_, fun hstart => ?_, hbanker⟩
  · rw [Table.get?_erase] at hv
    by_cases hk : k = uid
    · rw [if_pos hk] at hv
      cases hv
    · rwa [if_neg hk] at hv
  · exact Table.erase_of_not_mem fun hmem => hfree ⟨hmem, hstart⟩

/-- A stand or quit that the round does not forbid. -/
theorem pretreat_leave {g : Game} (env : Env) {uid : Uid} (address : Address)
    (hfree : ¬ (uid ∈ g.gameplayer ∧ g.isGameStart = true)) :
    g.pretreat env uid address .tryStand = { g.leaveSeat uid with
        players := g.players
        gameplayer := g.gameplayer.erase uid
        outbox := g.outbox ++ [.ret (.code 0)] } ∧
      g.pretreat env uid address .tryQuit = { g.leaveSeat uid with
        players := g.players.erase uid
        gameplayer := g.gameplayer.erase uid
        outbox := g.outbox ++ [.ret (.code 0)] } := by
  obtain ⟨n, r, b, p, hleave, -⟩ := leaveSeat_spec g uid
  rw [hleave]
  constructor
  · simp only [pretreat, playerTryStand, if_neg hfree, hleave]
    rfl
  · simp only [pretreat, playerTryQuit, if_neg hfree, hleave]
    rfl

/-- A stand or quit that the round forbids is answered and changes nothing. -/
theorem pretreat_busy {g : Game} (env : Env) {uid : Uid} (address : Address)
    (hbusy : uid ∈ g.gameplayer ∧ g.isGameStart = true) :
    g.pretreat env uid address .tryStand = g.emit [.ret (.code errorcode.GAME_HAVE_STARTED)] ∧
      g.pretreat env uid address .tryQuit = g.emit [.ret (.code errorcode.GAME_HAVE_STARTED)] := by
  constructor
  · simp only [pretreat, playerTryStand, if_pos hbusy]
  · simp only [pretreat, playerTryQuit, if_pos hbusy]

/-- What a message does to the table before its state's handler is called. -/
theorem pretreat_inv {g : Game} (h : Inv g) (env : Env) (uid : Uid) (address : Address) (m : Msg)
    (hsit : m = .someOneSit → uid ∈ g.players) : Inv (g.pretreat env uid address m) := by
  have hleave : ∀ hfree : ¬ (uid ∈ g.gameplayer ∧ g.isGameStart = true),
      Inv (g.pretreat env uid address .tryStand) ∧ Inv (g.pretreat env uid address .tryQuit) := by
    intro hfree
    rw [(pretreat_leave env address hfree).1, (pretreat_leave env address hfree).2]
    exact ⟨leave_inv h hfree (.inl rfl) _, leave_inv h hfree (.inr rfl) _⟩
  have hstay : ∀ hbusy : uid ∈ g.gameplayer ∧ g.isGameStart = true,
      Inv (g.pretreat env uid address .tryStand) ∧ Inv (g.pretreat env uid address .tryQuit) := by
    intro hbusy
    rw [(pretreat_busy env address hbusy).1, (pretreat_busy env address hbusy).2]
    exact ⟨emit_inv h _, emit_inv h _⟩
  cases m with
  | someOneEnter => exact enterTable_inv h env uid address
  | someOneSit => exact sit_inv h (hsit rfl)
  | tryStand => exact (em _).elim (fun hb => (hstay hb).1) fun hf => (hleave hf).1
  | tryQuit => exact (em _).elim (fun hb => (hstay hb).2) fun hf => (hleave hf).2
  | _ => exact h

theorem pretreat_pretreated {g : Game} (h : Inv g) (env : Env) (uid : Uid) (address : Address)
    (m : Msg) : Pretreated g (g.pretreat env uid address m) := by
  have hleave : ∀ hfree : ¬ (uid ∈ g.gameplayer ∧ g.isGameStart = true),
      Pretreated g (g.pretreat env uid address .tryStand) ∧
        Pretreated g (g.pretreat env uid address .tryQuit) := by
    intro hfree
    rw [(pretreat_leave env address hfree).1, (pretreat_leave env address hfree).2]
    exact ⟨left_pretreated h hfree _ _, left_pretreated h hfree _ _⟩
  have hstay : ∀ hbusy : uid ∈ g.gameplayer ∧ g.isGameStart = true,
      Pretreated g (g.pretreat env uid address .tryStand) ∧
        Pretreated g (g.pretreat env uid address .tryQuit) := by
    intro hbusy
    rw [(pretreat_busy env address hbusy).1, (pretreat_busy env address hbusy).2]
    exact ⟨pretreated_refl rfl, pretreated_refl rfl⟩
  cases m with
  | someOneEnter =>
    obtain ⟨players, o, -, henter⟩ := pretreat_enter env g uid address
    rw [henter]
    exact pretreated_refl rfl
  | someOneSit => exact pretreated_refl rfl
  | tryStand => exact (em _).elim (fun hb => (hstay hb).1) fun hf => (hleave hf).1
  | tryQuit => exact (em _).elim (fun hb => (hstay hb).2) fun hf => (hleave hf).2
  | _ => exact pretreated_refl rfl

/-! ## Steps -/

private theorem pop_inv {g : Game} (h : Inv g) {n : ℕ} {p : Timeout TimerId}
    (hp : g.timers.pending[n]? = some p) : Inv { g with timers := g.timers.pop n } := by
  have hlive : (g.timers.pop n).live .dealPoker ≤ g.timers.live .dealPoker := by
    have hpop := Timers.live_pop hp .dealPoker
    omega
  exact ⟨⟨⟨h.seats.seated.1, h.seats.seated.2, h.seats.seated.3, h.seats.seated.4,
    h.seats.seated.5⟩, h.seats.sitnum, h.seats.money, h.seats.force, h.seats.carried⟩,
    roundInv_congr (g := g) rfl rfl rfl hlive h.round, hlive.trans h.dealTimer⟩

/-- The handler is called for a live timeout with that timeout gone. -/
theorem ready_fire {g : Game} (h : Inv g) {n : ℕ} {p : Timeout TimerId}
    (hp : g.timers.pending[n]? = some p) (hlive : g.timers.isLive p = true) :
    Ready ({ g with timers := g.timers.pop n } : Game).begin (.timer p.timerid) where
  inv := begin_inv (pop_inv h hp)
  dealt := by
    intro hm hs
    have hid : p.timerid = .dealPoker := by
      injection hm
    have hpop := Timers.live_pop hp .dealPoker
    have htimer := h.dealTimer
    rw [if_pos ⟨hid.symm, hlive⟩] at hpop
    rw [if_pos (show g.curstate = .dealPoker from hs)] at htimer
    have hnone : (g.timers.pop n).live .dealPoker = 0 := by omega
    exact ⟨(h.deal hs).2.2 (by omega), hnone⟩
  reported := fun _ _ _ hm => by cases hm

theorem ready_msg {g : Game} (h : Inv g) (env : Env) {uid : Uid} {address : Address}
    {m : Msg} (ha : Admissible g (.msg uid address m)) :
    Ready (g.begin.pretreat env uid address m) (.msg uid m) where
  inv := pretreat_inv (begin_inv h) env uid address m ha.2
  dealt := fun hm => by cases hm
  reported := by
    intro u x money hm hx
    cases hm
    exact ha.1 money hx

private theorem rehash_inv {g t : Game} (h : Inv g) (ht : Rehash g t) : Inv t := by
  obtain ⟨seater, gameplayer, players, hseater, hgameplayer, hplayers, rfl⟩ := ht
  have hseated := h.seats.seated
  refine ⟨⟨⟨fun k p hp => ?_, fun k s hs => ?_, fun k v hv => ?_, fun k hk => ?_, fun k hk => ?_⟩,
    ?_, fun k v hv => ?_, h.seats.force, fun hneed => ?_⟩, ?_, h.dealTimer⟩
  · rw [← hplayers.get?] at hp
    exact hseated.1 k p hp
  · rw [← hseater.get?] at hs
    exact hseated.2 k s hs
  · rw [← hgameplayer.get?] at hv
    exact hseated.3 k v hv
  · exact (hplayers.mem k).mp (hseated.4 k ((hseater.mem k).mpr hk))
  · exact (hseater.mem k).mp (hseated.5 k ((hgameplayer.mem k).mpr hk))
  · rw [← hseater.size]
    exact h.seats.sitnum
  · rw [← hgameplayer.get?] at hv
    exact h.seats.money k v hv
  · exact (hseater.mem _).mp (h.seats.carried hneed)
  · have hround := h.round
    have hhands : Hands g.gameplayer → Hands gameplayer := fun hall k v hv =>
      hall k v (by rwa [hgameplayer.get?])
    have hno : NoChoice g → ∀ k v, gameplayer.get? k = some v → v.choicecards = [] :=
      fun hall k v hv => hall k v (by rwa [hgameplayer.get?])
    have hmem := (hgameplayer.mem g.banker).mp
    have hsize := hgameplayer.size
    unfold RoundInv at hround ⊢
    show match g.curstate with
      | .waitPlayer | .waitStartGame => True
      | .grabTheBanker => 2 ≤ gameplayer.size ∧ NoChoice _
      | .waitBet => 2 ≤ gameplayer.size ∧ g.banker ∈ gameplayer ∧ NoChoice _
      | .dealPoker => 2 ≤ gameplayer.size ∧ g.banker ∈ gameplayer ∧
          (0 < g.timers.live .dealPoker → Hands gameplayer)
      | .choicePokerType | .waitShowResult => 2 ≤ gameplayer.size ∧
          g.banker ∈ gameplayer ∧ Hands gameplayer
      | .showResult => Hands gameplayer
    rw [← hsize]
    cases hs : g.curstate with
    | waitPlayer => trivial
    | waitStartGame => trivial
    | grabTheBanker =>
      rw [hs] at hround
      exact ⟨hround.1, hno hround.2⟩
    | waitBet =>
      rw [hs] at hround
      exact ⟨hround.1, hmem hround.2.1, hno hround.2.2⟩
    | dealPoker =>
      rw [hs] at hround
      exact ⟨hround.1, hmem hround.2.1, hhands ∘ hround.2.2⟩
    | choicePokerType =>
      rw [hs] at hround
      exact ⟨hround.1, hmem hround.2.1, hhands hround.2.2⟩
    | waitShowResult =>
      rw [hs] at hround
      exact ⟨hround.1, hmem hround.2.1, hhands hround.2.2⟩
    | showResult =>
      rw [hs] at hround
      exact hhands hround

/-- A new configuration is put in force, or kept for the end of the round. -/
theorem needUpdateGameconf_spec (g : Game) (conf : GameConf) : ∃ c u o, rets o = [] ∧
    g.needUpdateGameconf conf = { g with
      calls := [], gameconf := c, updateconf := u, outbox := o } := by
  unfold needUpdateGameconf
  by_cases hstart : g.isGameStart = true
  · exact ⟨g.gameconf, some conf, [], rfl, if_neg (not_not.mpr hstart)⟩
  · obtain ⟨c, o, ho, hnew⟩ := updateGameconf_spec { g.begin with updateconf := some conf }
    exact ⟨c, none, o, ho, (if_pos hstart).trans hnew⟩

private theorem update_inv {g : Game} (h : Inv g) (conf : GameConf) :
    Inv (g.needUpdateGameconf conf) := by
  obtain ⟨c, u, o, -, hnew⟩ := needUpdateGameconf_spec g conf
  have hseated := h.seats.seated
  rw [hnew]
  exact ⟨⟨⟨hseated.1, hseated.2, hseated.3, hseated.4, hseated.5⟩, h.seats.sitnum, h.seats.money,
    h.seats.force, h.seats.carried⟩, roundInv_congr (g := g) rfl rfl rfl le_rfl h.round,
    h.dealTimer⟩

/-- What a step of a sound table is: a move, or a timeout that does nothing, or
a change of the configuration or of the traversal orders. -/
inductive Stepped (g : Game) : Event → Game → Prop
  | msg (env : Env) (uid : Uid) (address : Address) (m : Msg) (t : Game) :
      Ready (g.begin.pretreat env uid address m) (.msg uid m) →
      Move env (g.begin.pretreat env uid address m) (.msg uid m) t →
      Stepped g (.msg uid address m) t
  | fire (env : Env) (n : ℕ) (p : Timeout TimerId) (t : Game) :
      g.timers.pending[n]? = some p → g.timers.isLive p = true →
      Ready ({ g with timers := g.timers.pop n } : Game).begin (.timer p.timerid) →
      Move env ({ g with timers := g.timers.pop n } : Game).begin (.timer p.timerid) t →
      Stepped g (.timeout n) t
  | stale (n : ℕ) (p : Timeout TimerId) : g.timers.pending[n]? = some p →
      g.timers.isLive p = false →
      Stepped g (.timeout n) ({ g with timers := g.timers.pop n } : Game).begin
  | idle (n : ℕ) : Stepped g (.timeout n) g.begin
  | update (conf : GameConf) : Stepped g (.update conf) (g.needUpdateGameconf conf)
  | rehash (t : Game) : Rehash g t → Stepped g .rehash t

theorem fire_idle (env : Env) {g : Game} {n : ℕ} (hp : g.timers.pending[n]? = none) :
    g.fire env n = .ok g.begin := by
  unfold fire
  rw [hp]
  rfl

theorem fire_stale (env : Env) {g : Game} {n : ℕ} {p : Timeout TimerId}
    (hp : g.timers.pending[n]? = some p) (hlive : g.timers.isLive p = false) :
    g.fire env n = .ok ({ g with timers := g.timers.pop n } : Game).begin := by
  unfold fire
  rw [hp]
  exact if_neg (by rw [hlive]; exact Bool.false_ne_true)

theorem fire_live (env : Env) {g : Game} {n : ℕ} {p : Timeout TimerId}
    (hp : g.timers.pending[n]? = some p) (hlive : g.timers.isLive p = true) :
    g.fire env n = ({ g with timers := g.timers.pop n } : Game).begin.command env
      (.timer p.timerid) := by
  unfold fire
  rw [hp]
  exact if_pos hlive

/-- The table a move leaves, whether or not the handler raised. -/
theorem moves_after {env : Env} {g : Game} {m : Mtype} {r : Result}
    (h : Moves env g m r) : Move env g m (Handler.after r) := by
  obtain ⟨t, hmove, rfl | rfl⟩ := h
  · exact hmove
  · exact hmove

theorem Step.stepped {g t : Game} {e : Event} (h : Inv g) (hstep : Step g e t) :
    Stepped g e t := by
  obtain ⟨ha, hstep⟩ := hstep
  cases e with
  | msg uid address m =>
    obtain ⟨env, rfl⟩ := hstep
    have hready := ready_msg h env ha
    exact .msg env uid address m _ hready (moves_after (command_moves hready.sound))
  | timeout n =>
    obtain ⟨env, rfl⟩ := hstep
    show Stepped g (.timeout n) (Handler.after (g.fire env n))
    cases hp : g.timers.pending[n]? with
    | none =>
      rw [fire_idle env hp]
      exact .idle n
    | some p =>
      cases hlive : g.timers.isLive p with
      | false =>
        rw [fire_stale env hp hlive]
        exact .stale n p hp hlive
      | true =>
        have hready := ready_fire h hp hlive
        rw [fire_live env hp hlive]
        exact .fire env n p _ hp hlive hready (moves_after (command_moves hready.sound))
  | update conf =>
    obtain ⟨env, rfl⟩ := hstep
    exact .update conf
  | rehash => exact .rehash t hstep

theorem Stepped.inv {g t : Game} {e : Event} (h : Inv g) (hstep : Stepped g e t) : Inv t := by
  cases hstep with
  | msg env uid address m t hready hmove => exact hmove.inv hready
  | fire env n p t hp hlive hready hmove => exact hmove.inv hready
  | stale n p hp hlive => exact begin_inv (pop_inv h hp)
  | idle n => exact begin_inv h
  | update conf => exact update_inv h conf
  | rehash t ht => exact rehash_inv h ht

private theorem creatGame_inv (conf : GameConf) : Inv (creatGame conf) := by
  refine ⟨⟨⟨fun k p hp => ?_, fun k s hs => ?_, fun k v hv => ?_, fun k hk => ?_, fun k hk => ?_⟩,
    rfl, fun k v hv => ?_, rfl, fun hneed => ?_⟩, trivial, Nat.le_refl 0⟩
  · simp [creatGame] at hp
  · simp [creatGame] at hs
  · simp [creatGame] at hv
  · simp [creatGame] at hk
  · simp [creatGame] at hk
  · simp [creatGame] at hv
  · exact absurd hneed (by simp [creatGame])

theorem inv_inductive : system.Inductive Inv where
  init := by
    rintro g ⟨conf, rfl⟩
    exact creatGame_inv conf
  step _ _ _ _ h hstep := (hstep.stepped h).inv h

/-- Every table a run reaches is sound. -/
theorem inv_invariant : system.Invariant Inv := inv_inductive.invariant

/-- The only way a dispatch at a sound table raises is that the deck is too
small for the round. -/
theorem handle_error {env : Env} {g t : Game} {e : Event} {err : LuaError} (h : Inv g)
    (ha : Admissible g e) (hraise : handle env g e = .error (err, t)) : err = .assertion := by
  have hmoves : ∀ {g m}, Moves env g m (.error (err, t)) → err = .assertion := by
    rintro g m ⟨u, -, hu | hu⟩
    · cases hu
    · cases hu
      rfl
  cases e with
  | msg uid address m =>
    have hcmd : Moves env _ _ _ := command_moves (ready_msg h env ha).sound
    exact hmoves ((congrArg (Moves env _ _) hraise).mp hcmd)
  | timeout n =>
    have hfire : g.fire env n = .error (err, t) := hraise
    cases hp : g.timers.pending[n]? with
    | none =>
      rw [fire_idle env hp] at hfire
      cases hfire
    | some p =>
      cases hlive : g.timers.isLive p with
      | false =>
        rw [fire_stale env hp hlive] at hfire
        cases hfire
      | true =>
        rw [fire_live env hp hlive] at hfire
        have hcmd : Moves env _ _ _ := command_moves (ready_fire h hp hlive).sound
        exact hmoves ((congrArg (Moves env _ _) hfire).mp hcmd)
  | update conf => cases hraise
  | rehash => cases hraise

end Game

end DnServer.Bullfight
