import DnServer.Bullfight.Bull
import DnServer.Bullfight.Game.Cards

/-!
# The game service: the result of the comparison

Every player of the round is compared with the banker, whose cards the earlier
comparisons may have put in another order. The order decides nothing, so each
player's total depends on the two hands as they were, and the totals add up to 0.

* `getCompareResult_gains`: round by round of the loop (`gainedUpTo_round`) the banker's
  total is less by what the player's is more, so the sum stays (`WinsFrom.total`).
* `beats_same`: cards that were only put in another order beat the same hands. `Decided`
  asks that the comparison finds the cards it indexes, without which the loop raises
  (`getCompareResult_empty_hands`).
-/

namespace DnServer.Bullfight

open DnServer.Lib

namespace Game

/-- A round that can be compared: the banker plays in it, every record is filed under its
player, who is at the table, and has a poker type and no total yet; where a player's type is
the banker's both have the card that decides. -/
structure Comparable (g : Game) : Prop where
  uid : ∀ k v, g.gameplayer.get? k = some v → v.uid = k
  players : ∀ k, k ∈ g.gameplayer → k ∈ g.players
  banker : g.banker ∈ g.gameplayer
  typed : Typed g.gameplayer
  fresh : ∀ k v, g.gameplayer.get? k = some v → v.totaladd = 0
  decided : ∀ k v b, g.gameplayer.get? k = some v → k ≠ g.banker →
    g.gameplayer.get? g.banker = some b → Decided v b

/-- The sum of the totals. -/
def total (t : Table Uid GamePlayer) : ℤ := t.sum fun _ v => v.totaladd

/-- What the player wins the banker loses. -/
theorem WinsFrom.total {banker k : Uid} {d : ℤ} {s t : Table Uid GamePlayer}
    (h : WinsFrom banker k d s t) (hne : k ≠ banker) {v b : GamePlayer}
    (hv : s.get? k = some v) (hb : s.get? banker = some b) : total t = total s := by
  have hupd : Table.Updated (fun j x y => y.totaladd =
      x.totaladd + ((if j = k then d else 0) + if j = banker then -d else 0)) s t := by
    refine ⟨h.keys, fun j x y hx hy => ?_⟩
    by_cases hj : j = k
    · subst hj
      obtain ⟨w, hw, -, htotal⟩ := h.player x hx
      rw [hy] at hw
      cases hw
      rw [htotal, if_pos rfl, if_neg hne, add_zero]
    · by_cases hjb : j = banker
      · subst hjb
        obtain ⟨w, hw, -, htotal⟩ := h.bank x hx
        rw [hy] at hw
        cases hw
        rw [htotal, if_neg hj, if_pos rfl, zero_add, sub_eq_add_neg]
      · rw [h.other j hj hjb, hx] at hy
        cases hy
        rw [if_neg hj, if_neg hjb, add_zero, add_zero]
  unfold Game.total
  rw [hupd.sum_eq fun j x y _ hxy => hxy, Table.sum_add, Table.sum_add,
    Table.sum_single hv fun _ _ => d, Table.sum_single hb fun _ _ => -d]
  ring

theorem Decided.same {v b b' : GamePlayer} (hd : Decided v b) (h : SamePlay b b') :
    Decided v b' := by
  intro heq
  rw [h.2.length_eq]
  rw [h.pokertype] at heq
  exact hd heq

/-- The order of the banker's cards decides nothing. -/
theorem beats_same (env : Env) {v b b' : GamePlayer} (hd : Decided v b) (h : SamePlay b b') :
    beats env v b' = beats env v b := by
  unfold beats
  rw [Poker.bfCompare_eq env.sort hd, Poker.bfCompare_eq env.sort (hd.same h), h.pokertype,
    Poker.decider_perm env.sort _ h.2]

theorem gain_same (env : Env) (g : Game) {v b b' : GamePlayer} (hd : Decided v b)
    (h : SamePlay b b') : gain env g v b' = gain env g v b := by
  rw [gain, gain, beats_same env hd h, h.pokertype]

/-- Where the record of player `k` stands once the players of `done` were compared. -/
structure Gained (env : Env) (g : Game) (b : GamePlayer) (done : List Uid) (k : Uid)
    (v w : GamePlayer) : Prop where
  same : SamePlay v w
  played : k ≠ g.banker → k ∈ done → w.totaladd = v.totaladd + gain env g v b
  waiting : k ≠ g.banker → k ∉ done → w = v

/-- Those of `done` that the banker's hand is not below. -/
def losersOf (env : Env) (g : Game) (b : GamePlayer) (done : List (Uid × GamePlayer)) : List Uid :=
  (done.filter fun p => p.1 ≠ g.banker ∧ beats env p.2 b = false).map Prod.fst

/-- The table once the players of `done` were compared. -/
def GainedUpTo (env : Env) (g : Game) (b : GamePlayer) (done : List (Uid × GamePlayer))
    (t : Game) : Prop :=
  ∃ gp, Table.Updated (Gained env g b (done.map Prod.fst)) g.gameplayer gp ∧
    total gp = total g.gameplayer ∧
    t = { g with
      gameplayer := gp, outbox := g.outbox ++ g.loserNotices (losersOf env g b done) }

theorem losersOf_concat (env : Env) (g : Game) (b : GamePlayer) (done : List (Uid × GamePlayer))
    (p : Uid × GamePlayer) : losersOf env g b (done ++ [p]) = losersOf env g b done ++
      if p.1 ≠ g.banker ∧ beats env p.2 b = false then [p.1] else [] := by
  unfold losersOf
  rw [List.filter_append, List.map_append, List.filter_cons, List.filter_nil]
  split_ifs with hkept hlost hlost
  · rfl
  · exact absurd (of_decide_eq_true hkept) hlost
  · exact absurd (decide_eq_true hlost) hkept
  · rfl

/-- The records move on when a player is compared. -/
theorem gained_next {env : Env} {g : Game} {b : GamePlayer} {done : List Uid} {p : Uid}
    {v : GamePlayer} {gp gp' : Table Uid GamePlayer} (hp : p ≠ g.banker) (hnew : p ∉ done)
    (hv : g.gameplayer.get? p = some v)
    (hgp : Table.Updated (Gained env g b done) g.gameplayer gp)
    (hwins : WinsFrom g.banker p (gain env g v b) gp gp') :
    Table.Updated (Gained env g b (done ++ [p])) g.gameplayer gp' := by
  refine ⟨hwins.keys.trans hgp.keys, fun k x z hx hz => ?_⟩
  obtain ⟨y, hy, hgain⟩ := hgp.get?_of_old hx
  by_cases hk : k = p
  · subst hk
    rw [hv] at hx
    cases hx
    obtain ⟨z', hz', hsame, htotal⟩ := hwins.player y hy
    rw [hz] at hz'
    cases hz'
    rw [hgain.waiting hp hnew] at hsame htotal
    exact ⟨hsame, fun _ _ => htotal, fun _ hd => absurd (by simp) hd⟩
  · have hdone : k ∈ done ++ [p] ↔ k ∈ done := by simp [hk]
    by_cases hkb : k = g.banker
    · subst hkb
      obtain ⟨z', hz', hsame, -⟩ := hwins.bank y hy
      rw [hz] at hz'
      cases hz'
      exact ⟨hgain.same.trans hsame, fun h => absurd rfl h, fun h => absurd rfl h⟩
    · rw [hwins.other k hk hkb, hy] at hz
      cases hz
      exact ⟨hgain.same, fun _ hd => hgain.played hkb (hdone.mp hd),
        fun _ hd => hgain.waiting hkb (hd ∘ hdone.mpr)⟩

/-- One round of the loop, whoever it visits. -/
theorem gainedUpTo_round (env : Env) {g : Game} {b : GamePlayer} (h : Comparable g)
    (hb : g.gameplayer.get? g.banker = some b) {done rest : List (Uid × GamePlayer)}
    {p : Uid × GamePlayer} {s : Game} (hsplit : g.gameplayer.pairs = done ++ p :: rest)
    (hs : GainedUpTo env g b done s) :
    ∃ t, s.compareWithBanker env p.1 p.2 = .ok t ∧ GainedUpTo env g b (done ++ [p]) t := by
  obtain ⟨gp, hgp, htotal, rfl⟩ := hs
  obtain ⟨hnew, hget⟩ := Table.not_visited hsplit
  obtain ⟨b', hb', hbgain⟩ := hgp.get?_of_old hb
  have hbuid : b'.uid = g.banker := hbgain.same.uid.trans (h.uid _ _ hb)
  have hdone : (done ++ [p]).map Prod.fst = done.map Prod.fst ++ [p.1] := List.map_append
  unfold GainedUpTo
  rw [hdone, losersOf_concat]
  by_cases hp : p.1 = g.banker
  · have hok : compareWithBanker env { g with
        gameplayer := gp, outbox := g.outbox ++ g.loserNotices (losersOf env g b done) } p.1 p.2 =
        .ok { g with
          gameplayer := gp, outbox := g.outbox ++ g.loserNotices (losersOf env g b done) } :=
      (Handler.bind_of_ok (Handler.index_of_some hb' _ _) _).trans
        (if_neg (by rw [hbuid]; exact not_not.mpr hp))
    refine ⟨_, hok, gp, hgp.mono fun k v w hkv => ⟨hkv.same, fun hk hd => hkv.played hk ?_,
      fun hk hd => hkv.waiting hk fun hd' => hd (List.mem_append_left _ hd')⟩, htotal, ?_⟩
    · exact (List.mem_append.mp hd).resolve_right fun hlast =>
        hk ((List.mem_singleton.mp hlast).trans hp)
    · rw [if_neg fun hc => hc.1 hp, List.append_nil]
  · obtain ⟨w, hw, hwgain⟩ := hgp.get?_of_old hget
    rw [hwgain.waiting hp hnew] at hw
    have htyped : Typed gp := fun k v hv => by
      obtain ⟨u, hu, hsame⟩ := hgp.get?_of_new hv
      rw [hsame.same.pokertype]
      exact h.typed k u hu
    obtain ⟨gp', hwins, hok⟩ := compareWithBanker_gain env
      (g := { g with
        gameplayer := gp, outbox := g.outbox ++ g.loserNotices (losersOf env g b done) })
      hp hw hb' hbuid (h.uid _ _ hget) (h.players _ (Table.mem_of_get? hget)) htyped
      ((h.decided _ _ _ hget hp hb).same hbgain.same)
    have hgain := gain_same env g (h.decided _ _ _ hget hp hb) hbgain.same
    have hwins : WinsFrom g.banker p.1 (gain env g p.2 b) gp gp' := hgain ▸ hwins
    refine ⟨_, hok, gp', gained_next hp hnew hget hgp hwins,
      (hwins.total hp hw hb').trans htotal, ?_⟩
    rw [beats_same env (h.decided _ _ _ hget hp hb) hbgain.same]
    unfold loserNotices
    rw [List.map_append, ← List.append_assoc]
    cases beats env p.2 b <;> simp [hp, playerOf]

/-- **The comparison.** The totals add up to 0; a player whose hand is above the banker's gets
its bet times the multiplier of its own hand, any other player loses its bet times the
multiplier of the banker's, and just the losers are told to report. -/
theorem getCompareResult_gains (env : Env) {g : Game} {b : GamePlayer} (h : Comparable g)
    (hb : g.gameplayer.get? g.banker = some b) :
    ∃ (t : Game) (losers : List Uid), g.getCompareResult env = .ok t ∧
      (t.gameplayer.sum fun _ v => v.totaladd) = 0 ∧
      (∀ k v, g.gameplayer.get? k = some v → k ≠ g.banker → ∃ w, t.gameplayer.get? k = some w ∧
        w.totaladd =
          if (Poker.bfCompare env.sort v.choicecards v.pokertype b.choicecards b.pokertype).2 =
              some true then
            ⌊v.betmoney / g.gameconf.basebet⌋ * (types.bulladd v.pokertype).getD 0
          else -(⌊v.betmoney / g.gameconf.basebet⌋ * (types.bulladd b.pokertype).getD 0)) ∧
      (∀ k, k ∈ losers ↔ k ≠ g.banker ∧ ∃ v, g.gameplayer.get? k = some v ∧
        (Poker.bfCompare env.sort v.choicecards v.pokertype b.choicecards b.pokertype).2 =
          some false) ∧
      losers.Nodup ∧
      t.outbox = g.outbox ++ (losers.map fun k => .send (g.playerOf k) .notifyLoserGetResult) ++
        [.send (g.playerOf g.banker) .getBankerMoney] := by
  obtain ⟨s, hs, gp, hgp, htotal, rfl⟩ := Handler.foldlM_rounds_ok
    (f := fun g p => compareWithBanker env g p.1 p.2) (I := GainedUpTo env g b)
    (fun _ _ _ _ hsplit hs => gainedUpTo_round env h hb hsplit hs)
    (⟨g.gameplayer, Table.Updated.refl fun k v _ =>
      ⟨SamePlay.refl v, fun _ hd => absurd hd List.not_mem_nil, fun _ _ => rfl⟩, rfl,
      by simp [loserNotices, losersOf]⟩ : GainedUpTo env g b [] g)
  obtain ⟨b', hb', hbgain⟩ := hgp.get?_of_old hb
  have hbuid : b'.uid = g.banker := hbgain.same.uid.trans (h.uid _ _ hb)
  have hsend : g.banker ∈ g.players := h.players _ h.banker
  have hok : g.getCompareResult env = .ok { g with
      gameplayer := gp
      bankermoney := 0
      outbox := g.outbox ++ g.loserNotices (losersOf env g b g.gameplayer.pairs) ++
        [.send (g.playerOf g.banker) .getBankerMoney] } := by
    refine (Handler.bind_of_ok hs _).trans
      ((Handler.bind_of_ok (Handler.index_of_some hb' _ _) _).trans ?_)
    rw [hbuid]
    refine (sendAgent_ok ?_ _).trans rfl
    exact hsend
  refine ⟨_, losersOf env g b g.gameplayer.pairs, hok, ?_, fun k v hv hk => ?_, fun k => ?_, ?_, rfl⟩
  · refine htotal.trans ?_
    rw [total, Table.sum_congr fun k v hv => h.fresh k v hv, Table.sum_zero]
  · obtain ⟨w, hw, hgain⟩ := hgp.get?_of_old hv
    refine ⟨w, hw, ?_⟩
    rw [hgain.played hk (Table.mem_of_get? hv), h.fresh k v hv, zero_add]
    simp only [beats_of_decided env (h.decided _ _ _ hv hk hb), Option.some.injEq]
    rfl
  · unfold losersOf
    simp only [List.mem_map, List.mem_filter, decide_eq_true_eq]
    constructor
    · rintro ⟨p, ⟨hp, hne, hlost⟩, rfl⟩
      have hget := Table.get?_of_mem_pairs hp
      refine ⟨hne, p.2, hget, ?_⟩
      rw [beats_of_decided env (h.decided _ _ _ hget hne hb), hlost]
    · rintro ⟨hne, v, hv, hlost⟩
      rw [beats_of_decided env (h.decided _ _ _ hv hne hb)] at hlost
      exact ⟨(k, v), ⟨Table.get?_eq_some.mp hv, hne, Option.some.inj hlost⟩, rfl⟩
  · exact g.gameplayer.nodup.sublist (List.filter_sublist.map Prod.fst)

/-- Two players with the hands `c1` and `c2`, both a bull of ten; the first has the bank, the
other has bet twice the base bet. -/
def bothTen (c1 c2 : List Card) : Game :=
  { creatGame .base50 with
    banker := 1
    players := ⟨[(1, ⟨1, 101⟩), (2, ⟨2, 102⟩)], by decide⟩
    gameplayer := ⟨[(1, { GamePlayer.new 1 with pokertype := 10, choicecards := c1 }),
      (2, { GamePlayer.new 2 with pokertype := 10, choicecards := c2, betmoney := 100 })],
      show [1, 2].Nodup by decide⟩ }

theorem bothTen_comparable {c d : List Card} (h1 : 2 ≤ c.length) (h2 : 2 ≤ d.length) :
    Comparable (bothTen c d) := by
  have hrecord : ∀ k v, (bothTen c d).gameplayer.get? k = some v →
      v.uid = k ∧ v.pokertype = 10 ∧ v.totaladd = 0 ∧ 2 ≤ v.choicecards.length := by
    intro k v hv
    have hmem := Table.get?_eq_some.mp hv
    simp only [bothTen, List.mem_cons, Prod.mk.injEq, List.not_mem_nil, or_false] at hmem
    rcases hmem with ⟨rfl, rfl⟩ | ⟨rfl, rfl⟩
    · exact ⟨rfl, rfl, rfl, h1⟩
    · exact ⟨rfl, rfl, rfl, h2⟩
  exact {
    uid := fun k v hv => (hrecord k v hv).1
    players := fun k hk => hk
    banker := List.mem_cons_self
    typed := fun k v hv => by
      rw [(hrecord k v hv).2.1]
      decide
    fresh := fun k v hv => (hrecord k v hv).2.2.1
    decided := fun k v b hv _ hb =>
      Poker.decided_of_length _ _ (hrecord k v hv).2.2.2 (hrecord _ b hb).2.2.2 }

/-- The banker has the king of the lower suit, and pays two base bets three times over. -/
theorem getCompareResult_gains_two :
    ∃ t, (bothTen [⟨4, 1⟩, ⟨13, 1⟩] [⟨13, 2⟩, ⟨5, 1⟩]).getCompareResult .quiet = .ok t ∧
      (t.gameplayer.sum fun _ v => v.totaladd) = 0 ∧
      ∃ w, t.gameplayer.get? 2 = some w ∧ w.totaladd = 6 := by
  obtain ⟨t, losers, hok, hsum, hgains, -⟩ := getCompareResult_gains .quiet
    (bothTen_comparable (c := [⟨4, 1⟩, ⟨13, 1⟩]) (d := [⟨13, 2⟩, ⟨5, 1⟩]) (by decide) (by decide))
    rfl
  obtain ⟨w, hw, htotal⟩ := hgains 2 _ rfl (by decide)
  refine ⟨t, hok, hsum, w, hw, htotal.trans ?_⟩
  decide +kernel

/-- Between two empty hands of one type `BFCompare` indexes `nil`, and the comparison fails. -/
theorem getCompareResult_empty_hands :
    ∃ t, (bothTen [] []).getCompareResult .quiet = .error (.nilIndex, t) := ⟨_, rfl⟩

end Game

end DnServer.Bullfight
