import DnServer.Bullfight.Bull
import DnServer.Bullfight.Game.Spec

/-!
# The game service: dealing, choosing and comparing cards
-/

namespace DnServer.Bullfight

open DnServer.Lib

namespace Game

/-! ## Dealing -/

/-- Only the cards and their type changed. -/
def OnlyCards (v w : GamePlayer) : Prop :=
  w = { v with cards := w.cards, choicecards := w.choicecards, pokertype := w.pokertype }

theorem OnlyCards.refl (v : GamePlayer) : OnlyCards v v := rfl

theorem OnlyCards.trans {u v w : GamePlayer} (h : OnlyCards u v) (h' : OnlyCards v w) :
    OnlyCards u w := by
  unfold OnlyCards at *
  rw [h', h]

/-- `w` is `v` with five cards, their type and their arrangement. -/
def Dealt (v w : GamePlayer) : Prop :=
  OnlyCards v w ∧ w.cards.length = 5 ∧
    Poker.getBFType w.cards [] = some (w.pokertype, w.choicecards)

/-- A player who gets five cards is dealt in. -/
private theorem dealTo_spec {g : Game} {k : Uid} {v : GamePlayer} (hch : v.choicecards = []) :
    (∃ t ret o, direct o = [] ∧ (Poker.popCards g.poker 5 g.pos).1.length = 5 ∧
        Poker.getBFType (Poker.popCards g.poker 5 g.pos).1 [] = some (t, ret) ∧
        g.dealTo k v = .ok { g with
          gameplayer := g.gameplayer.modify k fun v => { v with
            cards := (Poker.popCards g.poker 5 g.pos).1, pokertype := t, choicecards := ret }
          pos := (Poker.popCards g.poker 5 g.pos).2
          outbox := g.outbox ++ o }) ∨
      ((Poker.popCards g.poker 5 g.pos).1.length ≠ 5 ∧
        g.dealTo k v = .error (.assertion, { g with
          gameplayer := g.gameplayer.modify k fun v =>
            { v with cards := (Poker.popCards g.poker 5 g.pos).1 }
          pos := (Poker.popCards g.poker 5 g.pos).2 })) := by
  unfold dealTo
  by_cases hlen : (Poker.popCards g.poker 5 g.pos).1.length = 5
  · obtain ⟨t, ret, hbf, -⟩ := Poker.getBFType_ok hlen
    have hmod : (g.gameplayer.modify k fun v =>
        { v with cards := (Poker.popCards g.poker 5 g.pos).1 }).modify k
          (fun v => { v with pokertype := t, choicecards := ret })
        = g.gameplayer.modify k fun v => { v with
            cards := (Poker.popCards g.poker 5 g.pos).1, pokertype := t,
            choicecards := ret } := Table.modify_modify _ _ _ _
    obtain ⟨o, ho, hsend⟩ := sendTo_spec { g with
        gameplayer := g.gameplayer.modify k fun v => { v with
          cards := (Poker.popCards g.poker 5 g.pos).1, pokertype := t, choicecards := ret }
        pos := (Poker.popCards g.poker 5 g.pos).2 } k
      (.dealPoker (Poker.popCards g.poker 5 g.pos).1 t)
    have hbf' := hbf
    rw [← hch] at hbf'
    refine .inl ⟨t, ret, o, ho, hlen, hbf,
      (Handler.bind_of_ok (Handler.index_of_some hbf' _ _) _).trans (congrArg Except.ok ?_)⟩
    rw [← hmod] at hsend ⊢
    exact hsend
  · have hbf : Poker.getBFType (Poker.popCards g.poker 5 g.pos).1 v.choicecards = none := by
      unfold Poker.getBFType
      exact if_pos hlen
    exact .inr ⟨hlen, Handler.bind_of_error (Handler.index_of_none hbf _ _) _⟩

/-- Nobody in the round has arranged any cards yet. -/
def NoChoice (g : Game) : Prop := ∀ k v, g.gameplayer.get? k = some v → v.choicecards = []

/-- The hand of the player with key `k` when the deck is dealt to players with these keys. -/
def handOf (poker : List Card) (keys : List Uid) (k : Uid) : List Card :=
  Poker.hand poker (keys.idxOf k)

/-- `w` is `v` with the hand of player `k` of the round. -/
def DealtHand (g : Game) (k : Uid) (v w : GamePlayer) : Prop :=
  Dealt v w ∧ w.cards = handOf g.poker g.gameplayer.keys k

/-- The table after the players of `done` were dealt in. -/
private def DealtUpTo (g : Game) (done : List (Uid × GamePlayer)) (t : Game) : Prop :=
  ∃ gp o, direct o = [] ∧
    Table.Updated (Table.Visited (DealtHand g) done) g.gameplayer gp ∧
    t = { g with gameplayer := gp, pos := 1 + 5 * done.length, outbox := g.outbox ++ o }

/-- The table when the deck has run out. -/
private def DeckOut (g : Game) (e : LuaError × Game) : Prop :=
  ∃ gp pos o, direct o = [] ∧ Table.Updated (fun _ => OnlyCards) g.gameplayer gp ∧
    g.poker.length < 5 * g.gameplayer.size ∧
    e = (.assertion, { g with gameplayer := gp, pos := pos, outbox := g.outbox ++ o })

/-- The entry a loop over the entries visits next stands behind those visited. -/
private theorem idxOf_next {t : Table Uid GamePlayer} {done rest : List (Uid × GamePlayer)}
    {p : Uid × GamePlayer} (hsplit : t.pairs = done ++ p :: rest) :
    t.keys.idxOf p.1 = done.length := by
  have hnew := (Table.not_visited hsplit).1
  unfold Table.keys
  rw [hsplit, List.map_append, List.map_cons, List.idxOf_append_of_notMem hnew,
    List.idxOf_cons_self, List.length_map, Nat.add_zero]

private theorem dealTo_round {g : Game} (hch : NoChoice g) {done rest : List (Uid × GamePlayer)}
    {p : Uid × GamePlayer} {s : Game} (hsplit : g.gameplayer.pairs = done ++ p :: rest)
    (hs : DealtUpTo g done s) :
    (∃ t, s.dealTo p.1 p.2 = .ok t ∧ DealtUpTo g (done ++ [p]) t) ∨
      ∃ e, s.dealTo p.1 p.2 = .error e ∧ DeckOut g e := by
  obtain ⟨gp, o, ho, hgp, rfl⟩ := hs
  obtain ⟨-, hget⟩ := Table.not_visited hsplit
  have hhand : Poker.popCards g.poker 5 (1 + 5 * done.length)
      = (handOf g.poker g.gameplayer.keys p.1, 1 + 5 * (done ++ [p]).length) := by
    rw [Poker.popCards_hand, handOf, idxOf_next hsplit, List.length_append, List.length_singleton]
  have hdeal := dealTo_spec (g := { g with
    gameplayer := gp, pos := 1 + 5 * done.length, outbox := g.outbox ++ o })
    (k := p.1) (v := p.2) (hch _ _ hget)
  simp only [hhand] at hdeal
  rcases hdeal with ⟨t, ret, o', ho', hlen, hbf, hok⟩ | ⟨hlen, herr⟩
  · refine .inl ⟨_, hok, gp.modify p.1 fun v => { v with
        cards := handOf g.poker g.gameplayer.keys p.1, pokertype := t, choicecards := ret },
      o ++ o', by rw [direct_append, ho, ho']; rfl,
      hgp.visit hsplit ⟨⟨rfl, hlen, hbf⟩, rfl⟩, ?_⟩
    rw [← List.append_assoc]
  · have hshort := Poker.length_hand_lt hlen
    have hsize : done.length + 1 ≤ g.gameplayer.size := by
      have hall := congrArg List.length hsplit
      rw [List.length_append, List.length_cons] at hall
      unfold Table.size
      omega
    rw [idxOf_next hsplit] at hshort
    refine .inr ⟨_, herr, gp.modify p.1 fun v =>
      { v with cards := handOf g.poker g.gameplayer.keys p.1 }, _, o, ho, ?_, by omega, rfl⟩
    have hcards : Table.Updated (fun _ => OnlyCards) gp (gp.modify p.1 fun v =>
        { v with cards := handOf g.poker g.gameplayer.keys p.1 }) :=
      Table.updated_modify (fun _ v => OnlyCards.refl v) fun v _ => rfl
    refine Table.Updated.trans hgp hcards fun k x y z hxy hyz => ?_
    refine OnlyCards.trans ?_ hyz
    unfold Table.Visited at hxy
    split at hxy
    · exact hxy.1.1
    · rw [hxy]
      exact OnlyCards.refl x

private theorem dealTo_loop {g : Game} (hch : NoChoice g) (hpos : g.pos = 1) :
    (∃ t, g.gameplayer.pairs.foldlM (fun g p => dealTo g p.1 p.2) g = .ok t ∧
      DealtUpTo g g.gameplayer.pairs t) ∨
    ∃ e, g.gameplayer.pairs.foldlM (fun g p => dealTo g p.1 p.2) g = .error e ∧ DeckOut g e :=
  Handler.foldlM_rounds (fun _ _ _ _ hsplit hs => dealTo_round hch hsplit hs)
    ⟨g.gameplayer, [], rfl, Table.updated_visited_nil _ _, by simp [← hpos]⟩

/-- The deal: every player of the round gets the next five cards of the shuffled deck, their
type and an arrangement, or the deck is too small for the round and the assertion on the
hand's size fails. -/
theorem dealPoker_dealt (env : Env) {g : Game} (hch : NoChoice g) :
    ∃ gp pos o, direct o = [] ∧
      ((Table.Updated (DealtHand (g.shufflePoker env)) g.gameplayer gp ∧
          g.dealPoker env = .ok { g with
            gameplayer := gp, poker := Poker.shuffle env.rnd g.poker, pos := pos,
            outbox := g.outbox ++ o }) ∨
        (Table.Updated (fun _ => OnlyCards) g.gameplayer gp ∧
          g.poker.length < 5 * g.gameplayer.size ∧
          g.dealPoker env = .error (.assertion, { g with
            gameplayer := gp, poker := Poker.shuffle env.rnd g.poker, pos := pos,
            outbox := g.outbox ++ o }))) := by
  unfold dealPoker
  rcases dealTo_loop (g := g.shufflePoker env) hch rfl with
    ⟨t, ht, gp, o, ho, hgp, rfl⟩ | ⟨e, he, gp, pos, o, ho, hgp, hshort, rfl⟩
  · obtain ⟨o', ho', hfold⟩ := foldl_relay
      (f := fun (g : Game) (p : Uid × Player) =>
        if p.1 ∈ g.gameplayer then g else g.sendTo p.1 (.dealPoker [] 0))
      (fun g p => by
        by_cases hmem : p.1 ∈ g.gameplayer
        · exact ⟨[], rfl, by simp [hmem, emit]⟩
        · simp only [if_neg hmem]
          exact sendTo_spec g p.1 _)
      g.players.pairs { g.shufflePoker env with
        gameplayer := gp, pos := 1 + 5 * g.gameplayer.pairs.length, outbox := g.outbox ++ o }
    refine ⟨gp, 1 + 5 * g.gameplayer.pairs.length, o ++ o',
      by rw [direct_append, ho, ho']; rfl, .inl ⟨hgp.visited_all,
        (Handler.bind_of_ok ht _).trans (congrArg Except.ok (hfold.trans ?_))⟩⟩
    rw [← List.append_assoc]
    rfl
  · have hlen : (g.shufflePoker env).poker.length = g.poker.length :=
      (Poker.shuffle_perm env.rnd g.poker).length_eq
    rw [hlen] at hshort
    exact ⟨gp, pos, o, ho, .inr ⟨hgp, hshort, Handler.bind_of_error he _⟩⟩

/-- The deal, summed up: every player of the round has a hand of five, or the deck is out. -/
theorem dealPoker_spec (env : Env) {g : Game} (hch : NoChoice g) :
    ∃ gp poker pos o, direct o = [] ∧
      ((Table.Updated (fun _ => Dealt) g.gameplayer gp ∧ g.dealPoker env = .ok { g with
          gameplayer := gp, poker := poker, pos := pos, outbox := g.outbox ++ o }) ∨
        (Table.Updated (fun _ => OnlyCards) g.gameplayer gp ∧
          g.dealPoker env = .error (.assertion, { g with
            gameplayer := gp, poker := poker, pos := pos, outbox := g.outbox ++ o }))) := by
  obtain ⟨gp, pos, o, ho, ⟨hgp, hok⟩ | ⟨hgp, -, herr⟩⟩ := dealPoker_dealt env hch
  · exact ⟨gp, _, pos, o, ho, .inl ⟨hgp.mono fun _ _ _ h => h.1, hok⟩⟩
  · exact ⟨gp, _, pos, o, ho, .inr ⟨hgp, herr⟩⟩

/-! ## Choosing -/

/-- A choice is answered and changes nothing, or it passes the checks: then the
hand is arranged as the client says and counts as the type the client says. -/
theorem someOneChoicePoker_spec (env : Env) {g : Game} (h : Seated g) (uid : Uid) (t : ℤ)
    (cards : List Card) :
    ∃ o, direct o = [] ∧
      (g.someOneChoicePoker env uid t cards = .ok { g with outbox := g.outbox ++ o } ∨
        ∃ v, g.gameplayer.get? uid = some v ∧ checkChoice env v t cards = 0 ∧
          g.someOneChoicePoker env uid t cards = .ok { g with
            gameplayer := g.gameplayer.modify uid fun v =>
              { v with pokertype := t, choicecards := cards, havechoice := true }
            seater := g.seater.modify uid fun s => { s with timeouttimes := 0 }
            needgrabbanker := g.needgrabbanker || decide (t ≥ types.PT_BULL_BULL)
            grabresontype := if t ≥ types.PT_BULL_BULL then 2 else g.grabresontype
            outbox := g.outbox ++ o }) := by
  unfold someOneChoicePoker
  cases hv : g.gameplayer.get? uid with
  | none => exact ⟨[], rfl, .inl (by simp)⟩
  | some v =>
    by_cases hcheck : checkChoice env v t cards = 0
    · obtain ⟨s, hs⟩ := Table.mem_iff_get?.mp (h.gameplayer_seater uid (Table.mem_of_get? hv))
      refine ⟨g.broadcastOut none (.bfSomeOneChoice uid true t cards),
        direct_broadcastOut _ _ _, .inr ⟨v, rfl, hcheck, ?_⟩⟩
      refine (if_pos hcheck).trans ((Handler.bind_of_ok (Handler.index_of_some hs _ _) _).trans
        (congrArg Except.ok ?_))
      have hmod : (g.gameplayer.modify uid fun v =>
          { v with pokertype := t, choicecards := cards }).modify uid
            (fun v => { v with havechoice := true })
          = g.gameplayer.modify uid fun v =>
            { v with pokertype := t, choicecards := cards, havechoice := true } :=
        Table.modify_modify _ _ _ _
      rw [← hmod]
      by_cases ht : t ≥ types.PT_BULL_BULL
      · simp only [if_pos ht, decide_eq_true ht, Bool.or_true]
        rfl
      · simp only [if_neg ht, decide_eq_false ht, Bool.or_false]
        rfl
    · obtain ⟨o, ho, hsend⟩ := sendTo_spec g uid
        (.bfSomeOneChoice uid false (checkChoice env v t cards) [])
      exact ⟨o, ho, .inl ((if_neg hcheck).trans (congrArg Except.ok hsend))⟩

/-- One round: a player without a choice keeps the arrangement of the deal. -/
private theorem showResPlayer_spec {g : Game} {k : Uid} {v : GamePlayer}
    (hseat : v.uid ∈ g.seater) :
    (v.havechoice = true ∧ g.showResPlayer k v = .ok g) ∨
      ∃ n r o, direct o = [] ∧ (g.needgrabbanker = true → n = true) ∧
        g.showResPlayer k v = .ok { g with
          gameplayer := g.gameplayer.modify k fun v => { v with havechoice := true }
          seater := g.seater.modify v.uid fun s => { s with timeouttimes := s.timeouttimes + 1 }
          needgrabbanker := n
          grabresontype := r
          outbox := g.outbox ++ o } := by
  unfold showResPlayer
  cases hc : v.havechoice with
  | true => exact .inl ⟨rfl, if_neg (by simp)⟩
  | false =>
    obtain ⟨s, hs⟩ := Table.mem_iff_get?.mp hseat
    refine .inr ?_
    by_cases ht : v.pokertype ≥ types.PT_BULL_BULL
    · refine ⟨true, 2, g.broadcastOut none (.bfSomeOneChoice v.uid true v.pokertype
        v.choicecards), direct_broadcastOut _ _ _, fun _ => rfl, ?_⟩
      simp only [if_pos ht]
      exact (if_pos (by simp)).trans (Handler.bind_of_ok (Handler.index_of_some hs _ _) _)
    · refine ⟨g.needgrabbanker, g.grabresontype, g.broadcastOut none (.bfSomeOneChoice v.uid
        true v.pokertype v.choicecards), direct_broadcastOut _ _ _, fun h => h, ?_⟩
      simp only [if_neg ht]
      exact (if_pos (by simp)).trans (Handler.bind_of_ok (Handler.index_of_some hs _ _) _)

/-- When the time to choose is up, whoever has not chosen keeps the arrangement
and the type of the deal. -/
theorem showResPlayersCPType_spec {g : Game} (h : Seated g) :
    ∃ gp st n r o, direct o = [] ∧ (g.needgrabbanker = true → n = true) ∧
      Table.Updated (fun _ v w => w = { v with havechoice := true }) g.gameplayer gp ∧
      Table.Updated (fun _ (x y : Seater) => y.uid = x.uid) g.seater st ∧
      g.showResPlayersCPType = .ok { g with
        gameplayer := gp, seater := st, needgrabbanker := n, grabresontype := r,
        outbox := g.outbox ++ o } := by
  obtain ⟨t, ht, gp, st, n, r, o, ho, hn, hgp, hst, rfl⟩ := Handler.foldlM_rounds_ok
    (f := fun g p => showResPlayer g p.1 p.2) (l := g.gameplayer.pairs) (s := g)
    (I := fun done t => ∃ gp st n r o, direct o = [] ∧ (g.needgrabbanker = true → n = true) ∧
      Table.Updated (Table.Visited (fun _ v w => w = { v with havechoice := true }) done)
        g.gameplayer gp ∧
      Table.Updated (fun _ (x y : Seater) => y.uid = x.uid) g.seater st ∧
      t = { g with
        gameplayer := gp, seater := st, needgrabbanker := n, grabresontype := r,
        outbox := g.outbox ++ o })
    (by
      rintro done p rest s hsplit ⟨gp, st, n, r, o, ho, hn, hgp, hst, rfl⟩
      have hp : p ∈ g.gameplayer.pairs := by rw [hsplit]; simp
      have hseat : p.2.uid ∈ st := hst.mem.mpr (by
        rw [h.uid_of_pairs hp]
        exact h.gameplayer_seater _ (Table.mem_of_mem_pairs hp))
      rcases showResPlayer_spec (g := { g with
          gameplayer := gp, seater := st, needgrabbanker := n, grabresontype := r,
          outbox := g.outbox ++ o }) (k := p.1) (v := p.2) hseat with
        ⟨hc, hok⟩ | ⟨n', r', o', ho', hn', hok⟩
      · refine ⟨_, hok, gp, st, n, r, o, ho, hn, hgp.visit_same hsplit ?_, hst, rfl⟩
        rw [← hc]
      · refine ⟨_, hok, gp.modify p.1 fun v => { v with havechoice := true },
          st.modify p.2.uid fun s => { s with timeouttimes := s.timeouttimes + 1 }, n', r',
          o ++ o', by rw [direct_append, ho, ho']; rfl, fun hg => hn' (hn hg),
          hgp.visit hsplit rfl, ?_, by rw [← List.append_assoc]⟩
        exact hst.trans (Table.updated_modify (R := fun _ (x y : Seater) => y.uid = x.uid)
          (fun _ _ => rfl) fun _ _ => rfl) fun _ _ _ _ hxy hyz => hyz.trans hxy)
    ⟨g.gameplayer, g.seater, g.needgrabbanker, g.grabresontype, [], rfl, fun h => h,
      Table.updated_visited_nil _ _, Table.Updated.refl fun _ _ _ => rfl, by simp⟩
  exact ⟨gp, st, n, r, o, ho, hn, hgp.visited_all, hst, ht⟩

/-! ## Comparing -/

/-- Only the order of the arranged cards and the total changed. -/
def SamePlay (v w : GamePlayer) : Prop :=
  w = { v with choicecards := w.choicecards, totaladd := w.totaladd } ∧
    w.choicecards.Perm v.choicecards

theorem SamePlay.refl (v : GamePlayer) : SamePlay v v := ⟨rfl, List.Perm.refl _⟩

theorem SamePlay.uid {v w : GamePlayer} (h : SamePlay v w) : w.uid = v.uid := by rw [h.1]

theorem SamePlay.pokertype {v w : GamePlayer} (h : SamePlay v w) : w.pokertype = v.pokertype := by
  rw [h.1]

theorem SamePlay.trans {u v w : GamePlayer} (h : SamePlay u v) (h' : SamePlay v w) :
    SamePlay u w := by
  refine ⟨?_, h'.2.trans h.2⟩
  rw [h'.1, h.1]

/-- Player `k` wins `d` from the banker; nobody else is touched. -/
structure WinsFrom (banker k : Uid) (d : ℤ) (s t : Table Uid GamePlayer) : Prop where
  keys : t.keys = s.keys
  player : ∀ v, s.get? k = some v →
    ∃ w, t.get? k = some w ∧ SamePlay v w ∧ w.totaladd = v.totaladd + d
  bank : ∀ b, s.get? banker = some b →
    ∃ w, t.get? banker = some w ∧ SamePlay b w ∧ w.totaladd = b.totaladd - d
  other : ∀ j, j ≠ k → j ≠ banker → t.get? j = s.get? j

/-- The bet in whole base bets. -/
def betUnits (g : Game) (v : GamePlayer) : ℤ := ⌊v.betmoney / g.gameconf.basebet⌋

/-- Every record has a poker type with a multiplier. -/
def Typed (t : Table Uid GamePlayer) : Prop :=
  ∀ k v, t.get? k = some v → 0 ≤ v.pokertype ∧ v.pokertype ≤ 14

private theorem winsFrom_of_modify {banker k : Uid} (hne : k ≠ banker) {s : Table Uid GamePlayer}
    {v b : GamePlayer} (hv : s.get? k = some v) (hb : s.get? banker = some b)
    {c1 c2 : List Card} (h1 : c1.Perm v.choicecards) (h2 : c2.Perm b.choicecards)
    {f h : ℤ → ℤ} {d : ℤ} (hf : ∀ x, f x = x + d) (hh : ∀ x, h x = x - d) :
    WinsFrom banker k d s ((((s.modify k fun v => { v with choicecards := c1 }).modify banker
      fun b => { b with choicecards := c2 }).modify k
        fun v => { v with totaladd := f v.totaladd }).modify banker
          fun b => { b with totaladd := h b.totaladd }) where
  keys := by simp only [Table.modify, Table.keys_mapVal]
  player w hw := by
    rw [hv] at hw
    cases hw
    refine ⟨{ v with choicecards := c1, totaladd := f v.totaladd }, ?_, ⟨rfl, h1⟩, hf _⟩
    simp [Table.get?_modify, hne, hv]
  bank w hw := by
    rw [hb] at hw
    cases hw
    refine ⟨{ b with choicecards := c2, totaladd := h b.totaladd }, ?_, ⟨rfl, h2⟩, hh _⟩
    simp [Table.get?_modify, hne.symm, hb]
  other j hjk hjb := by simp [Table.get?_modify, hjk, hjb]

/-- Does the comparison rank the player's hand above the banker's? -/
def beats (env : Env) (v b : GamePlayer) : Bool :=
  (Poker.bfCompare env.sort v.choicecards v.pokertype b.choicecards b.pokertype).2.getD false

/-- The comparison of the two does not fail. -/
def Decided (v b : GamePlayer) : Prop :=
  Poker.Decided v.choicecards v.pokertype b.choicecards b.pokertype

theorem beats_of_decided (env : Env) {v b : GamePlayer} (h : Decided v b) :
    (Poker.bfCompare env.sort v.choicecards v.pokertype b.choicecards b.pokertype).2 =
      some (beats env v b) := by
  unfold beats
  rw [Poker.bfCompare_eq env.sort h, Option.getD_some]

/-- Every record has cards to compare, whatever the types. -/
def Sized (t : Table Uid GamePlayer) : Prop :=
  ∀ k v, t.get? k = some v → 2 ≤ v.choicecards.length

/-- What the player gets from the banker: its bet times the multiplier of the better hand. -/
def gain (env : Env) (g : Game) (v b : GamePlayer) : ℤ :=
  if beats env v b then g.betUnits v * (types.bulladd v.pokertype).getD 0
  else -(g.betUnits v * (types.bulladd b.pokertype).getD 0)

/-- One comparison: the player gets its gain from the banker, and is told to report
what it can pay if it lost. -/
theorem compareWithBanker_gain (env : Env) {g : Game} {k : Uid} {v b : GamePlayer}
    (hne : k ≠ g.banker) (hv : g.gameplayer.get? k = some v)
    (hb : g.gameplayer.get? g.banker = some b) (hbuid : b.uid = g.banker) (hvuid : v.uid = k)
    (hplayers : k ∈ g.players) (htyped : Typed g.gameplayer) (hdecided : Decided v b) :
    ∃ gp, WinsFrom g.banker k (gain env g v b) g.gameplayer gp ∧
      g.compareWithBanker env k v = .ok { g with
        gameplayer := gp
        outbox := g.outbox ++
          if beats env v b then [] else [.send (g.playerOf k) .notifyLoserGetResult] } := by
  obtain ⟨m1, hm1, -⟩ := types.bulladd_isSome (htyped k v hv).1 (htyped k v hv).2
  obtain ⟨m2, hm2, -⟩ :=
    types.bulladd_isSome (htyped g.banker b hb).1 (htyped g.banker b hb).2
  have hperm := Poker.bfCompare_perm env.sort v.choicecards b.choicecards v.pokertype b.pokertype
  unfold gain
  rw [hm1, hm2, Option.getD_some, Option.getD_some]
  have hcmp := beats_of_decided env hdecided
  unfold compareWithBanker
  cases hwin : beats env v b with
  | true =>
    refine ⟨_, winsFrom_of_modify hne hv hb hperm.1 hperm.2
      (f := fun x => x + g.betUnits v * m1) (h := fun x => x - g.betUnits v * m1)
      (fun _ => rfl) fun _ => rfl, ?_⟩
    refine (Handler.bind_of_ok (Handler.index_of_some hb _ _) _).trans ?_
    refine (if_pos (by rw [hbuid]; exact hne)).trans ?_
    refine (Handler.bind_of_ok (Handler.index_of_some (hwin ▸ hcmp) _ _) _).trans ?_
    refine (if_pos rfl).trans ?_
    rw [if_pos rfl, List.append_nil]
    exact Handler.bind_of_ok (Handler.index_of_some hm1 _ _) _
  | false =>
    refine ⟨_, winsFrom_of_modify hne hv hb hperm.1 hperm.2
      (f := fun x => x - g.betUnits v * m2) (h := fun x => x + g.betUnits v * m2)
      (fun _ => sub_eq_add_neg _ _) (fun _ => (sub_neg_eq_add _ _).symm), ?_⟩
    refine (Handler.bind_of_ok (Handler.index_of_some hb _ _) _).trans ?_
    refine (if_pos (by rw [hbuid]; exact hne)).trans ?_
    refine (Handler.bind_of_ok (Handler.index_of_some (hwin ▸ hcmp) _ _) _).trans ?_
    refine (if_neg Bool.false_ne_true).trans ?_
    refine (Handler.bind_of_ok (Handler.index_of_some hm2 _ _) _).trans ?_
    rw [← hvuid] at hplayers ⊢
    refine (sendAgent_ok ?_ _).trans rfl
    exact hplayers

/-- One comparison: the player wins its bet times some multiplier, or loses it
and is told to report what it can pay. -/
private theorem compareWithBanker_spec (env : Env) {g : Game} {k : Uid} {v b : GamePlayer}
    (hne : k ≠ g.banker) (hv : g.gameplayer.get? k = some v)
    (hb : g.gameplayer.get? g.banker = some b) (hbuid : b.uid = g.banker) (hvuid : v.uid = k)
    (hplayers : k ∈ g.players) (htyped : Typed g.gameplayer) (hdecided : Decided v b) :
    ∃ gp m, 1 ≤ m ∧
      ((WinsFrom g.banker k (g.betUnits v * m) g.gameplayer gp ∧
        g.compareWithBanker env k v = .ok { g with gameplayer := gp }) ∨
      (WinsFrom g.banker k (-(g.betUnits v * m)) g.gameplayer gp ∧
        g.compareWithBanker env k v = .ok { g with
          gameplayer := gp
          outbox := g.outbox ++ [.send (g.playerOf k) .notifyLoserGetResult] })) := by
  obtain ⟨m1, hm1, hpos1⟩ := types.bulladd_isSome (htyped k v hv).1 (htyped k v hv).2
  obtain ⟨m2, hm2, hpos2⟩ :=
    types.bulladd_isSome (htyped g.banker b hb).1 (htyped g.banker b hb).2
  obtain ⟨gp, hwins, hok⟩ :=
    compareWithBanker_gain env hne hv hb hbuid hvuid hplayers htyped hdecided
  unfold gain at hwins
  rw [hm1, hm2, Option.getD_some, Option.getD_some] at hwins
  cases hwin : beats env v b with
  | true =>
    rw [hwin, if_pos rfl] at hwins
    rw [hwin, if_pos rfl, List.append_nil] at hok
    exact ⟨gp, m1, hpos1, .inl ⟨hwins, hok⟩⟩
  | false =>
    rw [hwin, if_neg Bool.false_ne_true] at hwins hok
    exact ⟨gp, m2, hpos2, .inr ⟨hwins, hok⟩⟩

/-- Where the record of player `k` stands once the players of `done` were
compared with the banker, and which of them lost. -/
structure ComparedTo (g : Game) (done losers : List Uid) (k : Uid) (v w : GamePlayer) :
    Prop where
  same : SamePlay v w
  played : k ≠ g.banker → k ∈ done → ∃ m, 1 ≤ m ∧
    w.totaladd = v.totaladd + if k ∈ losers then -(g.betUnits v * m) else g.betUnits v * m
  waiting : k ≠ g.banker → k ∉ done → w = v

/-- The events that tell losers to report. -/
def loserNotices (g : Game) (losers : List Uid) : List Out :=
  losers.map fun k => .send (g.playerOf k) .notifyLoserGetResult

private def ComparedUpTo (g : Game) (done : List (Uid × GamePlayer)) (t : Game) : Prop :=
  ∃ (gp : Table Uid GamePlayer) (losers : List Uid),
    Table.Updated (ComparedTo g (done.map Prod.fst) losers) g.gameplayer gp ∧
    losers.Sublist (done.map Prod.fst) ∧ g.banker ∉ losers ∧
    t = { g with gameplayer := gp, outbox := g.outbox ++ g.loserNotices losers }

/-- Comparing a player moves its record, and the banker's, one round on. -/
private theorem comparedTo_next {g : Game} {done losers new : List Uid} {p : Uid}
    {v0 : GamePlayer} {gp gp' : Table Uid GamePlayer} (hp : p ≠ g.banker) (hnew : p ∉ done)
    (hv0 : g.gameplayer.get? p = some v0)
    (hgp : Table.Updated (ComparedTo g done losers) g.gameplayer gp)
    (hlosers : ∀ k, k ≠ p → (k ∈ new ↔ k ∈ losers)) {m : ℤ} (hm : 1 ≤ m)
    (hwins : WinsFrom g.banker p (if p ∈ new then -(g.betUnits v0 * m) else g.betUnits v0 * m)
      gp gp') :
    Table.Updated (ComparedTo g (done ++ [p]) new) g.gameplayer gp' := by
  refine ⟨hwins.keys.trans hgp.keys, fun k v w hv hw => ?_⟩
  obtain ⟨u, hu, hcmp⟩ := hgp.get?_of_old hv
  by_cases hk : k = p
  · subst hk
    rw [hv0] at hv
    cases hv
    obtain ⟨w', hw', hsame, htotal⟩ := hwins.player u hu
    rw [hw] at hw'
    cases hw'
    rw [hcmp.waiting hp hnew] at hsame htotal
    exact ⟨hsame, fun _ _ => ⟨m, hm, htotal⟩, fun _ hd => absurd (by simp) hd⟩
  · have hdone : k ∈ done ++ [p] ↔ k ∈ done := by simp [hk]
    by_cases hkb : k = g.banker
    · subst hkb
      obtain ⟨w', hw', hsame, -⟩ := hwins.bank u hu
      rw [hw] at hw'
      cases hw'
      exact ⟨hcmp.same.trans hsame, fun h => absurd rfl h, fun h => absurd rfl h⟩
    · rw [hwins.other k hk hkb, hu] at hw
      cases hw
      refine ⟨hcmp.same, fun _ hd => ?_, fun _ hd => hcmp.waiting hkb (hd ∘ hdone.mpr)⟩
      simp only [hlosers k hk]
      exact hcmp.played hkb (hdone.mp hd)

private theorem compareWithBanker_round (env : Env) {g : Game} (h : Seated g)
    (hbanker : g.banker ∈ g.gameplayer) (htyped : Typed g.gameplayer) (hsized : Sized g.gameplayer)
    {done rest : List (Uid × GamePlayer)} {p : Uid × GamePlayer} {s : Game}
    (hsplit : g.gameplayer.pairs = done ++ p :: rest) (hs : ComparedUpTo g done s) :
    ∃ t, s.compareWithBanker env p.1 p.2 = .ok t ∧ ComparedUpTo g (done ++ [p]) t := by
  obtain ⟨gp, losers, hgp, hsub, hnb, rfl⟩ := hs
  obtain ⟨hnew, hget⟩ := Table.not_visited hsplit
  obtain ⟨b0, hb0⟩ := Table.mem_iff_get?.mp hbanker
  obtain ⟨b, hb, hcmp⟩ := hgp.get?_of_old hb0
  have hbuid : b.uid = g.banker := hcmp.same.uid.trans (h.gameplayer_uid _ _ hb0)
  have hdone : (done ++ [p]).map Prod.fst = done.map Prod.fst ++ [p.1] := List.map_append
  unfold ComparedUpTo
  rw [hdone]
  by_cases hp : p.1 = g.banker
  · refine ⟨_, (Handler.bind_of_ok (Handler.index_of_some hb _ _) _).trans
      (if_neg (by rw [hbuid]; exact not_not.mpr hp)), gp, losers, ?_,
      hsub.trans (List.sublist_append_left _ _), hnb, rfl⟩
    refine hgp.mono fun k v w hkv => ⟨hkv.same, fun hk hd => hkv.played hk ?_,
      fun hk hd => hkv.waiting hk fun hd' => hd (List.mem_append_left _ hd')⟩
    exact (List.mem_append.mp hd).resolve_right fun hlast =>
      hk ((List.mem_singleton.mp hlast).trans hp)
  · obtain ⟨w, hw, hcmpw⟩ := hgp.get?_of_old hget
    have hwait : w = p.2 := hcmpw.waiting hp hnew
    rw [hwait] at hw
    have htyped' : Typed gp := by
      intro k v hv
      obtain ⟨u, hu, hsame⟩ := hgp.get?_of_new hv
      rw [hsame.same.pokertype]
      exact htyped k u hu
    obtain ⟨gp', m, hm, ⟨hwins, hok⟩ | ⟨hwins, hok⟩⟩ := compareWithBanker_spec env
      (g := { g with gameplayer := gp, outbox := g.outbox ++ g.loserNotices losers })
      hp hw hb hbuid (h.gameplayer_uid _ _ hget)
      (h.gameplayer_players (Table.mem_of_get? hget)) htyped'
      (Poker.decided_of_length _ _ (hsized _ _ hget)
        (hcmp.same.2.length_eq ▸ hsized _ _ hb0))
    · have hnl : p.1 ∉ losers := fun hmem => hnew (hsub.subset hmem)
      refine ⟨_, hok, gp', losers, ?_, hsub.trans (List.sublist_append_left _ _), hnb, rfl⟩
      refine comparedTo_next hp hnew hget hgp (fun _ _ => Iff.rfl) hm ?_
      rw [if_neg hnl]
      exact hwins
    · refine ⟨_, hok, gp', losers ++ [p.1], ?_, hsub.append (List.Sublist.refl _), ?_, ?_⟩
      · refine comparedTo_next hp hnew hget hgp (fun k hk => by simp [hk]) hm ?_
        rw [if_pos (by simp)]
        exact hwins
      · simp [hnb, Ne.symm hp]
      · rw [show g.loserNotices (losers ++ [p.1]) = g.loserNotices losers
          ++ [.send (g.playerOf p.1) .notifyLoserGetResult] from List.map_append,
          ← List.append_assoc]
        rfl

/-- The comparison: every player of the round wins its bet times a multiplier,
or loses it and is told to report; the banker is asked for its money. -/
theorem getCompareResult_spec (env : Env) {g : Game} (h : Seated g)
    (hbanker : g.banker ∈ g.gameplayer) (htyped : Typed g.gameplayer)
    (hsized : Sized g.gameplayer) :
    ∃ (gp : Table Uid GamePlayer) (losers : List Uid),
      Table.Updated (ComparedTo g g.gameplayer.keys losers) g.gameplayer gp ∧
      losers.Sublist g.gameplayer.keys ∧ g.banker ∉ losers ∧
      g.getCompareResult env = .ok { g with
        gameplayer := gp
        bankermoney := 0
        outbox := g.outbox ++ (g.loserNotices losers ++
          [.send (g.playerOf g.banker) .getBankerMoney]) } := by
  obtain ⟨t, ht, gp, losers, hgp, hsub, hnb, rfl⟩ := Handler.foldlM_rounds_ok
    (f := fun g p => compareWithBanker env g p.1 p.2) (I := ComparedUpTo g)
    (fun _ _ _ _ hsplit hs => compareWithBanker_round env h hbanker htyped hsized hsplit hs)
    (⟨g.gameplayer, [], Table.Updated.refl fun k v _ =>
      ⟨SamePlay.refl v, fun _ hd => absurd hd List.not_mem_nil, fun _ _ => rfl⟩,
      List.Sublist.refl _, List.not_mem_nil, by simp [loserNotices]⟩ : ComparedUpTo g [] g)
  obtain ⟨b0, hb0⟩ := Table.mem_iff_get?.mp hbanker
  obtain ⟨b, hb, hcmp⟩ := hgp.get?_of_old hb0
  have hbuid : b.uid = g.banker := hcmp.same.uid.trans (h.gameplayer_uid _ _ hb0)
  refine ⟨gp, losers, hgp, hsub, hnb, (Handler.bind_of_ok ht _).trans
    ((Handler.bind_of_ok (Handler.index_of_some hb _ _) _).trans ?_)⟩
  rw [hbuid, ← List.append_assoc]
  refine (sendAgent_ok ?_ _).trans rfl
  exact h.gameplayer_players hbanker

end Game

end DnServer.Bullfight
