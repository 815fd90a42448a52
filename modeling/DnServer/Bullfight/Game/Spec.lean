import DnServer.Bullfight.Game.System

/-!
# The game service: one lemma for each procedure

What each procedure of the table does to it, loops summed up: which fields
change and how, and that nothing raises when every record has its seat and its
place at the table. `Seated` is what these lemmas ask for; the messages a
procedure sends are summed up as `Quiet`: none of them answers a call.
-/

namespace DnServer.Bullfight

open DnServer.Lib

namespace Game

/-! ## What the procedures rely on -/

/-- Records are filed under their own uid; who is in the round has a seat, and
who has a seat is at the table. -/
structure Seated (g : Game) : Prop where
  players_uid : ∀ k p, g.players.get? k = some p → p.uid = k
  seater_uid : ∀ k s, g.seater.get? k = some s → s.uid = k
  gameplayer_uid : ∀ k v, g.gameplayer.get? k = some v → v.uid = k
  seater_players : ∀ k, k ∈ g.seater → k ∈ g.players
  gameplayer_seater : ∀ k, k ∈ g.gameplayer → k ∈ g.seater

theorem Seated.gameplayer_players {g : Game} (h : Seated g) {k : Uid} (hk : k ∈ g.gameplayer) :
    k ∈ g.players := h.seater_players k (h.gameplayer_seater k hk)

theorem Seated.uid_of_pairs {g : Game} (h : Seated g) {p : Uid × GamePlayer}
    (hp : p ∈ g.gameplayer.pairs) : p.2.uid = p.1 :=
  h.gameplayer_uid p.1 p.2 (Table.get?_of_mem_pairs hp)

theorem Seated.players_of_pairs {g : Game} (h : Seated g) {p : Uid × GamePlayer}
    (hp : p ∈ g.gameplayer.pairs) : p.2.uid ∈ g.players := by
  rw [h.uid_of_pairs hp]
  exact h.gameplayer_players (Table.mem_of_mem_pairs hp)

/-- Is this a packet for a client? -/
def Out.isRelay : Out → Bool
  | .relay _ _ => true
  | _ => false

/-- What is sent besides packets for clients: events for agents, answers to
calls, records for other services. -/
def direct (o : List Out) : List Out := o.filter fun x => !x.isRelay

@[simp] theorem direct_append (o o' : List Out) : direct (o ++ o') = direct o ++ direct o' :=
  List.filter_append _ _

theorem direct_map_send {α : Type*} (l : List α) (p : α → Player) (e : α → AgentEvent) :
    direct (l.map fun a => Out.send (p a) (e a)) = l.map fun a => Out.send (p a) (e a) := by
  refine List.filter_eq_self.mpr fun x hx => ?_
  obtain ⟨a, _, rfl⟩ := List.mem_map.mp hx
  rfl

/-- The answer a message is, if it is one. -/
def Out.reply? : Out → Option Reply
  | .ret r => some r
  | _ => none

/-- The answers to calls among what is sent. -/
def rets (o : List Out) : List Reply := o.filterMap Out.reply?

@[simp] theorem rets_nil : rets [] = [] := rfl

@[simp] theorem rets_append (o o' : List Out) : rets (o ++ o') = rets o ++ rets o' :=
  List.filterMap_append

theorem rets_direct (o : List Out) : rets (direct o) = rets o := by
  unfold rets direct
  rw [List.filterMap_filter]
  refine congrArg (List.filterMap · o) (funext fun x => ?_)
  cases x <;> rfl

theorem rets_of_direct_nil {o : List Out} (h : direct o = []) : rets o = [] := by
  rw [← rets_direct, h, rets_nil]

theorem rets_map_send {α : Type*} (l : List α) (p : α → Player) (e : α → AgentEvent) :
    rets (l.map fun a => Out.send (p a) (e a)) = [] := by
  refine List.filterMap_eq_nil_iff.mpr fun x hx => ?_
  obtain ⟨a, _, rfl⟩ := List.mem_map.mp hx
  rfl

/-- The amount a message credits to a player, if it credits one. -/
def Out.credit? : Out → Option ℚ
  | .send _ (.addMoney money _) => some money
  | _ => none

/-- What is credited to players altogether. -/
def credited (o : List Out) : ℚ := (o.filterMap Out.credit?).sum

@[simp] theorem credited_append (o o' : List Out) :
    credited (o ++ o') = credited o + credited o' := by
  simp [credited, List.filterMap_append]

@[simp] theorem credited_addMoney (p : Player) (money : ℚ) (c : Option String) :
    credited [.send p (.addMoney money c)] = money := by simp [credited, Out.credit?]

@[simp] theorem credited_playOneMatch (p : Player) (a : ℤ) (c : List Card) (t : ℤ) :
    credited [.send p (.playOneMatch a c t)] = 0 := rfl

/-! ## Sending -/

/-- The entry of `players` a message to `uid` is addressed by. -/
def playerOf (g : Game) (uid : Uid) : Player := (g.players.get? uid).getD ⟨uid, 0⟩

@[simp] theorem direct_broadcastOut (g : Game) (e : Option Uid) (m : Smsg) :
    direct (g.broadcastOut e m) = [] := by
  refine List.filter_eq_nil_iff.mpr fun x hx => ?_
  obtain ⟨p, _, hp⟩ := List.mem_filterMap.mp hx
  split at hp
  · cases hp
  · cases hp
    exact Bool.false_ne_true

theorem sendTo_spec (g : Game) (uid : Uid) (m : Smsg) :
    ∃ o, direct o = [] ∧ g.sendTo uid m = g.emit o := by
  unfold sendTo
  cases g.players.get? uid with
  | none => exact ⟨[], rfl, by simp [emit]⟩
  | some p => exact ⟨[.relay p m], rfl, rfl⟩

/-- Who enters is told of the table, and nobody else hears of it. -/
theorem pretreat_enter (env : Env) (g : Game) (uid : Uid) (address : Address) :
    ∃ players o, direct o = [] ∧ g.pretreat env uid address .someOneEnter =
      ({ g with players := players } : Game).emit o := by
  obtain ⟨players, msg, henter⟩ : ∃ players msg, g.pretreat env uid address .someOneEnter =
      ({ g with players := players } : Game).sendTo uid msg := ⟨_, _, rfl⟩
  obtain ⟨o, ho, hsend⟩ := sendTo_spec { g with players := players } uid msg
  exact ⟨players, o, ho, henter.trans hsend⟩

theorem addMoney_ok {g : Game} {uid : Uid} (h : uid ∈ g.players) (money : ℚ) :
    g.addMoney uid money = g.emit [.send (g.playerOf uid) (.addMoney money g.tablelog.cardsid)] := by
  obtain ⟨p, hp⟩ := Table.mem_iff_get?.mp h
  simp only [addMoney, playerOf, hp, Option.getD_some]

theorem sendAgent_ok {g : Game} {uid : Uid} (h : uid ∈ g.players) (e : AgentEvent) :
    g.sendAgent uid e = .ok (g.emit [.send (g.playerOf uid) e]) := by
  obtain ⟨p, hp⟩ := Table.mem_iff_get?.mp h
  simp only [sendAgent, playerOf, hp, Handler.index_some, Handler.ok_bind, Option.getD_some]
  rfl

/-- A loop that sends an event to each listed player's agent. -/
theorem sendAgents_ok {g : Game} {f : Game → Uid × GamePlayer → Result}
    {ev : Uid × GamePlayer → AgentEvent}
    (hf : ∀ o p, f (g.emit o) p = (g.emit o).sendAgent p.2.uid (ev p))
    {l : List (Uid × GamePlayer)} (hl : ∀ p ∈ l, p.2.uid ∈ g.players) :
    l.foldlM f g = .ok (g.emit (l.map fun p => .send (g.playerOf p.2.uid) (ev p))) := by
  obtain ⟨t, ht, rfl⟩ := Handler.foldlM_rounds_ok (f := f) (l := l) (s := g)
    (I := fun done s => s = g.emit (done.map fun p => .send (g.playerOf p.2.uid) (ev p)))
    (by
      rintro done p rest s hsplit rfl
      have hp : p.2.uid ∈ g.players := hl p (by rw [hsplit]; simp)
      have hsend := sendAgent_ok
        (g := g.emit (done.map fun p => .send (g.playerOf p.2.uid) (ev p))) hp (ev p)
      refine ⟨_, (hf _ p).trans hsend, ?_⟩
      simp [emit, playerOf])
    (by simp [emit])
  exact ht

/-- A loop that only relays packets. -/
theorem foldl_relay {α : Type*} {f : Game → α → Game}
    (hf : ∀ g a, ∃ o, direct o = [] ∧ f g a = g.emit o) (l : List α) (g : Game) :
    ∃ o, direct o = [] ∧ l.foldl f g = g.emit o := by
  induction l generalizing g with
  | nil => exact ⟨[], rfl, by simp [emit]⟩
  | cons a rest ih =>
    obtain ⟨o, ho, hfo⟩ := hf g a
    obtain ⟨o', ho', hrest⟩ := ih (g.emit o)
    refine ⟨o ++ o', by rw [direct_append, ho, ho']; rfl, ?_⟩
    rw [List.foldl_cons, hfo, hrest]
    simp [emit]

/-! ## Opening a round -/

/-- The events `TakeFee` sends: one for every player of the round, unless the
room is free of charge. -/
def feeEvents (g : Game) : List Out :=
  if g.gameconf.ticket ≠ 0 then
    g.gameplayer.pairs.map fun p => .send (g.playerOf p.2.uid)
      (.takeFee (g.feeOf p.1) ⟨g.feeOf p.1, g.gameconf.gametype, g.gameconf.roomtype,
        g.gameconf.basebet⟩)
  else []

/-- The banker's money after the fee. -/
def moneyAfterFee (g : Game) : ℚ :=
  if g.gameconf.ticket ≠ 0 then g.bankermoney - g.lastFee else g.bankermoney

theorem takeFee_spec {g : Game} (h : Seated g) :
    ∃ o, direct o = g.feeEvents ∧ g.takeFee = .ok { g with
        calls := g.calls ++ [.takeFee]
        outbox := g.outbox ++ o
        bankermoney := g.moneyAfterFee } := by
  unfold takeFee moneyAfterFee
  by_cases ht : g.gameconf.ticket ≠ 0
  · have hfees : g.feeEvents = _ := if_pos ht
    have hloop : g.gameplayer.pairs.foldlM (fun g p => takeFeeFrom g p.1 p.2) (g.enter .takeFee)
        = .ok ((g.enter .takeFee).emit g.feeEvents) := by
      rw [hfees]
      exact sendAgents_ok (fun _ _ => rfl) fun p hp => h.players_of_pairs hp
    refine ⟨g.feeEvents ++ g.broadcastOut none (.takeFee g.gameplayer.keys
      ⌊g.gameconf.ticket * g.gameconf.basebet + 1 / 2⌋
      ⌊g.gameconf.bankerticket * g.gameconf.basebet + 1 / 2⌋), ?_,
      (if_pos ht).trans ((Handler.bind_of_ok hloop _).trans ?_)⟩
    · rw [direct_append, direct_broadcastOut, List.append_nil, hfees, direct_map_send]
    · rw [← List.append_assoc, if_pos ht]
      rfl
  · refine ⟨[], (if_neg ht).symm, (if_neg ht).trans ?_⟩
    rw [List.append_nil, if_neg ht]
    rfl

/-- Opening the betting: the fee is taken, the bet timer started, the cap set
from what the banker can cover. -/
theorem notifyBet_spec (env : Env) {g : Game} (h : Seated g) :
    ∃ o, direct o = g.feeEvents ∧ g.notifyBet env = .ok { g with
        calls := g.calls ++ [.notifyBet, .takeFee]
        curstate := .waitBet
        timers := g.timers.start .bet (g.gameconf.bettime * 100)
        starttime := env.now
        outbox := g.outbox ++ o
        bankermoney := g.moneyAfterFee
        playcount := g.playcount + 1
        topupling := topUpling env.upling
          ⌊g.moneyAfterFee / ((g.gameplayer.size : ℚ) * g.gameconf.basebet)⌋ g.topupling } := by
  have hs : Seated { ((g.enter .notifyBet).changeState .waitBet).addTimer .bet
      g.gameconf.bettime with starttime := env.now } := ⟨h.1, h.2, h.3, h.4, h.5⟩
  obtain ⟨o, ho, hfee⟩ := takeFee_spec hs
  refine ⟨o ++ g.broadcastOut none (.notifyBet g.gameconf.bettime),
    by rw [direct_append, direct_broadcastOut, List.append_nil, ho]; rfl, ?_⟩
  unfold notifyBet
  refine (Handler.bind_of_ok hfee _).trans ?_
  rw [← List.append_assoc, show g.calls ++ [.notifyBet, .takeFee]
    = g.calls ++ [.notifyBet] ++ [.takeFee] by simp]
  rfl

/-- The events that ask the players of the round for their money. -/
def moneyRequests (g : Game) : List Out :=
  g.gameplayer.pairs.map fun p => .send (g.playerOf p.2.uid) .getMoney

/-- The ways `CheckStartGame` goes on: too few are seated, the bank is offered,
the choice of the banker is shown first, or betting opens. -/
inductive Opening (env : Env) (g : Game) : Game → Prop
  | close : g.sitnum < 2 → Opening env g { g with
      timers := g.timers.removeAll
      gameplayer := .empty
      curstate := .waitPlayer }
  | grab (o : List Out) : 2 ≤ g.sitnum → g.needgrabbanker = true →
      direct o = g.moneyRequests →
      Opening env g { g with
        curstate := .grabTheBanker
        timers := g.timers.start .grabBanker (g.gameconf.grabbankertime * 100)
        outbox := g.outbox ++ o }
  | animate : 2 ≤ g.sitnum → g.needgrabbanker = false →
      g.bankersourcetype = 1 ∨ g.bankersourcetype = 2 → Opening env g { g with
        curstate := .waitBet
        timers := g.timers.start .waitBet (g.gameconf.waitbettime * 100)
        bankersourcetype := 0 }
  | bet (o : List Out) : 2 ≤ g.sitnum → g.needgrabbanker = false → direct o = g.feeEvents →
      Opening env g { g with
        calls := g.calls ++ [.notifyBet, .takeFee]
        curstate := .waitBet
        timers := g.timers.start .bet (g.gameconf.bettime * 100)
        starttime := env.now
        outbox := g.outbox ++ o
        bankermoney := g.moneyAfterFee
        playcount := g.playcount + 1
        topupling := topUpling env.upling
          ⌊g.moneyAfterFee / ((g.gameplayer.size : ℚ) * g.gameconf.basebet)⌋ g.topupling
        bankersourcetype := 0 }

theorem checkStartGame_spec (env : Env) {g : Game} (h : Seated g) :
    ∃ t, g.checkStartGame env = .ok t ∧ Opening env g t := by
  unfold checkStartGame
  by_cases hsit : g.sitnum ≥ 2
  · cases hneed : g.needgrabbanker with
    | false =>
      by_cases hsource : g.bankersourcetype = 1 ∨ g.bankersourcetype = 2
      · have hopen : (g.changeState .waitBet).openBet env = .ok _ := if_pos hsource
        exact ⟨_, (if_pos hsit).trans ((if_pos (by simp)).trans (Handler.bind_of_ok hopen _)),
          .animate hsit hneed hsource⟩
      · have hs : Seated (g.changeState .waitBet) := ⟨h.1, h.2, h.3, h.4, h.5⟩
        obtain ⟨o, ho, hbet⟩ := notifyBet_spec env hs
        have hopen : (g.changeState .waitBet).openBet env = .ok _ := (if_neg hsource).trans hbet
        exact ⟨_, (if_pos hsit).trans ((if_pos (by simp)).trans (Handler.bind_of_ok hopen _)),
          .bet o hsit hneed ho⟩
    | true =>
      have hloop : g.gameplayer.pairs.foldlM (fun g p => g.sendAgent p.2.uid .getMoney)
          ((g.changeState .grabTheBanker).addTimer .grabBanker g.gameconf.grabbankertime)
          = .ok (Game.emit _ g.moneyRequests) :=
        sendAgents_ok (fun _ _ => rfl) fun p hp => h.players_of_pairs hp
      refine ⟨_, (if_pos hsit).trans ((if_neg (by simp)).trans
        (Handler.bind_of_ok hloop _)), ?_⟩
      have hopen : Opening env g _ := .grab (g.moneyRequests ++ g.broadcastOut none
        (.grabBanker g.gameconf.grabbankertime g.grabresontype)) hsit hneed
        (by rw [direct_append, direct_broadcastOut, List.append_nil, moneyRequests,
          direct_map_send])
      rw [← List.append_assoc] at hopen
      exact hopen
  · exact ⟨_, if_neg hsit, .close (by omega)⟩

end Game

end DnServer.Bullfight
