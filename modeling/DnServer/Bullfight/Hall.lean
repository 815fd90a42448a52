import DnServer.Bullfight.Agent.Solvent
import DnServer.Bullfight.Game.Account

/-!
# A table and its agents

The game settles a round against what agents have told it of their money. Between such a
report and the result that comes of it the agent goes on with its other messages: only a
loser's agent sets `lockmoney` meanwhile, `RedPacket` clears it, and `LoseMoney` refuses
in silence what the wallet does not have any more. `Tally` keeps what the game computed
for each agent beside what its wallet changed by.

* `kept_handles`: what an agent makes of an event of the game is covered if the event's
  money is, each handler by its run up to the next call.
* `honoured_iff_covered`: an agent that settles changes its wallet by what it is told if
  the wallet has it (`honoured_settle_iff`); the other events of a run change neither
  side of the tally.
-/

namespace DnServer.Bullfight

open DnServer.Lib
open Agent (WalletMessage Solvent Request)

/-! ## Events of the game -/

namespace Agent

/-- `UpdateGameconf`. -/
def UpdateGameconf (conf : Option RoomService.RoomConf) : Handler Unit := do
  let s ← Co.read
  if s.roomid.isSome then Co.write fun s => { s with roomconf := conf }

/-- `SendSelfMoneyToGame`. -/
def SendSelfMoneyToGame (s : State) : List Game.Msg :=
  if s.gameServed then [.playerMoney s.money] else []

/-- `SendBankerMoneyToGame`. -/
def SendBankerMoneyToGame (s : State) : List Game.Msg :=
  if s.gameServed then [.bankerMoney s.money] else []

/-- The handler of an event of the game. What a match does for the player's tasks and which
configuration the room has are left open. -/
inductive Handles : Game.AgentEvent → Handler Unit → Prop
  | addMoney (money cardsid) : Handles (.addMoney money cardsid) (EventAddMoney money)
  | takeFee (fee backconf) : Handles (.takeFee fee backconf) (TakeFee fee)
  | loser : Handles .notifyLoserGetResult LoserGetResult
  | oneMatch (totaladd cards pokertype dayplay honor talker) :
      Handles (.playOneMatch totaladd cards pokertype) (PlayOneMatch dayplay honor talker)
  | kick (timeouted) : Handles (.kickForGameOver timeouted) (KickForGameOver timeouted)
  | update (conf roomconf) : Handles (.updateGameconf conf) (UpdateGameconf roomconf)
  | getMoney : Handles .getMoney (pure ())
  | getBankerMoney : Handles .getBankerMoney (pure ())

/-- What the handlers of the last two send to the game. -/
def reported (s : State) : Game.AgentEvent → List Game.Msg
  | .getMoney => SendSelfMoneyToGame s
  | .getBankerMoney => SendBankerMoneyToGame s
  | _ => []

/-- The question that a handler has stopped at, if it is one to the game for a loser. -/
def asked : Co.Stop State Message Request Request.answer Unit → List Game.Msg
  | .call (.EVENT_LOSER_GET_RESULT money) _ => [.loserGetResult money]
  | _ => []

/-- The message does not come from the game. -/
def WalletMessage.Foreign : WalletMessage → Prop
  | .seat (.EVENT_KICK_FOR_GAME_OVER _) => False
  | .EVENT_ADD_MONEY _ => False
  | .EVENT_TAKE_FEE _ => False
  | .EVENT_NOTIFY_LOSER_GET_RESULT => False
  | .EVENT_PLAY_ONE_MATCH _ _ _ => False
  | _ => True

end Agent

namespace Game

/-- The events for one player's agent among what is sent. -/
def eventsTo (uid : Uid) (outs : List Out) : List AgentEvent :=
  outs.filterMap fun
    | .send p e => if p.uid = uid then some e else none
    | _ => none

/-- Whose message it is. -/
def Event.caller : Event → Option Uid
  | .msg uid _ _ => some uid
  | _ => none

/-- An agent's report of what it has. -/
def Event.isReport : Event → Bool
  | .msg _ _ (.playerMoney _) => true
  | .msg _ _ (.loserGetResult _) => true
  | .msg _ _ (.bankerMoney _) => true
  | _ => false

/-- What an event is to change the wallet by. -/
def AgentEvent.winmoney : AgentEvent → ℚ
  | .addMoney money _ => money
  | _ => 0

/-- What a dispatch computes for a player: the winnings it sends, less the loss it answers. -/
def computedFor (caller : Option Uid) (outs : List Out) (uid : Uid) : ℚ :=
  ((eventsTo uid outs).map AgentEvent.winmoney).sum -
    if caller = some uid then (told outs).sum else 0

end Game

/-! ## The hall -/

/-- The game, the agents, and what is under way between them. -/
structure Hall where
  game : Game
  agent : Uid → Service Agent.State Agent.Message Request Request.answer
  /-- Events of the game for each agent. -/
  events : Uid → List Game.AgentEvent
  /-- What agents have reported to the game: who, from where, what. -/
  reports : List (Uid × Address × Game.Msg)
  /-- The game's answers to each agent's `EVENT_LOSER_GET_RESULT`. What is left of the handlers
  that wait for one is the same for all, so it does not matter which of them gets it. -/
  answers : Uid → List ℚ

namespace Hall

/-- A handler of the agent, with the service as `S`, goes on up to its end or its next call. -/
def go (H : Hall) (uid : Uid) (S : Service Agent.State Agent.Message Request Request.answer)
    (c : Agent.Handler Unit) : Hall :=
  { H with
    agent := Function.update H.agent uid (S.run c)
    reports := H.reports ++
      (Agent.asked (c.advance S.state).1).map fun m => (uid, S.state.address, m) }

/-- The agent takes the event `e` of the game, `rest` coming after it. -/
def take (H : Hall) (uid : Uid) (e : Game.AgentEvent) (rest : List Game.AgentEvent)
    (c : Agent.Handler Unit) : Hall :=
  let s := (H.agent uid).state
  { H.go uid (H.agent uid) c with
    events := Function.update H.events uid rest
    reports := (H.go uid (H.agent uid) c).reports ++
      (Agent.reported s e).map fun m => (uid, s.address, m) }

/-- The game has come to `t` by a message of `caller`. -/
def played (H : Hall) (caller : Option Uid) (t : Game) : Hall :=
  { H with
    game := t
    events := fun uid => H.events uid ++ Game.eventsTo uid t.outbox
    answers := fun uid =>
      if caller = some uid then H.answers uid ++ Game.told t.outbox else H.answers uid }

inductive Event
  /-- A client's message, or one of another service. -/
  | start (uid : Uid) (m : WalletMessage)
  | resume (uid : Uid)
  | answer (uid : Uid)
  /-- A handler that leaves the money alone. -/
  | other (uid : Uid)
  /-- The agent takes the next event of the game. -/
  | take (uid : Uid)
  /-- A loser's agent has its answer. -/
  | settle (uid : Uid) (losemoney : ℚ)
  | game (e : Game.Event)
  /-- The game takes a report. -/
  | report (uid : Uid) (m : Game.Msg)

/-- One step. What else players send to the game may be anything it can receive. -/
inductive Step : Hall → Event → Hall → Prop
  | start {H : Hall} (uid : Uid) (m : WalletMessage) : (H.agent uid).Free → m.Foreign →
      Step H (.start uid m) (H.go uid (H.agent uid) m.handle)
  | resume {H : Hall} {uid : Uid} {pre post i k} (r : i.answer) : (H.agent uid).Free → i.Plain →
      (H.agent uid).waiting = pre ++ ⟨i, k⟩ :: post →
      Step H (.resume uid) (H.go uid { H.agent uid with waiting := pre ++ post } (k r))
  | answer {H : Hall} {uid : Uid} {i k} (r : i.answer) : (H.agent uid).holding = some ⟨i, k⟩ →
      Step H (.answer uid) (H.go uid { H.agent uid with holding := none } (k r))
  | other {H : Hall} {uid : Uid} {t : Agent.State} : (H.agent uid).Free →
      Agent.SameMoney (H.agent uid).state t → Step H (.other uid)
        { H with agent := Function.update H.agent uid { H.agent uid with state := t } }
  | take {H : Hall} {uid : Uid} {e rest c} : (H.agent uid).Free → H.events uid = e :: rest →
      Agent.Handles e c → Step H (.take uid) (H.take uid e rest c)
  | settle {H : Hall} {uid : Uid} {pre post money k before after losemoney} :
      (H.agent uid).Free →
      (H.agent uid).waiting = pre ++ ⟨.EVENT_LOSER_GET_RESULT money, k⟩ :: post →
      H.answers uid = before ++ losemoney :: after → Step H (.settle uid losemoney)
        { H.go uid { H.agent uid with waiting := pre ++ post } (k losemoney) with
          answers := Function.update H.answers uid (before ++ after) }
  | game {H : Hall} {e : Game.Event} {t : Game} : ¬e.isReport → Game.Step H.game e t →
      Step H (.game e) (H.played e.caller t)
  | report {H : Hall} {before after uid address m} (env : Game.Env) :
      H.reports = before ++ (uid, address, m) :: after → Step H (.report uid m)
        ({ H with reports := before ++ after }.played (some uid)
          (Handler.after (H.game.dispatch env uid address m)))

/-- The table is new, no agent is in debt, and nothing waits or is under way. -/
structure Opens (H : Hall) : Prop where
  game : Game.system.init H.game
  money : ∀ uid, 0 ≤ (H.agent uid).state.money
  waiting : ∀ uid, (H.agent uid).waiting = []
  holding : ∀ uid, (H.agent uid).holding = none
  events : ∀ uid, H.events uid = []
  reports : H.reports = []
  answers : ∀ uid, H.answers uid = []

def hall : TSys Hall Event where
  init := Opens
  step := Step

/-! ## The tally -/

/-- What the game computed for each agent, and what the agent's wallet changed by when it took
the result. -/
structure Tally where
  computed : Uid → ℚ
  changed : Uid → ℚ

def Tally.start : Tally := ⟨fun _ => 0, fun _ => 0⟩

/-- Whose wallet takes a result of the game in this step. -/
def settling (H : Hall) : Event → Option Uid
  | .take uid =>
    match H.events uid with
    | .addMoney _ _ :: _ => some uid
    | _ => none
  | .settle uid _ => some uid
  | _ => none

/-- What the game computes in this step. -/
def computing (H' : Hall) : Event → Uid → ℚ
  | .game e, uid => Game.computedFor e.caller H'.game.outbox uid
  | .report caller _, uid => Game.computedFor (some caller) H'.game.outbox uid
  | _, _ => 0

def money (H : Hall) (uid : Uid) : ℚ := (H.agent uid).state.money

def noteTally (H : Hall) (e : Event) (H' : Hall) (T : Tally) : Tally where
  computed uid := T.computed uid + computing H' e uid
  changed uid :=
    T.changed uid + if settling H e = some uid then H'.money uid - H.money uid else 0

def ledger : TSys (Hall × Tally) Event := hall.observe (fun _ => .start) noteTally

/-- The results on their way to an agent. -/
def pending (H : Hall) (uid : Uid) : ℚ :=
  ((H.events uid).map Game.AgentEvent.winmoney).sum - (H.answers uid).sum

/-- Each wallet has changed by what the game computed and has arrived, and is not in debt. -/
def Honoured (p : Hall × Tally) : Prop :=
  ∀ uid, p.2.changed uid + p.1.pending uid = p.2.computed uid ∧ 0 ≤ p.1.money uid

/-- The player is known and in a room: the day's loss has an account. -/
def InRoom (s : Agent.State) : Prop := s.uid.isSome ∧ s.roomid.isSome

instance (s : Agent.State) : Decidable (InRoom s) := inferInstanceAs (Decidable (_ ∧ _))

/-- The wallet covers what the step takes from it: a result of the game in the state it arrives
in, and what other messages credit below zero. -/
def Covered (H : Hall) : Event → Prop
  | .start uid m => Agent.Bears (H.agent uid).state m
  | .take uid => ∀ winmoney cardsid rest, H.events uid = .addMoney winmoney cardsid :: rest →
      0 ≤ H.money uid + winmoney ∧ (winmoney = 0 ∨ InRoom (H.agent uid).state)
  | .settle uid losemoney =>
    losemoney = 0 ∨ losemoney ≤ H.money uid ∧ InRoom (H.agent uid).state
  | _ => True

/-! ## What a settlement does to the wallet -/

/-- What is left of `LoserGetResult` when the game has answered. -/
def loserAnswered (losemoney : ℚ) : Agent.Handler Unit := do
  Agent.LoseMoney losemoney .table_win
  Co.write fun s => { s with lockmoney := false }

/-- `LoserGetResult` of an agent whose game is served stops at its question. -/
theorem advance_LoserGetResult {s : Agent.State} (h : s.gameServed = true) :
    Agent.LoserGetResult.advance s =
      (.call (.EVENT_LOSER_GET_RESULT s.money) loserAnswered, { s with lockmoney := true }) := by
  have hasked : (Agent.askGame (do
      let losemoney ← (Co.await (Request.EVENT_LOSER_GET_RESULT s.money) : Agent.Handler ℚ)
      pure (some losemoney))).advance { s with lockmoney := true } =
      (.call (.EVENT_LOSER_GET_RESULT s.money) fun l => pure (some l),
        { s with lockmoney := true }) := by
    have hserved : ({ s with lockmoney := true } : Agent.State).gameServed = true := h
    unfold Agent.askGame
    rw [Co.advance_read_bind, if_pos hserved]
    rfl
  unfold Agent.LoserGetResult
  rw [Co.advance_write_bind, Co.advance_read_bind]
  exact Co.advance_bind_of_call hasked _

/-- Without a game there is no question. -/
theorem keeps_LoserGetResult {s : Agent.State} (h : s.gameServed = false) :
    Agent.Keeps Agent.LoserGetResult s := by
  have hserved : ({ s with lockmoney := true } : Agent.State).gameServed = false := h
  simp [Agent.LoserGetResult, Agent.askGame, hserved]

/-- `AddMoney` and `LoseMoney` of a result fail where the day's loss has no account. -/
theorem countLose_result (s : Agent.State) (money : ℚ) :
    (InRoom s ∧ ∃ t, t.money = s.money ∧
      (Agent.countLose money .table_win).advance s = (.done (), t)) ∨
    ¬InRoom s ∧ (Agent.countLose money .table_win).advance s = (.raised, s) := by
  obtain ⟨hid, -⟩ | ⟨-, uid, roomid, huid, hroom, hcount⟩ | ⟨-, hnone, hcount⟩ :=
    Agent.countLose_advance s money .table_win
  · cases hid
  · refine .inl ⟨⟨?_, ?_⟩, _, ?_, hcount⟩
    · rw [huid]
      rfl
    · rw [hroom]
      rfl
    · rfl
  · exact .inr ⟨hnone, hcount⟩

theorem advance_EventAddMoney (s : Agent.State) (money : ℚ) :
    ((Agent.EventAddMoney money).advance s).2.money =
      s.money + if InRoom s then money else 0 := by
  have hrun : Agent.EventAddMoney money =
      (Agent.countLose money .table_win >>= fun _ => Co.write fun s => s.credit money) := rfl
  rw [hrun]
  obtain ⟨hin, t, ht, hcount⟩ | ⟨hout, hcount⟩ := countLose_result s money
  · rw [Co.advance_bind_of_done hcount, Co.advance_write, if_pos hin, ← ht]
    exact (Agent.credit_moved t money).money
  · rw [Co.advance_bind_of_raised hcount, if_neg hout, add_zero]

theorem advance_loserAnswered (s : Agent.State) (losemoney : ℚ) :
    ((loserAnswered losemoney).advance s).2.money =
      s.money - if losemoney ≤ s.money ∧ InRoom s then losemoney else 0 := by
  have hlose : Agent.LoseMoney losemoney .table_win =
      (Agent.countLose (-losemoney) .table_win >>= fun _ => Agent.payOut losemoney) := rfl
  unfold loserAnswered
  rw [hlose]
  obtain ⟨hin, t, ht, hcount⟩ | ⟨hout, hcount⟩ := countLose_result s (-losemoney)
  · have hpaid := (Co.advance_bind_of_done hcount fun _ => Agent.payOut losemoney).trans
      (Agent.payOut_advance losemoney t)
    rw [Co.advance_bind_of_done hpaid, Co.advance_write, ← ht]
    by_cases hshort : losemoney > t.money
    · rw [if_pos hshort, if_neg fun h => absurd h.1 (not_le.mpr hshort), sub_zero]
    · rw [if_neg hshort, if_pos ⟨not_lt.mp hshort, hin⟩, sub_eq_add_neg]
      exact (Agent.credit_moved t (-losemoney)).money
  · have hraised := Co.advance_bind_of_raised hcount fun _ => Agent.payOut losemoney
    rw [Co.advance_bind_of_raised hraised, if_neg fun h => hout h.2, sub_zero]

/-! ## The agents -/

/-- The handler waits for a loser's result. -/
def AwaitsResult (c : (i : Request) × (i.answer → Agent.Handler Unit)) : Prop :=
  ∃ money, c = ⟨.EVENT_LOSER_GET_RESULT money, loserAnswered⟩

/-- No handler of the agent that waits overdraws, whatever it is answered. -/
abbrev Kept (S : Service Agent.State Agent.Message Request Request.answer) : Prop :=
  Service.Kept Agent.solvent AwaitsResult S

section Agents

variable {S : Service Agent.State Agent.Message Request Request.answer}

theorem kept_run (hS : Kept S) (hfree : S.holding = none) {c : Agent.Handler Unit}
    (hc : Agent.Keeps c S.state) : Kept (S.run c) ∧ Solvent S.state (S.run c).state :=
  hS.run Solvent.refl (fun _ _ _ => Solvent.trans) hfree hc

/-- The agent of a loser waits for the game, or has none to wait for. -/
theorem kept_LoserGetResult (hS : Kept S) (hfree : S.holding = none) :
    Kept (S.run Agent.LoserGetResult) ∧ Solvent S.state (S.run Agent.LoserGetResult).state := by
  cases hserved : S.state.gameServed with
  | false => exact kept_run hS hfree (keeps_LoserGetResult hserved)
  | true =>
    unfold Service.run
    rw [advance_LoserGetResult hserved]
    refine ⟨⟨fun c hc => ?_, fun c hc => ?_⟩, fun h => h⟩
    · rcases List.mem_append.mp hc with hc | hc
      · exact hS.waiting c hc
      · exact .own ⟨_, List.mem_singleton.mp hc⟩
    · have hc : S.holding = some c := hc
      rw [hfree] at hc
      cases hc

/-- What the agent makes of an event of the game is covered if the event's money is. -/
theorem kept_handles (hS : Kept S) (hfree : S.holding = none) {e : Game.AgentEvent}
    {c : Agent.Handler Unit} (hc : Agent.Handles e c) (h : 0 ≤ S.state.money + e.winmoney) :
    Kept (S.run c) ∧ Solvent S.state (S.run c).state := by
  cases hc with
  | addMoney money cardsid => exact kept_run hS hfree (Agent.keeps_EventAddMoney money h)
  | takeFee fee backconf => exact kept_run hS hfree (Agent.keeps_TakeFee _)
  | loser => exact kept_LoserGetResult hS hfree
  | oneMatch => exact kept_run hS hfree (Agent.keeps_PlayOneMatch _ _ _)
  | kick timeouted => exact kept_run hS hfree (Agent.keeps_KickForGameOver timeouted)
  | update conf roomconf => exact kept_run hS hfree (by simp [Agent.UpdateGameconf])
  | getMoney => exact kept_run hS hfree trivial
  | getBankerMoney => exact kept_run hS hfree trivial

theorem keeps_loserAnswered (losemoney : ℚ) (s : Agent.State) :
    Agent.Keeps (loserAnswered losemoney) s := by
  simp [loserAnswered]

/-- The handlers that wait for a result are all alike. -/
theorem awaited (hS : Kept S) {pre post money k}
    (hwait : S.waiting = pre ++ ⟨.EVENT_LOSER_GET_RESULT money, k⟩ :: post) :
    k = loserAnswered := by
  have hmem : ⟨.EVENT_LOSER_GET_RESULT money, k⟩ ∈ S.waiting := by
    rw [hwait]
    exact List.mem_append_right _ List.mem_cons_self
  cases hS.waiting _ hmem with
  | own h =>
    obtain ⟨money', h⟩ := h
    cases h
    rfl
  | rest hplain => exact hplain.elim

/-- Any other handler that waits keeps to the rules. -/
theorem waiting_keeps (hS : Kept S) {pre post i k} (hplain : i.Plain)
    (hwait : S.waiting = pre ++ ⟨i, k⟩ :: post) (r : i.answer) (s : Agent.State) :
    Agent.Keeps (k r) s := by
  have hmem : ⟨i, k⟩ ∈ S.waiting := by
    rw [hwait]
    exact List.mem_append_right _ List.mem_cons_self
  cases hS.waiting _ hmem with
  | own h =>
    obtain ⟨money, h⟩ := h
    cases h
    exact hplain.elim
  | rest _ hk => exact hk r s

end Agents

/-! ## The balance of a step -/

section Balance

variable {H H' : Hall} {T : Tally} {e : Event}

/-- What the game computes is on its way. -/
theorem pending_played (H : Hall) (caller : Option Uid) (t : Game) (uid : Uid) :
    (H.played caller t).pending uid =
      H.pending uid + Game.computedFor caller t.outbox uid := by
  have hevents : (H.played caller t).events uid =
      H.events uid ++ Game.eventsTo uid t.outbox := rfl
  have hanswers : (H.played caller t).answers uid =
      if caller = some uid then H.answers uid ++ Game.told t.outbox else H.answers uid := rfl
  unfold pending Game.computedFor
  rw [hevents, hanswers, List.map_append, List.sum_append]
  by_cases hcaller : caller = some uid
  · rw [if_pos hcaller, if_pos hcaller, List.sum_append]
    ring
  · rw [if_neg hcaller, if_neg hcaller]
    ring

/-- A step of the game leaves the wallets alone. -/
theorem Honoured.played (h : Honoured (H, T)) (hagent : H'.agent = H.agent)
    (hsettling : settling H e = none)
    (hpending : ∀ uid, H'.pending uid = H.pending uid + computing H' e uid) :
    Honoured (H', noteTally H e H' T) := by
  intro uid
  obtain ⟨hbalance, hmoney⟩ := h uid
  have hbalance : T.changed uid + H.pending uid = T.computed uid := hbalance
  refine ⟨?_, ?_⟩
  · show T.changed uid + (if settling H e = some uid then _ else 0) + H'.pending uid =
      T.computed uid + computing H' e uid
    rw [hsettling, if_neg (by simp), hpending, ← hbalance]
    ring
  · show 0 ≤ (H'.agent uid).state.money
    rw [hagent]
    exact hmoney

/-- A step of one agent leaves the books in order exactly if its wallet changes by the result it
takes and is not in debt. -/
theorem honoured_iff_of_agent (h : Honoured (H, T)) {uid : Uid}
    {S : Service Agent.State Agent.Message Request Request.answer}
    (hagent : H'.agent = Function.update H.agent uid S) (hcomputing : ∀ u, computing H' e u = 0)
    (hother : ∀ u, u ≠ uid → settling H e ≠ some u ∧ H'.pending u = H.pending u) :
    Honoured (H', noteTally H e H' T) ↔
      (if settling H e = some uid then S.state.money - H.money uid else 0) + H'.pending uid =
        H.pending uid ∧ 0 ≤ S.state.money := by
  have hbalance : ∀ u, T.changed u + H.pending u = T.computed u := fun u => (h u).1
  have hself : H'.agent uid = S := by rw [hagent, Function.update_self]
  have hchanged : ∀ u, (noteTally H e H' T).changed u =
      T.changed u + if settling H e = some u then H'.money u - H.money u else 0 := fun _ => rfl
  have hcomputed : ∀ u, (noteTally H e H' T).computed u = T.computed u := fun u => by
    show T.computed u + computing H' e u = T.computed u
    rw [hcomputing, add_zero]
  have hmoney : H'.money uid = S.state.money := by rw [money, hself]
  constructor
  · intro hq
    obtain ⟨hq, hdebt⟩ := hq uid
    have hq : (noteTally H e H' T).changed uid + H'.pending uid =
        (noteTally H e H' T).computed uid := hq
    rw [hchanged, hcomputed, ← hbalance, hmoney] at hq
    rw [hmoney] at hdebt
    exact ⟨by linarith, hdebt⟩
  · rintro ⟨hpaid, hdebt⟩ u
    show (noteTally H e H' T).changed u + H'.pending u = (noteTally H e H' T).computed u ∧ _
    rw [hchanged, hcomputed]
    by_cases hu : u = uid
    · subst hu
      rw [hmoney]
      exact ⟨by linarith [hbalance u], hdebt⟩
    · obtain ⟨hnot, hpend⟩ := hother u hu
      rw [if_neg hnot, hpend, add_zero, hbalance]
      refine ⟨rfl, ?_⟩
      show 0 ≤ (H'.agent u).state.money
      rw [hagent, Function.update_of_ne hu]
      exact (h u).2

end Balance

/-! ## The runs -/

/-- The books are in order, and no handler that waits can overdraw. -/
structure Sound (p : Hall × Tally) : Prop where
  honoured : Honoured p
  kept : ∀ uid, Kept (p.1.agent uid)

section Runs

variable {H H' : Hall} {T : Tally} {e : Event} {uid : Uid}

/-- What one agent does keeps the others as they are. -/
theorem kept_of_agent (h : ∀ u, Kept (H.agent u))
    {S : Service Agent.State Agent.Message Request Request.answer}
    (hagent : H'.agent = Function.update H.agent uid S) (hS : Kept S) (u : Uid) :
    Kept (H'.agent u) := by
  rw [hagent]
  by_cases hu : u = uid
  · subst hu
    rw [Function.update_self]
    exact hS
  · rw [Function.update_of_ne hu]
    exact h u

/-- A handler that keeps to the rules goes on, and no result is taken. -/
theorem Sound.go (h : Sound (H, T))
    {S S' : Service Agent.State Agent.Message Request Request.answer}
    (hagent : H'.agent = Function.update H.agent uid S') (hevents : H'.events = H.events)
    (hanswers : H'.answers = H.answers) (hsettling : settling H e = none)
    (hcomputing : ∀ u, computing H' e u = 0) (hstate : S.state = (H.agent uid).state)
    (hS : Kept S' ∧ Solvent S.state S'.state) : Sound (H', noteTally H e H' T) := by
  have hpending : ∀ u, H'.pending u = H.pending u := fun u => by
    unfold pending
    rw [hevents, hanswers]
  refine ⟨(honoured_iff_of_agent h.honoured hagent hcomputing fun u _ => ?_).mpr ⟨?_, ?_⟩,
    kept_of_agent h.kept hagent hS.1⟩
  · rw [hsettling]
    exact ⟨by simp, hpending u⟩
  · rw [hsettling, if_neg (by simp), hpending, zero_add]
  · refine hS.2 ?_
    rw [hstate]
    exact (h.honoured uid).2

/-- The event has left the mail. -/
theorem pending_take {ev rest} (c : Agent.Handler Unit) (hevents : H.events uid = ev :: rest) :
    (H.take uid ev rest c).pending uid = H.pending uid - ev.winmoney ∧
      ∀ u, u ≠ uid → (H.take uid ev rest c).pending u = H.pending u := by
  have hmail : (H.take uid ev rest c).events = Function.update H.events uid rest := rfl
  have hanswers : (H.take uid ev rest c).answers = H.answers := rfl
  refine ⟨?_, fun u hu => ?_⟩
  · unfold pending
    rw [hmail, hanswers, Function.update_self, hevents, List.map_cons, List.sum_cons]
    ring
  · unfold pending
    rw [hmail, hanswers, Function.update_of_ne hu]

/-- The agent takes an event of the game: the books stay in order exactly if its money is
covered. -/
theorem honoured_take_iff (h : Sound (H, T)) {ev rest c} (hfree : (H.agent uid).Free)
    (hevents : H.events uid = ev :: rest) (hc : Agent.Handles ev c) :
    Honoured (H.take uid ev rest c, noteTally H (.take uid) (H.take uid ev rest c) T) ↔
      Covered H (.take uid) := by
  have hagent : (H.take uid ev rest c).agent =
      Function.update H.agent uid ((H.agent uid).run c) := rfl
  obtain ⟨hpending, hother⟩ := pending_take c hevents
  by_cases hadd : ∃ winmoney cardsid, ev = .addMoney winmoney cardsid
  · obtain ⟨winmoney, cardsid, rfl⟩ := hadd
    cases hc
    have hsettling : settling H (.take uid) = some uid := by
      unfold settling
      simp only [hevents]
    have hmoney : ((H.agent uid).run (Agent.EventAddMoney winmoney)).state.money =
        H.money uid + if InRoom (H.agent uid).state then winmoney else 0 := by
      rw [Service.run_state, advance_EventAddMoney]
      rfl
    have hiff := honoured_iff_of_agent (T := T) (e := .take uid) h.honoured hagent (fun _ => rfl)
      fun u hu => ⟨by rw [hsettling]; simpa using Ne.symm hu, hother u hu⟩
    rw [hiff, if_pos hsettling, hpending, hmoney]
    have hwin : (Game.AgentEvent.addMoney winmoney cardsid).winmoney = winmoney := rfl
    rw [hwin]
    constructor
    · rintro ⟨hpaid, hdebt⟩ winmoney' cardsid' rest' heq
      rw [hevents] at heq
      cases heq
      by_cases hin : InRoom (H.agent uid).state
      · rw [if_pos hin] at hdebt
        exact ⟨hdebt, .inr hin⟩
      · rw [if_neg hin] at hpaid hdebt
        have hzero : winmoney = 0 := by linarith
        rw [hzero]
        exact ⟨hdebt, .inl rfl⟩
    · intro hcovered
      obtain ⟨hdebt, hroom⟩ := hcovered _ _ _ hevents
      have hpaid : (if InRoom (H.agent uid).state then winmoney else 0) = winmoney := by
        rcases hroom with hzero | hin
        · rw [hzero, ite_self]
        · rw [if_pos hin]
      rw [hpaid]
      exact ⟨by ring, hdebt⟩
  · have hnone : settling H (.take uid) = none ∧ ev.winmoney = 0 := by
      unfold settling
      simp only [hevents]
      cases ev with
      | addMoney winmoney cardsid => exact absurd ⟨winmoney, cardsid, rfl⟩ hadd
      | _ => exact ⟨rfl, rfl⟩
    obtain ⟨hsettling, hwin⟩ := hnone
    have hcovered : Covered H (.take uid) := by
      intro winmoney cardsid rest' heq
      rw [hevents] at heq
      exact absurd ⟨winmoney, cardsid, (List.cons.inj heq).1⟩ hadd
    refine iff_of_true ?_ hcovered
    have hdebt := (h.honoured uid).2
    have hmoney := (kept_handles (h.kept uid) hfree.1 hc (by rw [hwin, add_zero]; exact hdebt)).2
    refine (honoured_iff_of_agent h.honoured hagent (fun _ => rfl) fun u hu => ?_).mpr ⟨?_, ?_⟩
    · rw [hsettling]
      exact ⟨by simp, hother u hu⟩
    · rw [hsettling, if_neg (by simp), hpending, hwin, zero_add, sub_zero]
    · exact hmoney hdebt

/-- A loser's agent has its answer: the books stay in order exactly if the loss is covered. -/
theorem honoured_settle_iff (h : Honoured (H, T)) {losemoney : ℚ} {before after : List ℚ}
    {S : Service Agent.State Agent.Message Request Request.answer}
    (hstate : S.state = (H.agent uid).state)
    (hagent : H'.agent = Function.update H.agent uid (S.run (loserAnswered losemoney)))
    (hevents : H'.events = H.events)
    (hanswers : H.answers uid = before ++ losemoney :: after)
    (hanswers' : H'.answers = Function.update H.answers uid (before ++ after)) :
    Honoured (H', noteTally H (.settle uid losemoney) H' T) ↔
      Covered H (.settle uid losemoney) := by
  have hpending : H'.pending uid = H.pending uid + losemoney := by
    unfold pending
    rw [hevents, hanswers', Function.update_self, hanswers, List.sum_append, List.sum_append,
      List.sum_cons]
    ring
  have hother : ∀ u, u ≠ uid → H'.pending u = H.pending u := fun u hu => by
    unfold pending
    rw [hevents, hanswers', Function.update_of_ne hu]
  have hmoney : (S.run (loserAnswered losemoney)).state.money = H.money uid -
      if losemoney ≤ H.money uid ∧ InRoom (H.agent uid).state then losemoney else 0 := by
    rw [Service.run_state, advance_loserAnswered, hstate]
    rfl
  have hdebt : 0 ≤ H.money uid := (h uid).2
  have hsettling : settling H (.settle uid losemoney) = some uid := rfl
  have hiff := honoured_iff_of_agent (T := T) (e := .settle uid losemoney) h hagent (fun _ => rfl)
    fun u hu => ⟨by rw [hsettling]; simpa using Ne.symm hu, hother u hu⟩
  rw [hiff, if_pos hsettling, hpending, hmoney]
  by_cases hpaid : losemoney ≤ H.money uid ∧ InRoom (H.agent uid).state
  · rw [if_pos hpaid]
    refine iff_of_true ⟨by ring, sub_nonneg.mpr hpaid.1⟩ ?_
    exact .inr hpaid
  · rw [if_neg hpaid, sub_zero]
    constructor
    · rintro ⟨hzero, -⟩
      exact .inl (by linarith)
    · rintro (hzero | hboth)
      · rw [hzero]
        exact ⟨by ring, hdebt⟩
      · exact absurd hboth hpaid

/-- What an event credits below zero the wallet has. -/
theorem Covered.take {ev rest} (h : Covered H (.take uid)) (hevents : H.events uid = ev :: rest)
    (hdebt : 0 ≤ H.money uid) : 0 ≤ H.money uid + ev.winmoney := by
  cases ev with
  | addMoney winmoney cardsid => exact (h _ _ _ hevents).1
  | _ => exact add_nonneg hdebt (le_refl 0)

/-- A step that is covered keeps the books in order. -/
theorem Sound.step (h : Sound (H, T)) (hcovered : Covered H e) (hstep : Step H e H') :
    Sound (H', noteTally H e H' T) := by
  cases hstep with
  | start uid m hfree hforeign =>
    have hm : m ≠ .EVENT_NOTIFY_LOSER_GET_RESULT := by
      rintro rfl
      exact hforeign
    exact h.go rfl rfl rfl rfl (fun _ => rfl) rfl
      (kept_run (h.kept uid) hfree.1 (Agent.keeps_message m hm hcovered))
  | @resume uid pre post i k r hfree hplain hwait =>
    exact h.go rfl rfl rfl rfl (fun _ => rfl) rfl
      (kept_run ((h.kept uid).without hwait) hfree.1 (waiting_keeps (h.kept uid) hplain hwait r _))
  | @answer uid i k r hhold =>
    have hrest : Kept { H.agent uid with holding := none } :=
      ⟨(h.kept uid).waiting, fun c hc => nomatch hc⟩
    exact h.go rfl rfl rfl rfl (fun _ => rfl) rfl
      (kept_run hrest rfl ((h.kept uid).holding _ hhold r))
  | @other uid t hfree hsame =>
    have hkept : Kept { H.agent uid with state := t } := by
      refine ⟨(h.kept uid).waiting, fun c hc => ?_⟩
      have hc : (H.agent uid).holding = some c := hc
      rw [hfree.1] at hc
      cases hc
    have hsolvent : Solvent (H.agent uid).state t := by
      rw [Agent.solvent_iff, hsame.1]
      exact id
    exact h.go rfl rfl rfl rfl (fun _ => rfl) rfl ⟨hkept, hsolvent⟩
  | @take uid ev rest c hfree hevents hc =>
    refine ⟨(honoured_take_iff h hfree hevents hc).mpr hcovered, ?_⟩
    have hbears := hcovered.take hevents (h.honoured uid).2
    exact kept_of_agent h.kept rfl (kept_handles (h.kept uid) hfree.1 hc hbears).1
  | @settle uid pre post money k before after losemoney hfree hwait hanswers =>
    obtain rfl := awaited (h.kept uid) hwait
    refine ⟨Iff.mpr ?_ hcovered, ?_⟩
    · exact @honoured_settle_iff H _ T uid h.honoured losemoney before after
        { H.agent uid with waiting := pre ++ post } rfl rfl rfl hanswers rfl
    exact kept_of_agent h.kept rfl
      (kept_run ((h.kept uid).without hwait) hfree.1 (keeps_loserAnswered losemoney _)).1
  | @game e t hreport hgame =>
    exact ⟨h.honoured.played rfl rfl fun uid => pending_played H e.caller t uid, h.kept⟩
  | @report before after uid address m env hreports =>
    refine ⟨h.honoured.played rfl rfl fun u => ?_, h.kept⟩
    exact pending_played { H with reports := before ++ after } (some uid) _ u

theorem sound_of_opens (h : Opens H) : Sound (H, .start) := by
  refine ⟨fun uid => ⟨?_, h.money uid⟩, fun uid => ⟨fun c hc => ?_, fun c hc => ?_⟩⟩
  · show 0 + H.pending uid = 0
    unfold pending
    rw [h.events, h.answers]
    simp
  · rw [h.waiting] at hc
    cases hc
  · rw [h.holding] at hc
    cases hc

theorem sound_of_reachable {p : Hall × Tally}
    (hp : (ledger.restrict fun p => Covered p.1).Reachable p) : Sound p := by
  induction hp with
  | @init p h0 =>
    obtain ⟨H, T⟩ := p
    obtain ⟨hopens, hT⟩ := h0
    have hT : T = .start := hT
    rw [hT]
    exact sound_of_opens hopens
  | @step p e q _ hstep ih =>
    obtain ⟨H, T⟩ := p
    obtain ⟨H', T'⟩ := q
    obtain ⟨hcovered, hmoved, hT⟩ := hstep
    have hT : T' = noteTally H e H' T := hT
    rw [hT]
    exact ih.step hcovered hmoved

end Runs

/-- An agent takes a result of the game, or another event of it. -/
def Event.Settles : Event → Prop
  | .take _ => True
  | .settle _ _ => True
  | _ => False

/-- As long as each wallet covers what is taken from it, every agent's wallet changes by exactly
what the game computed, and none is ever in debt; and when an agent takes the next event or
answer of the game it stays so exactly if that is covered too. -/
theorem honoured_iff_covered {p : Hall × Tally}
    (hp : (ledger.restrict fun p => Covered p.1).Reachable p) :
    Honoured p ∧ ∀ e q, e.Settles → ledger.step p e q → (Honoured q ↔ Covered p.1 e) := by
  have hsound := sound_of_reachable hp
  refine ⟨hsound.honoured, fun e q hsettles hstep => ?_⟩
  obtain ⟨H, T⟩ := p
  obtain ⟨H', T'⟩ := q
  obtain ⟨hmoved, hT⟩ := hstep
  have hmoved : Step H e H' := hmoved
  have hT : T' = noteTally H e H' T := hT
  rw [hT]
  cases hmoved with
  | take hfree hevents hc => exact honoured_take_iff hsound hfree hevents hc
  | @settle uid pre post money k before after losemoney hfree hwait hanswers =>
    obtain rfl := awaited (hsound.kept uid) hwait
    exact @honoured_settle_iff H _ T uid hsound.honoured losemoney before after
      { H.agent uid with waiting := pre ++ post } rfl rfl rfl hanswers rfl
  | _ => exact hsettles.elim

/-! ## A round in which a face is sent -/

/-- A player in a seat of the room, with its money. -/
def seated (uid : Uid) (money : ℚ) : Agent.State :=
  { Agent.State.start (100 + uid) uid with
    uid := some uid, login := true, cur_state := .be_seated, money := money, roomid := some 1,
    seatid := some uid, roomconf := some
      { roomid := 1, roomtype := 1, seatnum := 5, maxuser := 20, basebet := 50, minmoney := 20,
        maxmoney := 10000, ticket := 0, fee := 0, choicepokertime := 20, gametype := 11, state := 0,
        bankerticket := 1 / 2 } }

/-- A new table free of charge; the first player has two thousand, the others fifty. -/
def twoAgents : Hall where
  game := Game.creatGame { Game.GameConf.base50 with ticket := 0 }
  agent uid := .start (seated uid (if uid = 1 then 2000 else 50))
  events _ := []
  reports := []
  answers _ := []

theorem twoAgents_opens : Opens twoAgents where
  game := ⟨_, rfl⟩
  money uid := by
    show 0 ≤ if uid = 1 then (2000 : ℚ) else 50
    split <;> norm_num
  waiting _ := rfl
  holding _ := rfl
  events _ := rfl
  reports := rfl
  answers _ := rfl

/-- The game has its messages and timeouts, one after another. -/
def afterGame (H : Hall) (es : List Game.Event) : Hall :=
  es.foldl (fun H e => H.played e.caller (Handler.after (Game.handle .quiet H.game e))) H

theorem reachable_afterGame {es : List Game.Event} {H : Hall}
    (hH : (hall.restrict Covered).Reachable H) (hreport : ∀ e ∈ es, ¬e.isReport)
    (hrun : (TSys.execAll (Game.exec .quiet) H.game es).isSome) :
    (hall.restrict Covered).Reachable (H.afterGame es) := by
  induction es generalizing H with
  | nil => exact hH
  | cons e es ih =>
    obtain ⟨g, hg⟩ := Option.isSome_iff_exists.mp hrun
    obtain ⟨t, ht, hrest⟩ := Option.bind_eq_some_iff.mp hg
    have hstep : Game.Step H.game e t := Game.exec_step .quiet H.game e t ht
    have hcovered : Covered H (.game e) := trivial
    have hmoved : (hall.restrict Covered).Reachable (H.played e.caller t) :=
      .step hH ⟨hcovered, .game (hreport e List.mem_cons_self) hstep⟩
    have ht' : t = Handler.after (Game.handle .quiet H.game e) := by
      unfold Game.exec at ht
      split at ht
      · exact (Option.some.inj ht).symm
      · cases ht
    rw [ht'] at hmoved hrest
    refine ih hmoved (fun e' he' => hreport e' (List.mem_cons_of_mem _ he')) ?_
    show (TSys.execAll (Game.exec .quiet) (Handler.after (Game.handle .quiet H.game e)) es).isSome
    rw [hrest]
    rfl

/-- The first player takes the bank; nobody bets or chooses in time, and the second player has
lost its base bet. -/
def lostRound : List Game.Event :=
  Game.twoSit ++ [.msg 1 101 (.someOneGrab 1 2000), .msg 2 102 (.someOneGrab 0 50), .timeout 1,
    .timeout 1, .timeout 1]

/-- The second player's agent is asked for its money, then told to report its loss. -/
def asking : Hall :=
  ((twoAgents.afterGame lostRound).take 2 .getMoney [.notifyLoserGetResult] (pure ())).take 2
    .notifyLoserGetResult [] Agent.LoserGetResult

theorem reachable_asking : (hall.restrict Covered).Reachable asking := by
  have h0 : (hall.restrict Covered).Reachable (twoAgents.afterGame lostRound) :=
    reachable_afterGame (.init twoAgents_opens) (by decide +kernel) (by decide +kernel)
  have hevents : (twoAgents.afterGame lostRound).events 2 = [.getMoney, .notifyLoserGetResult] := by
    decide +kernel
  have hcovered : Covered (twoAgents.afterGame lostRound) (.take 2) := by
    intro winmoney cardsid rest h
    rw [hevents] at h
    cases h
  have h1 := h0.step ⟨hcovered, .take ⟨rfl, rfl⟩ hevents .getMoney⟩
  refine h1.step ⟨?_, .take ⟨rfl, rfl⟩ rfl .loser⟩
  intro winmoney cardsid rest h
  cases h

/-- The game takes the next report. -/
def hear (H : Hall) (uid : Uid) (address : Address) (m : Game.Msg)
    (rest : List (Uid × Address × Game.Msg)) : Hall :=
  { H with reports := rest }.played (some uid)
    (Handler.after (H.game.dispatch .quiet uid address m))

theorem reachable_hear {H : Hall} (hH : (hall.restrict Covered).Reachable H) {uid address m rest}
    (hreports : H.reports = (uid, address, m) :: rest) :
    (hall.restrict Covered).Reachable (H.hear uid address m rest) := by
  have hcovered : Covered H (.report uid m) := trivial
  have hfirst : H.reports = [] ++ (uid, address, m) :: rest := hreports
  exact hH.step ⟨hcovered, .report .quiet hfirst⟩

/-- The game takes both reports of the second player's agent. -/
def answered (H : Hall) : Hall :=
  (H.hear 2 102 (.playerMoney 50) [(2, 102, .loserGetResult 50)]).hear 2 102 (.loserGetResult 50) []

theorem reachable_answered {H : Hall} (hH : (hall.restrict Covered).Reachable H)
    (hreports : H.reports = [(2, 102, .playerMoney 50), (2, 102, .loserGetResult 50)]) :
    (hall.restrict Covered).Reachable H.answered := reachable_hear (reachable_hear hH hreports) rfl

/-- The handler of the second player's agent gets the answer. -/
def settled (H : Hall) : Hall :=
  { H.go 2 { H.agent 2 with waiting := [] } (loserAnswered 50) with
    answers := Function.update H.answers 2 [] }

theorem step_settled {H : Hall} (hkept : Kept (H.agent 2))
    (hfree : (H.agent 2).holding.isNone ∧ (H.agent 2).gone = false)
    (hwait : (H.agent 2).waiting.map Sigma.fst = [.EVENT_LOSER_GET_RESULT 50])
    (hanswers : H.answers 2 = [50]) : hall.step H (.settle 2 50) H.settled := by
  obtain ⟨⟨i, k⟩, hone, hi⟩ := List.map_eq_singleton_iff.mp hwait
  obtain rfl : i = .EVENT_LOSER_GET_RESULT 50 := hi
  have hwait' : (H.agent 2).waiting = [] ++ ⟨.EVENT_LOSER_GET_RESULT 50, k⟩ :: [] := hone
  have hanswers' : H.answers 2 = [] ++ 50 :: [] := hanswers
  obtain rfl := awaited hkept hwait'
  exact .settle ⟨Option.isNone_iff_eq_none.mp hfree.1, hfree.2⟩ hwait' hanswers'

/-- Keeping the tally rules no state out. -/
theorem reachable_ledger {H : Hall} (hH : (hall.restrict Covered).Reachable H) :
    ∃ T, (ledger.restrict fun p => Covered p.1).Reachable (H, T) := by
  have hT : ∃ T, ((hall.restrict Covered).observe (fun _ => Tally.start) noteTally).Reachable
      (H, T) := hH.observe
  obtain ⟨T, hT⟩ := hT
  refine ⟨T, TSys.Reachable.mono (T := (hall.restrict Covered).observe (fun _ => Tally.start)
    noteTally) (U := ledger.restrict fun p => Covered p.1) (fun _ h0 => h0) (fun p e q hs => ?_) hT⟩
  exact ⟨hs.1.1, hs.1.2, hs.2⟩

/-- The second player pays its fifty coins. -/
theorem honoured_iff_covered_paid : ∃ p : Hall × Tally, p.1.money 2 = 0 ∧ p.1.answers 2 = [] ∧
    (Honoured p ∧ ∀ e q, e.Settles → ledger.step p e q → (Honoured q ↔ Covered p.1 e)) := by
  have h1 := reachable_answered reachable_asking (by decide +kernel)
  have hanswers : asking.answered.answers 2 = [50] := by decide +kernel
  have hcovered : Covered asking.answered (.settle 2 50) := by
    refine .inr ⟨?_, ?_⟩
    · decide +kernel
    · decide +kernel
  obtain ⟨T, hT⟩ := reachable_ledger h1
  have hstep := @step_settled asking.answered ((sound_of_reachable hT).kept 2) (by decide +kernel)
    (by decide +kernel) hanswers
  obtain ⟨T', hT'⟩ := reachable_ledger (h1.step ⟨hcovered, hstep⟩)
  have hmoney : asking.answered.settled.money 2 = 0 := by decide +kernel
  exact ⟨_, hmoney, rfl, honoured_iff_covered hT'⟩

/-- The second player's client sends a message. -/
def send (H : Hall) (m : WalletMessage) : Hall := H.go 2 (H.agent 2) m.handle

/-- A handler of its agent that waits for the time goes on. -/
def now (H : Hall) : Hall :=
  match (H.agent 2).holding with
  | some ⟨.time, k⟩ => H.go 2 { H.agent 2 with holding := none } (k (0 : ℤ))
  | _ => H

theorem reachable_send {H : Hall} (hH : (hall.restrict Covered).Reachable H) (m : WalletMessage)
    (hfree : (H.agent 2).Free) (hm : m.Foreign) (hbears : Agent.Bears (H.agent 2).state m) :
    (hall.restrict Covered).Reachable (H.send m) := by
  have hcovered : Covered H (.start 2 m) := hbears
  exact hH.step ⟨hcovered, .start 2 m hfree hm⟩

theorem reachable_now {H : Hall} (hH : (hall.restrict Covered).Reachable H) :
    (hall.restrict Covered).Reachable H.now := by
  have hcovered : Covered H (.answer 2) := trivial
  unfold now
  split
  · rename_i k hhold
    exact hH.step ⟨hcovered, @Step.answer H 2 .time k 0 hhold⟩
  · exact hH

/-- The second player's agent serves a red packet, which it does not grant, and a face while it
waits for the loss. -/
def faceSent : Hall := ((asking.send .CMSG_GET_REDPACKET_REWARD).now.send (.CMSG_FACE false)).now

theorem reachable_faceSent : (hall.restrict Covered).Reachable faceSent :=
  reachable_now <| reachable_send
    (reachable_now <| reachable_send reachable_asking .CMSG_GET_REDPACKET_REWARD ⟨rfl, rfl⟩
      trivial trivial) (.CMSG_FACE false) ⟨rfl, rfl⟩ trivial trivial

/-- While the loss of its fifty coins is being settled the second player asks for a red packet,
which clears `lockmoney`, and sends a face. The game has counted fifty coins from it, and its
wallet keeps the forty-nine that are left. -/
theorem spent_before_the_answer : ∃ p, ledger.Reachable p ∧ ¬Honoured p ∧ p.1.money 2 = 49 ∧
    p.1.pending 2 = 0 := by
  have hreach := reachable_answered reachable_faceSent (by decide +kernel)
  obtain ⟨T, hT⟩ := reachable_ledger hreach
  have hanswers : faceSent.answered.answers 2 = [50] := by decide +kernel
  have hsettle := @step_settled faceSent.answered ((sound_of_reachable hT).kept 2)
    (by decide +kernel) (by decide +kernel) hanswers
  have hmoney : faceSent.answered.money 2 = 49 := by decide +kernel
  have hshort : ¬Covered faceSent.answered (.settle 2 50) := by
    show ¬((50 : ℚ) = 0 ∨ 50 ≤ faceSent.answered.money 2 ∧ _)
    rw [hmoney]
    norm_num
  have hleft : faceSent.answered.settled.money 2 = 49 ∧
      faceSent.answered.settled.pending 2 = 0 := by
    decide +kernel
  refine ⟨(faceSent.answered.settled, noteTally _ (.settle 2 50) _ T),
    hT.of_restrict.step ⟨hsettle, rfl⟩, fun hhonoured => hshort ?_, hleft⟩
  exact (@honoured_settle_iff faceSent.answered faceSent.answered.settled T 2
    (sound_of_reachable hT).honoured 50 [] [] { faceSent.answered.agent 2 with waiting := [] }
    rfl rfl rfl hanswers rfl).mp hhonoured

end Hall

end DnServer.Bullfight
