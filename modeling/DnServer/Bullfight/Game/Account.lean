import DnServer.Bullfight.Game.Books

/-!
# The game service: the account of a round

Beside the table an account is kept of the running round: which losers were told
to report, what was reported before `T_WAIT_SHOW_RESULT`, and what was debited
and credited. In `fair` the agents keep their promises: they bet at least the
base bet, every loser that was told to report calls once, the banker's money is
sent once and is positive.
-/

namespace DnServer.Bullfight

open DnServer.Lib

namespace Game

/-! ## Accounts -/

/-- The account of a round since its comparison. -/
structure Account where
  losers : List Uid
  due : List Uid
  asked : Bool
  reports : List (Uid × ℚ)
  heard : Bool
  debits : List ℚ
  settlements : ℕ
  credits : ℚ
deriving DecidableEq

namespace Account

/-- The account when the `losers` were told to report and the banker was asked. -/
def opened (losers : List Uid) : Account := ⟨losers, losers, true, [], false, [], 0, 0⟩

/-- The account before the first comparison. -/
def blank : Account := { opened [] with asked := false }

/-- The account after an event; it counts as a report if it comes `inTime`. -/
def hear (a : Account) (inTime : Bool) : Event → Account
  | .msg uid _ (.loserGetResult money) => { a with
      due := a.due.erase uid
      reports := if inTime then a.reports ++ [(uid, money)] else a.reports }
  | .msg _ _ (.bankerMoney _) => { a with asked := false, heard := a.heard || inTime }
  | _ => a

end Account

/-- Who is told to report, if somebody is. -/
def Out.notified? : Out → Option Uid
  | .send p .notifyLoserGetResult => some p.uid
  | _ => none

def notified (o : List Out) : List Uid := o.filterMap Out.notified?

/-- What a loser's agent is told to take, if it is told. -/
def Out.debit? : Out → Option ℚ
  | .ret (.lose money _) => some money
  | _ => none

def told (o : List Out) : List ℚ := o.filterMap Out.debit?

@[simp] theorem notified_append (o o' : List Out) :
    notified (o ++ o') = notified o ++ notified o' := List.filterMap_append

@[simp] theorem told_append (o o' : List Out) : told (o ++ o') = told o ++ told o' :=
  List.filterMap_append

/-- The account after a dispatch that sent `o` and entered `calls`. -/
def Account.book (a : Account) (o : List Out) (calls : List Proc) : Account := { a with
  debits := a.debits ++ told o
  settlements := a.settlements + calls.count .getLastResult
  credits := a.credits + credited o }

/-- The comparison opens a new account; every other event is entered in it. -/
def noteAccount (g : Game) (e : Event) (t : Game) (a : Account) : Account :=
  (if g.curstate = .choicePokerType ∧ t.curstate = .waitShowResult then
    .opened (notified t.outbox)
  else a.hear (decide (g.curstate = .waitShowResult)) e).book t.outbox t.calls

def roundSystem : TSys (Game × Account) Event :=
  system.observe (fun _ => .blank) noteAccount

/-- What the agents promise about the money of a round. -/
def Promised (p : Game × Account) : Event → Prop
  | .msg _ _ (.someOneBet betmoney) => (p.1.gameconf.basebet : ℚ) ≤ betmoney
  | .msg uid _ (.loserGetResult _) => uid ∈ p.2.due
  | .msg _ _ (.bankerMoney money) => p.2.asked = true ∧ 0 < money
  | _ => True

instance (p : Game × Account) (e : Event) : Decidable (Promised p e) := by
  cases e with
  | msg uid address m =>
    cases m with
    | someOneBet betmoney =>
      exact inferInstanceAs (Decidable ((p.1.gameconf.basebet : ℚ) ≤ betmoney))
    | loserGetResult money => exact inferInstanceAs (Decidable (uid ∈ p.2.due))
    | bankerMoney money => exact inferInstanceAs (Decidable (p.2.asked = true ∧ 0 < money))
    | _ => exact inferInstanceAs (Decidable True)
  | _ => exact inferInstanceAs (Decidable True)

def fair : TSys (Game × Account) Event := roundSystem.restrict Promised

/-- `Bet` of the agent: the bet it sends to the game; `none` is the answer `BET_MONEY_ERROR`. -/
def agentBet (basebet : ℕ) (selfmoney money : ℚ) : Option ℚ :=
  if money < basebet ∨ money > ⌊selfmoney / (13 / 10)⌋ then none else some money

/-- A bet that the agent has checked is one a fair agent sends. -/
theorem promised_agentBet {p : Game × Account} {uid : Uid} {address : Address}
    {selfmoney money betmoney : ℚ}
    (h : agentBet p.1.gameconf.basebet selfmoney money = some betmoney) :
    Promised p (.msg uid address (.someOneBet betmoney)) := by
  obtain ⟨hchecked, heq⟩ := Option.ite_none_left_eq_some.mp h
  obtain rfl := Option.some.inj heq
  exact not_lt.mp fun hlow => hchecked (.inl hlow)

/-! ## What is sent -/

theorem rets_eq_nil_told {o : List Out} (h : rets o = []) : told o = [] := by
  refine List.filterMap_eq_nil_iff.mpr fun x hx => ?_
  have hnone := List.filterMap_eq_nil_iff.mp h x hx
  cases x with
  | ret r => cases hnone
  | _ => rfl

/-- What is sent before a handler is called is no business of the account. -/
theorem Idle.silent {o : List Out} (h : Idle o) :
    notified o = [] ∧ told o = [] ∧ credited o = 0 := by
  have hcredit : o.filterMap Out.credit? = [] := by
    refine List.filterMap_eq_nil_iff.mpr fun x hx => ?_
    have hidle := h x hx
    cases x with
    | send p e =>
      cases e with
      | addMoney money c => exact hidle.elim
      | _ => rfl
    | _ => rfl
  refine ⟨List.filterMap_eq_nil_iff.mpr fun x hx => ?_,
    List.filterMap_eq_nil_iff.mpr fun x hx => ?_, ?_⟩
  · have hidle := h x hx
    cases x with
    | send p e =>
      cases e with
      | notifyLoserGetResult => exact hidle.elim
      | _ => rfl
    | _ => rfl
  · have hidle := h x hx
    cases x with
    | ret r =>
      cases r with
      | lose money c => exact hidle.elim
      | code errcode => rfl
    | _ => rfl
  · unfold credited
    rw [hcredit]
    rfl

theorem Account.book_silent (a : Account) {o : List Out} {calls : List Proc} (htold : told o = [])
    (hcredit : credited o = 0) (hcalls : calls.count .getLastResult = 0) : a.book o calls = a := by
  unfold Account.book
  rw [htold, hcredit, hcalls, List.append_nil, add_zero, add_zero]

theorem Account.book_idle (a : Account) {o : List Out} {calls : List Proc} (ho : Idle o)
    (hcalls : calls = []) : a.book o calls = a := by
  obtain ⟨-, htold, hcredit⟩ := ho.silent
  refine a.book_silent htold hcredit ?_
  rw [hcalls]
  rfl

/-- What was sent before does not count. -/
theorem Account.book_after_idle (a : Account) {o o' : List Out} (calls : List Proc)
    (ho : Idle o) : a.book (o ++ o') calls = a.book o' calls := by
  obtain ⟨-, htold, hcredit⟩ := ho.silent
  unfold Account.book
  rw [told_append, htold, credited_append, hcredit, List.nil_append, zero_add]

/-! ## Bets -/

/-- Every bet is nothing or at least `basebet`. -/
def AtLeast (basebet : ℕ) (t : Table Uid GamePlayer) : Prop :=
  ∀ k v, t.get? k = some v → v.betmoney = 0 ∨ (basebet : ℚ) ≤ v.betmoney

/-- Nobody has bet less than the base bet, and once cards are dealt everybody has
bet. -/
structure Bets (g : Game) : Prop where
  atLeast : g.curstate.Early → AtLeast g.gameconf.basebet g.gameplayer
  all : g.curstate = .dealPoker ∨ g.curstate = .choicePokerType → AllBet g.banker g.gameplayer

/-- `w` is a record of the same player with the same bet. -/
def SameBet (v w : GamePlayer) : Prop := w.uid = v.uid ∧ w.betmoney = v.betmoney

theorem AtLeast.updated {basebet : ℕ} {s t : Table Uid GamePlayer} (h : AtLeast basebet s)
    (ht : Table.Updated (fun _ => SameBet) s t) : AtLeast basebet t := by
  intro k w hw
  obtain ⟨v, hv, -, hbet⟩ := ht.get?_of_new hw
  rw [hbet]
  exact h k v hv

theorem AllBet.updated {banker : Uid} {s t : Table Uid GamePlayer} (h : AllBet banker s)
    (ht : Table.Updated (fun _ => SameBet) s t) : AllBet banker t := by
  intro k w hw hne
  obtain ⟨v, hv, huid, hbet⟩ := ht.get?_of_new hw
  rw [huid] at hne
  rw [hbet]
  exact h k v hv hne

/-- A bid of at least the base bet keeps every bet at least the base bet. -/
theorem AtLeast.bids {g : Game} {m : Mtype} {t : Table Uid GamePlayer}
    (h : AtLeast g.gameconf.basebet g.gameplayer)
    (hbids : ∀ uid x, m = .msg uid (.someOneBet x) → (g.gameconf.basebet : ℚ) ≤ x)
    (ht : Table.Updated (fun _ => OnlyBet (Bids g m)) g.gameplayer t) :
    AtLeast g.gameconf.basebet t := by
  intro k w hw
  obtain ⟨v, hv, -, hsame | hbase | ⟨uid, hbid⟩⟩ := ht.get?_of_new hw
  · rw [hsame]
    exact h k v hv
  · exact .inr hbase.ge
  · exact .inr (hbids uid _ hbid)

private theorem bets_of {g : Game} (h : AtLeast g.gameconf.basebet g.gameplayer)
    (hall : g.curstate = .dealPoker ∨ g.curstate = .choicePokerType →
      AllBet g.banker g.gameplayer) : Bets g := ⟨fun _ => h, hall⟩

private theorem bets_late {g : Game} (h : ¬ g.curstate.Early) : Bets g := by
  refine ⟨fun hearly => absurd hearly h, fun hs => absurd ?_ h⟩
  rcases hs with hs | hs
  · rw [hs]
    trivial
  · rw [hs]
    trivial

theorem Bets.alike {g t : Game} (h : Bets g) (ha : Alike g t) : Bets t := by
  refine ⟨fun hearly k v hv => ?_, fun hs k v hv => ?_⟩
  · rw [ha.curstate] at hearly
    rw [(ha.started hearly.started).2]
    exact h.atLeast hearly k v (ha.records k v hv)
  · rw [ha.curstate] at hs
    have hearly : g.curstate.Early ∧ g.curstate ≠ .grabTheBanker := by
      rcases hs with hs | hs
      · rw [hs]
        exact ⟨trivial, by decide⟩
      · rw [hs]
        exact ⟨trivial, by decide⟩
    rw [ha.banker hearly.1.started hearly.2]
    exact h.all hs k v (ha.records k v hv)

private theorem Opening.bets {env : Env} {g t : Game} (h : Opening env g t)
    (hbets : AtLeast g.gameconf.basebet g.gameplayer) : Bets t := by
  cases h with
  | close hsit => exact bets_late fun h => h
  | grab o hsit hneed ho => exact bets_of hbets (by simp)
  | animate hsit hneed hsource => exact bets_of hbets (by simp)
  | bet o hsit hneed ho => exact bets_of hbets (by simp)

theorem Chosen.bets {env : Env} {g t : Game} {uid : Uid} {ty : ℤ} {cards : List Card}
    (hch : Chosen env g uid ty cards t) :
    t.banker = g.banker ∧ t.gameconf = g.gameconf ∧
      Table.Updated (fun _ => SameBet) g.gameplayer t.gameplayer := by
  cases hch with
  | reject o ho => exact ⟨rfl, rfl, Table.Updated.refl fun _ _ _ => ⟨rfl, rfl⟩⟩
  | accept v r o hv hcheck ho =>
    have hgp : Table.Updated (fun _ => SameBet) g.gameplayer (g.gameplayer.modify uid fun v =>
        { v with pokertype := ty, choicecards := cards, havechoice := true }) :=
      Table.updated_modify (fun _ _ => ⟨rfl, rfl⟩) fun _ _ => ⟨rfl, rfl⟩
    exact ⟨rfl, rfl, hgp⟩

/-- A move keeps the bets, if what it bids is no less than the base bet. -/
theorem Move.bets {env : Env} {g t : Game} {m : Mtype} (h : Bets g)
    (hbids : g.curstate.Early → ∀ uid x, m = .msg uid (.someOneBet x) →
      (g.gameconf.basebet : ℚ) ≤ x) (hmove : Move env g m t) : Bets t := by
  have hat : ∀ {s : CurState}, g.curstate = s → s.Early →
      AtLeast g.gameconf.basebet g.gameplayer := by
    rintro s rfl
    exact h.atLeast
  have hearly : ∀ {s : CurState}, g.curstate = s → s.Early → ∀ uid x,
      m = .msg uid (.someOneBet x) → (g.gameconf.basebet : ℚ) ≤ x := by
    rintro s rfl
    exact hbids
  cases hmove with
  | ignore _ hi => exact h
  | arm uid hs hsit hclose => exact bets_late fun h => h
  | disarm _ hs hsit => exact bets_late fun h => h
  | startRound log o t hs ho hopen =>
    refine hopen.bets fun k v hv => .inl ?_
    have hv' : (g.seater.mapVal fun _ v => GamePlayer.new v.uid).get? k = some v := hv
    rw [Table.get?_mapVal, Option.map_eq_some_iff] at hv'
    obtain ⟨s, -, rfl⟩ := hv'
    rfl
  | grab uid x gp o hs ho hgp =>
    refine bets_of ((hat hs trivial).updated (hgp.mono fun _ _ _ hvw => ?_)) ?_
    · rw [hvw.1]
      exact ⟨rfl, rfl⟩
    · show g.curstate = .dealPoker ∨ g.curstate = .choicePokerType → _
      rw [hs]
      simp
  | chooseBanker _ uid source money gp o t hs huid ho hgp hopen =>
    refine hopen.bets ((hat hs trivial).updated (hgp.mono fun _ _ _ hvw => ?_))
    rw [hvw.1]
    exact ⟨rfl, rfl⟩
  | bet uid betmoney gp o hs hall ho hgp =>
    refine bets_of ((hat hs trivial).bids (hearly hs trivial) hgp) ?_
    show g.curstate = .dealPoker ∨ g.curstate = .choicePokerType → _
    rw [hs]
    simp
  | notify o hs ho => exact bets_of (hat hs trivial) (by simp)
  | deal _ bets gp poker pos o hs hm ho hbets hbid hgp =>
    have hsame : Table.Updated (fun _ => SameBet) bets gp := hgp.mono fun _ _ _ hvw => by
      rw [hvw.1]
      exact ⟨rfl, rfl⟩
    exact bets_of (((hat hs trivial).bids (hearly hs trivial) hbets).updated hsame)
      fun _ => hbid.updated hsame
  | deckOut _ bets gp poker pos o hs hm ho hbets hbid hgp =>
    have hsame : Table.Updated (fun _ => SameBet) bets gp := hgp.mono fun _ _ _ hvw => by
      rw [hvw]
      exact ⟨rfl, rfl⟩
    exact bets_of (((hat hs trivial).bids (hearly hs trivial) hbets).updated hsame)
      fun _ => hbid.updated hsame
  | choose o hs ho => exact bets_of (hat hs trivial) fun _ => h.all (.inl hs)
  | choice uid ty cards g₁ hs hch hall =>
    obtain ⟨hbanker, hconf, hsame⟩ := hch.bets
    refine bets_of ?_ fun _ => ?_
    · rw [hconf]
      exact (hat hs trivial).updated hsame
    · rw [hbanker]
      exact (h.all (.inr hs)).updated hsame
  | compare uid ty cards g₁ g₂ hs hch hall hcmp => exact bets_late fun h => h
  | timeUp gp st n r o t hs ho hn hgp hst hcmp => exact bets_late fun h => h
  | report _ g₁ hs hrep hcan =>
    refine bets_late ?_
    rw [hrep.same.1, hs]
    exact fun h => h
  | settle _ g₁ t hs hrep hcan hset =>
    refine bets_late ?_
    rw [hset.same.1, hrep.same.1, hs]
    exact fun h => h
  | reveal o hs ho => exact bets_late fun h => h
  | close t hs hclosed =>
    cases hclosed with
    | mk n r p conf o again hn ho hagain =>
      cases again with
      | _ => exact bets_late fun h => h

/-- Fair agents leave no bet below the base bet. -/
theorem bets_inductive : fair.Inductive fun p => Bets p.1 where
  init := by
    rintro p ⟨⟨conf, hconf⟩, -⟩
    rw [hconf]
    exact bets_late fun h => h
  step := by
    rintro p e q hp h ⟨hpromise, hstep, -⟩
    have hinv := inv_invariant _ hp.of_restrict.of_observe
    obtain ⟨g', halike, ⟨hq, -⟩ | ⟨env, m, hserves, -, hmove⟩⟩ :=
      (hstep.stepped hinv).split hinv
    · rw [hq]
      exact h.alike halike
    · refine hmove.bets (h.alike halike) fun hearly uid x hm => ?_
      rw [halike.curstate] at hearly
      rw [(halike.started hearly.started).2]
      -- the message the move serves is the event's
      cases e with
      | msg u address y =>
        obtain rfl : m = .msg u y := hserves
        cases hm
        exact hpromise
      | timeout n =>
        obtain ⟨id, rfl⟩ := hserves
        cases hm
      | update conf => exact hserves.elim
      | rehash => exact hserves.elim

end Game

end DnServer.Bullfight
