import DnServer.Bullfight.Game.Invariant

/-!
# The game service: answers to calls

Agents send three messages with `skynet.call` and wait for the answer. The two
leave requests are answered before the state's handler runs, so always, and once.
A loser's report is answered inside the handler of `WAIT_SHOW_RESULT`, and only
to a player that still owes: in any other case its agent waits for ever, and
keeps the lock it took on its money.

* `call_answered_once`: `move_rets` has what each move answers: nothing, except for a
  loser's report that is taken up. What comes before the handler answers the requests to
  leave and no other (`pretreat_rets`).
-/

namespace DnServer.Bullfight

open DnServer.Lib

/-! ## The agent that waits -/

/-- The part of an agent that `LoserGetResult` of `agent.lua` works on. -/
structure Purse where
  money : ℚ
  lockmoney : Bool
deriving DecidableEq

namespace Purse

/-- `LoseMoney`, as far as it concerns the money. -/
def loseMoney (a : Purse) (losemoney : ℚ) : Purse :=
  if losemoney > a.money then a else { a with money := a.money - losemoney }

/-- `LoserGetResult` up to its call: the money is locked and reported. -/
def loserGetResult (a : Purse) : Purse × Game.Msg :=
  ({ a with lockmoney := true }, .loserGetResult a.money)

/-- `LoserGetResult` from the answer on; without one it stays at the call. -/
def resume (a : Purse) : Option Game.Reply → Purse
  | some (.lose losemoney _) => { a.loseMoney losemoney with lockmoney := false }
  | _ => a

end Purse

namespace Game

/-! ## Calls and their answers -/

/-- Is the message sent with `skynet.call`? -/
def Msg.IsCall : Msg → Prop
  | .tryStand | .tryQuit | .loserGetResult _ => True
  | _ => False

/-- When a call is answered. -/
def Answers (g : Game) (uid : Uid) : Msg → Prop
  | .loserGetResult _ => g.curstate = .waitShowResult ∧
      ∃ v, g.gameplayer.get? uid = some v ∧ v.winmoney = 0 ∧ v.totaladd < 0
  | _ => True

private theorem rets_fees {g : Game} {o : List Out} (ho : direct o = g.feeEvents) :
    rets o = [] := by
  rw [← rets_direct, ho]
  unfold feeEvents
  by_cases hticket : g.gameconf.ticket ≠ 0
  · rw [if_pos hticket]
    exact rets_map_send _ _ _
  · rw [if_neg hticket]
    rfl

/-- A round opens without an answer to anybody. -/
private theorem opening_rets {env : Env} {g t : Game} (h : Opening env g t) :
    rets t.outbox = rets g.outbox := by
  cases h with
  | close hsit => rfl
  | grab o hsit hneed ho =>
    have hnone : rets o = [] := by
      rw [← rets_direct, ho]
      exact rets_map_send _ _ _
    rw [rets_append, hnone, List.append_nil]
  | animate hsit hneed hsource => rfl
  | bet o hsit hneed ho => rw [rets_append, rets_fees ho, List.append_nil]

private theorem rets_emit {o o' : List Out} (h : direct o' = []) : rets (o ++ o') = rets o := by
  rw [rets_append, rets_of_direct_nil h, List.append_nil]

private theorem compared_rets {g t : Game} (h : Compared g t) : rets t.outbox = rets g.outbox := by
  cases h with
  | mk gp losers hgp hsub hnb =>
    rw [rets_append, rets_append, loserNotices, rets_map_send]
    exact List.append_nil _

private theorem chosen_rets {env : Env} {g t : Game} {uid : Uid} {ty : ℤ} {cards : List Card}
    (h : Chosen env g uid ty cards t) : rets t.outbox = rets g.outbox := by
  cases h with
  | reject o ho => exact rets_emit ho
  | accept v r o hv hcheck ho => exact rets_emit ho

private theorem settled_rets {g t : Game} (h : Settled g t) : rets t.outbox = rets g.outbox := by
  cases h with
  | mk b gp lr o r p hb hgp ho hcred => rw [rets_append, ho, List.append_nil]

/-- The answers from `g` to `t`: one to a loser's report if its sender owes, and
none otherwise. -/
private def Replied (g : Game) (m : Mtype) (t : Game) : Prop :=
  (∃ uid money v lose c, m = .msg uid (.loserGetResult money) ∧ g.gameplayer.get? uid = some v ∧
      v.winmoney = 0 ∧ v.totaladd < 0 ∧ rets t.outbox = rets g.outbox ++ [.lose lose c]) ∨
    ((∀ uid money, m = .msg uid (.loserGetResult money) → g.owes uid = false) ∧
      rets t.outbox = rets g.outbox)

private theorem reported_replied {g t : Game} {m : Mtype} (h : Reported g m t) :
    Replied g m t := by
  cases h with
  | loser uid money v lose hv hw ha hl =>
    exact .inl ⟨uid, money, v, lose, _, rfl, hv, hw, ha, rets_append _ _⟩
  | dropped uid money hno =>
    refine .inr ⟨fun u x hm => ?_, rfl⟩
    cases hm
    exact hno
  | banker uid money =>
    refine .inr ⟨fun u x hm => ?_, rfl⟩
    cases hm

private theorem Replied.trans {g t u : Game} {m : Mtype} (h : Replied g m t)
    (hrets : rets u.outbox = rets t.outbox) : Replied g m u := by
  unfold Replied
  rw [hrets]
  exact h

/-- Outside `WAIT_SHOW_RESULT` a move answers nothing, and inside it a loser's
report only. -/
private theorem move_rets {env : Env} {g t : Game} {m : Mtype} (h : Move env g m t) :
    (g.curstate = .waitShowResult ∧ Replied g m t) ∨
      ((∀ uid money, m = .msg uid (.loserGetResult money) → g.curstate ≠ .waitShowResult) ∧
        rets t.outbox = rets g.outbox) := by
  have hstate : ∀ {s : CurState}, g.curstate = s → s ≠ .waitShowResult →
      ∀ uid money, m = .msg uid (.loserGetResult money) → g.curstate ≠ .waitShowResult :=
    fun hs hne _ _ _ hw => hne (hs.symm.trans hw)
  cases h with
  | ignore _ hi =>
    refine .inr ⟨fun uid money hm hw => ?_, rfl⟩
    subst hm
    exact absurd hi (by simp [Ignored, hw])
  | arm uid hs hsit hclose => exact .inr ⟨hstate hs (by decide), rfl⟩
  | disarm _ hs hsit => exact .inr ⟨hstate hs (by decide), rfl⟩
  | startRound log o t hs ho hopen =>
    refine .inr ⟨hstate hs (by decide), (opening_rets hopen).trans ?_⟩
    rw [rets_append, ho, List.append_nil]
  | grab uid x gp o hs ho hgp => exact .inr ⟨hstate hs (by decide), rets_emit ho⟩
  | chooseBanker _ uid source money gp o t hs huid ho hgp hopen =>
    exact .inr ⟨hstate hs (by decide), (opening_rets hopen).trans (rets_emit ho)⟩
  | bet uid betmoney gp o hs hall ho hgp => exact .inr ⟨hstate hs (by decide), rets_emit ho⟩
  | notify o hs ho =>
    refine .inr ⟨hstate hs (by decide), ?_⟩
    rw [rets_append, rets_fees ho, List.append_nil]
  | deal _ bets gp poker pos o hs hm ho hbets hbid hgp =>
    exact .inr ⟨hstate hs (by decide), rets_emit ho⟩
  | deckOut _ bets gp poker pos o hs hm ho hbets hbid hgp =>
    exact .inr ⟨hstate hs (by decide), rets_emit ho⟩
  | choose o hs ho => exact .inr ⟨hstate hs (by decide), rets_emit ho⟩
  | choice uid ty cards g₁ hs hch hall => exact .inr ⟨hstate hs (by decide), chosen_rets hch⟩
  | compare uid ty cards g₁ g₂ hs hch hall hcmp =>
    exact .inr ⟨hstate hs (by decide), (compared_rets hcmp).trans (chosen_rets hch)⟩
  | timeUp gp st n r o t hs ho hn hgp hst hcmp =>
    exact .inr ⟨hstate hs (by decide), (compared_rets hcmp).trans (rets_emit ho)⟩
  | report _ g₁ hs hrep hcan => exact .inl ⟨hs, reported_replied hrep⟩
  | settle _ g₁ t hs hrep hcan hset =>
    exact .inl ⟨hs, (reported_replied hrep).trans (settled_rets hset)⟩
  | reveal o hs ho =>
    refine .inr ⟨fun uid money hm => ?_, rets_emit ho⟩
    cases hm
  | close t hs hclosed =>
    cases hclosed with
    | mk n r p conf o again hn ho hagain =>
      refine .inr ⟨hstate hs (by decide), ?_⟩
      show rets (g.outbox ++ o) = rets g.outbox
      rw [rets_append, ho, List.append_nil]

/-! ## Messages -/

/-- What is answered before the state's handler runs: the requests to leave. -/
private theorem pretreat_rets (env : Env) (g : Game) (uid : Uid) (address : Address) (m : Msg) :
    (m = .tryStand ∨ m = .tryQuit) ∧
        (∃ errcode, rets (g.begin.pretreat env uid address m).outbox = [.code errcode]) ∨
      (m ≠ .tryStand ∧ m ≠ .tryQuit) ∧ rets (g.begin.pretreat env uid address m).outbox = [] := by
  cases m with
  | someOneEnter =>
    obtain ⟨players, o, ho, henter⟩ := pretreat_enter env g.begin uid address
    refine .inr ⟨⟨by decide, by decide⟩, ?_⟩
    rw [henter]
    exact rets_of_direct_nil ho
  | tryStand =>
    refine .inl ⟨.inl rfl, ?_⟩
    by_cases hbusy : uid ∈ g.begin.gameplayer ∧ g.begin.isGameStart = true
    · rw [(pretreat_busy env address hbusy).1]
      exact ⟨_, rfl⟩
    · rw [(pretreat_leave env address hbusy).1]
      exact ⟨_, rfl⟩
  | tryQuit =>
    refine .inl ⟨.inr rfl, ?_⟩
    by_cases hbusy : uid ∈ g.begin.gameplayer ∧ g.begin.isGameStart = true
    · rw [(pretreat_busy env address hbusy).2]
      exact ⟨_, rfl⟩
    · rw [(pretreat_leave env address hbusy).2]
      exact ⟨_, rfl⟩
  | _ => exact .inr ⟨⟨by simp, by simp⟩, rfl⟩

/-- The answers of a dispatch: one where the call is answered, else none. -/
private theorem dispatch_rets (env : Env) {g : Game} (hinv : Inv g) {uid : Uid}
    {address : Address} {m : Msg} (ha : Admissible g (.msg uid address m)) (hcall : m.IsCall) :
    (Answers g uid m ∧ ∃ r, rets (Handler.after (handle env g (.msg uid address m))).outbox = [r] ∧
      ((∃ money, m = .loserGetResult money) → ∃ lose c, r = .lose lose c)) ∨
    (¬ Answers g uid m ∧
      rets (Handler.after (handle env g (.msg uid address m))).outbox = []) := by
  have hstep : Step g (.msg uid address m) (Handler.after (handle env g (.msg uid address m))) :=
    ⟨ha, env, rfl⟩
  generalize Handler.after (handle env g (.msg uid address m)) = t at hstep ⊢
  cases hstep.stepped hinv with
  | msg env uid address m t hready hmove =>
    have hpre := pretreat_pretreated (begin_inv hinv) env uid address m
    rcases pretreat_rets env g uid address m with ⟨hm, errcode, hcode⟩ | ⟨hm, hnone⟩
    · -- a request to leave: the handler of the state adds nothing to its answer
      have hanswers : Answers g uid m := by
        rcases hm with rfl | rfl
        · trivial
        · trivial
      have hreport : ∀ {u : Uid} {money : ℚ},
          Mtype.msg uid m ≠ .msg u (.loserGetResult money) := by
        intro u money h
        rcases hm with rfl | rfl
        · cases h
        · cases h
      refine .inl ⟨hanswers, .code errcode, ?_, ?_⟩
      · rcases move_rets hmove with ⟨-, ⟨u, money, v, lose, c, h, -⟩ | ⟨-, hrets⟩⟩ | ⟨-, hrets⟩
        · exact absurd h hreport
        · rw [hrets, hcode]
        · rw [hrets, hcode]
      · rintro ⟨money, rfl⟩
        exact absurd rfl (@hreport uid money)
    · obtain ⟨money, rfl⟩ : ∃ money, m = .loserGetResult money := by
        cases m with
        | loserGetResult money => exact ⟨money, rfl⟩
        | tryStand => exact absurd rfl hm.1
        | tryQuit => exact absurd rfl hm.2
        | _ => exact absurd hcall fun h => h
      rcases move_rets hmove with
        ⟨hs, ⟨u, x, v, lose, c, hreport, hv, hw, hadd, hrets⟩ | ⟨hno, hrets⟩⟩ | ⟨hs, hrets⟩
      · cases hreport
        refine .inl ⟨⟨hs, v, hv, hw, hadd⟩, .lose lose c, ?_, fun _ => ⟨lose, c, rfl⟩⟩
        rw [hrets, hnone]
        rfl
      · refine .inr ⟨fun hans => ?_, by rw [hrets, hnone]⟩
        obtain ⟨-, v, hv, hw, hadd⟩ := hans
        have howes : g.owes uid = false := hno uid money rfl
        unfold owes at howes
        rw [hv] at howes
        exact of_decide_eq_false howes ⟨hw, hadd⟩
      · refine .inr ⟨fun hans => ?_, by rw [hrets, hnone]⟩
        exact hs uid money rfl hans.1

/-- **When a call is answered.** A dispatch answers a call exactly once, and lets
the caller of a loser's report give its money free, if and only if the call is a
request to leave, or the table waits for the results and the caller owes. -/
theorem call_answered_once {g : Game} (hg : system.Reachable g) (env : Env) (uid : Uid)
    (address : Address) {m : Msg} (hcall : m.IsCall) (ha : Admissible g (.msg uid address m)) :
    ((rets (Handler.after (handle env g (.msg uid address m))).outbox).length = 1 ∧
      ∀ a : Purse, m = a.loserGetResult.2 → (a.loserGetResult.1.resume
        (rets (Handler.after (handle env g (.msg uid address m))).outbox).head?).lockmoney = false) ↔
      Answers g uid m := by
  have hinv := inv_invariant g hg
  rcases dispatch_rets env hinv ha hcall with ⟨hans, r, hrets, hlose⟩ | ⟨hans, hrets⟩
  · rw [hrets]
    refine ⟨fun _ => hans, fun _ => ⟨rfl, fun a ha => ?_⟩⟩
    obtain ⟨lose, c, rfl⟩ := hlose ⟨_, ha⟩
    rfl
  · rw [hrets]
    exact ⟨fun h => absurd h.1 (by decide), fun h => absurd h hans⟩

/-- Player 2 has lost the round and reports while the table waits: it is answered once, and its
money is free again. -/
theorem call_answered_once_report :
    ∃ g, system.Reachable g ∧ g.curstate = .waitShowResult ∧
      (rets (Handler.after
        (handle .quiet g (.msg 2 102 (.loserGetResult 1000)))).outbox).length = 1 ∧
      ((⟨1000, false⟩ : Purse).loserGetResult.1.resume (rets (Handler.after
        (handle .quiet g (.msg 2 102 (.loserGetResult 1000)))).outbox).head?).lockmoney = false := by
  obtain ⟨g, hg, hend⟩ := TSys.reachable_of_exec (T := system) (l := toResults)
    (p := fun g => decide (Admissible g (.msg 2 102 (.loserGetResult 1000)) ∧
      g.curstate = .waitShowResult ∧ g.owes 2 = true))
    (exec_step .quiet) (s := creatGame .base50) ⟨_, rfl⟩ (by decide +kernel)
  obtain ⟨ha, hwait, howes⟩ := of_decide_eq_true hend
  have hanswers : Answers g 2 (.loserGetResult 1000) := by
    unfold owes at howes
    split at howes
    · rename_i v hv
      exact ⟨hwait, v, hv, of_decide_eq_true howes⟩
    · cases howes
  obtain ⟨hone, hfree⟩ := (call_answered_once hg .quiet 2 102
    (show Msg.IsCall (.loserGetResult 1000) from trivial) ha).mpr hanswers
  exact ⟨g, hg, hwait, hone, hfree ⟨1000, false⟩ rfl⟩

/-- The loser's report is overtaken by the timer that shows the results. -/
def overtakenRun : List Event := toResults ++ [.timeout 2]

/-- A loser's report can go unanswered, and its agent's money stays locked. -/
theorem report_unanswered :
    ∃ g, system.Reachable g ∧ Admissible g (.msg 2 102 (.loserGetResult 1000)) ∧
      rets (Handler.after (handle .quiet g (.msg 2 102 (.loserGetResult 1000)))).outbox = [] ∧
      ((⟨1000, false⟩ : Purse).loserGetResult.1.resume (rets (Handler.after
        (handle .quiet g (.msg 2 102 (.loserGetResult 1000)))).outbox).head?).lockmoney = true := by
  obtain ⟨g, hg, hend⟩ := TSys.reachable_of_exec (T := system) (l := overtakenRun)
    (p := fun g => decide (Admissible g (.msg 2 102 (.loserGetResult 1000)) ∧
      rets (Handler.after (handle .quiet g (.msg 2 102 (.loserGetResult 1000)))).outbox = []))
    (exec_step .quiet) (s := creatGame .base50) ⟨_, rfl⟩ (by decide +kernel)
  obtain ⟨ha, hrets⟩ := of_decide_eq_true hend
  refine ⟨g, hg, ha, hrets, ?_⟩
  rw [hrets]
  rfl

end Game

end DnServer.Bullfight
