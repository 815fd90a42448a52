import DnServer.Bullfight.Game.Invariant

/-!
# The game service: what a dispatch finds

A dispatch of a message, or of a live timeout, prepares the table and calls the handler of
its state; any other step only prepares it. `Found` says what a prepared table has in common
with the one before. `StepIn` is a step in an environment of which something is known.
-/

namespace DnServer.Bullfight

open DnServer.Lib

namespace Game

variable {env : Env} {E : Env → Prop} {g g' t : Game} {e : Event} {m : Mtype}

/-- The message or timer a dispatch calls the state's handler for. -/
def handled (g : Game) : Event → Option Mtype
  | .msg uid _ m => some (.msg uid m)
  | .timeout n => g.timers.pending[n]?.bind fun p =>
    if g.timers.isLive p then some (.timer p.timerid) else none
  | _ => none

/-- The table on which the handler is called, and for what. -/
def found (env : Env) (g : Game) : Event → Option (Game × Mtype)
  | .msg uid address m => some (g.begin.pretreat env uid address m, .msg uid m)
  | .timeout n => g.timers.pending[n]?.bind fun p =>
    if g.timers.isLive p then
      some (({ g with timers := g.timers.pop n } : Game).begin, .timer p.timerid)
    else none
  | _ => none

/-- A message finds the table prepared for it, a live timeout the table behind it. -/
inductive Finds (env : Env) (g : Game) : Event → Game → Mtype → Prop
  | msg (uid : Uid) (address : Address) (x : Msg) :
    Finds env g (.msg uid address x) (g.begin.pretreat env uid address x) (.msg uid x)
  | timeout (n : ℕ) (p : Timeout TimerId) : g.timers.pending[n]? = some p →
    g.timers.isLive p = true → Finds env g (.timeout n)
      ({ g with timers := g.timers.pop n } : Game).begin (.timer p.timerid)

theorem found_cases (h : g.found env e = some (g', m)) : Finds env g e g' m := by
  cases e with
  | msg uid address x =>
    obtain ⟨rfl, rfl⟩ := Prod.mk.inj (Option.some.inj h)
    exact .msg uid address x
  | timeout n =>
    obtain ⟨p, hp, hfire⟩ := Option.bind_eq_some_iff.mp h
    split_ifs at hfire with hlive
    obtain ⟨rfl, rfl⟩ := Prod.mk.inj (Option.some.inj hfire)
    exact .timeout n p hp hlive
  | update conf => cases h
  | rehash => cases h

theorem handled_of_found (h : g.found env e = some (g', m)) : g.handled e = some m := by
  cases found_cases h with
  | msg uid address x => rfl
  | timeout n p hp hlive => rw [handled, hp, Option.bind_some, if_pos hlive]

theorem handle_found (h : g.found env e = some (g', m)) :
    handle env g e = g'.command env m := by
  cases found_cases h with
  | msg uid address x => rfl
  | timeout n p hp hlive => exact fire_live env hp hlive

theorem ready_found (h : Inv g) (ha : Admissible g e) (hf : g.found env e = some (g', m)) :
    Ready g' m := by
  cases found_cases hf with
  | msg uid address x => exact ready_msg h env ha
  | timeout n p hp hlive => exact ready_fire h hp hlive

/-- For a timer the table is as it was, but for the timeout that came due. -/
theorem found_timer {i : TimerId} (h : g.found env e = some (g', .timer i)) :
    ∃ timers, g' = ({ g with timers := timers } : Game).begin := by
  cases found_cases h with
  | timeout n p hp hlive => exact ⟨_, rfl⟩

/-- The timeout that came due was live, and it is the only one that went. -/
theorem live_found (h : Inv g) (hf : g.found env e = some (g', m)) (i : TimerId) :
    g'.timers.live i + (if m = .timer i then 1 else 0) = g.timers.live i := by
  cases found_cases hf with
  | msg uid address x =>
    rw [(pretreat_pretreated (begin_inv h) env uid address x).timers]
    simp [begin]
  | timeout n p hp hlive =>
    have hpop := Timers.live_pop hp i
    simp only [hlive, and_true] at hpop
    simp only [Mtype.timer.injEq, eq_comm (b := i)]
    exact hpop

/-! ## What a prepared table keeps -/

/-- `t` is a table a dispatch finds: nobody has a record that had none, and while a round runs
nobody's record is gone. -/
structure Found (g t : Game) : Prop where
  curstate : t.curstate = g.curstate
  calls : t.calls = []
  gameconf : g.isGameStart = true → t.gameconf = g.gameconf
  bankermoney : t.bankermoney = g.bankermoney
  topupling : t.topupling = g.topupling
  poker : t.poker = g.poker
  records : ∀ k v, t.gameplayer.get? k = some v → g.gameplayer.get? k = some v
  size : g.isGameStart = true → t.gameplayer.size = g.gameplayer.size

theorem begin_found (g : Game) (timers : Timers TimerId) :
    Found g ({ g with timers := timers } : Game).begin :=
  ⟨rfl, rfl, fun _ => rfl, rfl, rfl, rfl, fun _ _ hv => hv, fun _ => rfl⟩

/-- No message touches the deck before its handler is called. -/
theorem pretreat_poker (env : Env) (g : Game) (uid : Uid) (address : Address) (x : Msg) :
    (g.pretreat env uid address x).poker = g.poker := by
  have hleave : (g.pretreat env uid address .tryStand).poker = g.poker ∧
      (g.pretreat env uid address .tryQuit).poker = g.poker := by
    by_cases hbusy : uid ∈ g.gameplayer ∧ g.isGameStart = true
    · obtain ⟨hstand, hquit⟩ := pretreat_busy env address hbusy
      rw [hstand, hquit]
      exact ⟨rfl, rfl⟩
    · obtain ⟨hstand, hquit⟩ := pretreat_leave env address hbusy
      obtain ⟨n, r, b, p, hseat, -⟩ := leaveSeat_spec g uid
      rw [hstand, hquit, hseat]
      exact ⟨rfl, rfl⟩
  cases x with
  | someOneEnter =>
    obtain ⟨players, o, -, henter⟩ := pretreat_enter env g uid address
    rw [henter]
    rfl
  | tryStand => exact hleave.1
  | tryQuit => exact hleave.2
  | _ => rfl

theorem found_found (h : Inv g) (hf : g.found env e = some (g', m)) : Found g g' := by
  cases found_cases hf with
  | msg uid address x =>
    have hpre := pretreat_pretreated (begin_inv h) env uid address x
    exact ⟨hpre.curstate, hpre.calls, fun _ => hpre.gameconf, hpre.bankermoney, hpre.topupling,
      pretreat_poker env g.begin uid address x, hpre.records, fun hs => by rw [hpre.started hs]; rfl⟩
  | timeout n p hp hlive => exact begin_found g _

/-- A new configuration waits while a round runs. -/
theorem update_found (g : Game) (conf : GameConf) : Found g (g.needUpdateGameconf conf) := by
  unfold needUpdateGameconf
  by_cases hstart : g.isGameStart = true
  · rw [if_neg (show ¬ ¬ ({ g.begin with updateconf := some conf } : Game).isGameStart = true
      from not_not.mpr hstart)]
    exact ⟨rfl, rfl, fun _ => rfl, rfl, rfl, rfl, fun _ _ hv => hv, fun _ => rfl⟩
  · rw [if_pos (show ¬ ({ g.begin with updateconf := some conf } : Game).isGameStart = true
      from hstart)]
    exact ⟨rfl, rfl, fun hs => absurd hs hstart, rfl, rfl, rfl, fun _ _ hv => hv, fun _ => rfl⟩

theorem rehash_found (h : Rehash g t) : Found g t := by
  obtain ⟨seater, gameplayer, players, -, hrecords, -, rfl⟩ := h
  refine ⟨rfl, rfl, fun _ => rfl, rfl, rfl, rfl, fun k v hv => ?_, fun _ => hrecords.size.symm⟩
  rw [hrecords.get?]
  exact hv

/-! ## Steps -/

/-- One step in an environment that meets `E`. -/
def StepIn (E : Env → Prop) (g : Game) (e : Event) (t : Game) : Prop :=
  Admissible g e ∧
    match e with
    | .rehash => Rehash g t
    | e => ∃ env, E env ∧ t = Handler.after (g.handle env e)

theorem StepIn.step (h : StepIn E g e t) : Step g e t := by
  obtain ⟨ha, hstep⟩ := h
  refine ⟨ha, ?_⟩
  cases e with
  | rehash => exact hstep
  | _ =>
    obtain ⟨env, -, rfl⟩ := hstep
    exact ⟨env, rfl⟩

theorem Step.stepIn (h : Step g e t) : StepIn (fun _ => True) g e t := by
  obtain ⟨ha, hstep⟩ := h
  refine ⟨ha, ?_⟩
  cases e with
  | rehash => exact hstep
  | _ =>
    obtain ⟨env, rfl⟩ := hstep
    exact ⟨env, trivial, rfl⟩

theorem exec_stepIn (hE : E env) (g : Game) (e : Event) (t : Game) (h : exec env g e = some t) :
    StepIn E g e t := by
  have hstep := exec_step env g e t h
  refine ⟨hstep.1, ?_⟩
  cases e with
  | rehash => exact hstep.2
  | _ =>
    unfold exec at h
    rw [if_pos hstep.1] at h
    exact ⟨env, hE, (Option.some.inj h).symm⟩

/-- A step calls the handler on the table its dispatch finds, or is that table. -/
theorem StepIn.cases (h : Inv g) (hstep : StepIn E g e t) :
    (∃ env g' m, E env ∧ g.found env e = some (g', m) ∧ Ready g' m ∧
      t = Handler.after (g'.command env m)) ∨
    (Found g t ∧ ∀ i, t.timers.live i = g.timers.live i) := by
  obtain ⟨ha, hstep⟩ := hstep
  have hserve : ∀ env g' m, E env → g.found env e = some (g', m) →
      t = Handler.after (g.handle env e) →
      ∃ env g' m, E env ∧ g.found env e = some (g', m) ∧ Ready g' m ∧
        t = Handler.after (g'.command env m) := fun env g' m hE hf ht =>
    ⟨env, g', m, hE, hf, ready_found h ha hf, by rw [ht, handle_found hf]⟩
  cases e with
  | msg uid address x =>
    obtain ⟨env, hE, ht⟩ := hstep
    exact .inl (hserve env _ _ hE rfl ht)
  | timeout n =>
    obtain ⟨env, hE, ht⟩ := hstep
    cases hp : g.timers.pending[n]? with
    | none =>
      rw [show handle env g (.timeout n) = g.fire env n from rfl, fire_idle env hp] at ht
      rw [ht]
      exact .inr ⟨begin_found g g.timers, fun _ => rfl⟩
    | some p =>
      by_cases hlive : g.timers.isLive p = true
      · refine .inl (hserve env ({ g with timers := g.timers.pop n } : Game).begin
          (.timer p.timerid) hE ?_ ht)
        rw [found, hp, Option.bind_some, if_pos hlive]
      · have hdead : g.timers.isLive p = false := Bool.eq_false_iff.mpr hlive
        rw [show handle env g (.timeout n) = g.fire env n from rfl, fire_stale env hp hdead] at ht
        rw [ht]
        refine .inr ⟨begin_found g _, fun i => ?_⟩
        have hpop := Timers.live_pop hp i
        simp only [hdead, Bool.false_eq_true, and_false, if_false, Nat.add_zero] at hpop
        exact hpop
  | update conf =>
    obtain ⟨env, -, rfl⟩ := hstep
    obtain ⟨c, u, o, -, hnew⟩ := needUpdateGameconf_spec g conf
    refine .inr ⟨update_found g conf, fun i => ?_⟩
    show (g.needUpdateGameconf conf).timers.live i = _
    rw [hnew]
  | rehash =>
    refine .inr ⟨rehash_found hstep, fun i => ?_⟩
    obtain ⟨seater, gameplayer, players, -, -, -, rfl⟩ := hstep
    rfl

end Game

end DnServer.Bullfight
